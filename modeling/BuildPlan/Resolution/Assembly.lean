import BuildPlan.Resolution.Discovery
import BuildPlan.Store

/-!
# Assembly

A project is assembled when all its dependencies are: it inherits the exports of its public dependencies, which hold what
those inherited in turn, and the own exports of its private dependencies. What it hands on are its own exports and those
of its public dependencies. The finished descriptor is put into the store.

A wave is assembled as a whole; the first error in it is reported after that.
-/

namespace BuildPlan

namespace Discovery

/-- What a project gets from one direct dependency. -/
def inheritedFrom (d : Discovery) (store : DescriptorStore) (dependent : String) (dep : String × Visibility) :
    Except BuildError (Visibility × ExportedSettings) :=
  match dep.2 with
  | .pub =>
    match store.get? dep.1 d.graph.target with
    | none => .error (.incompleteDescriptor dependent dep.1 d.graph.target)
    | some descriptor => .ok (.pub, descriptor.exports)
  | .priv =>
    match d.locals.lookup dep.1 with
    | none => .error (.incompleteDescriptor dependent dep.1 d.graph.target)
    | some settings => .ok (.priv, settings.ownExports)

/-- What a project gets from its direct dependencies, in their order. -/
def inheritance (d : Discovery) (store : DescriptorStore) (dependent : String) :
    List (String × Visibility) → Except BuildError (List (Visibility × ExportedSettings))
  | [] => .ok []
  | dep :: rest => do
    let e ← d.inheritedFrom store dependent dep
    let more ← inheritance d store dependent rest
    return e :: more

end Discovery

namespace LocalConfiguration

/-- What a project hands to its consumers. -/
def exports (l : LocalConfiguration) (inherited : List (Visibility × ExportedSettings)) : ExportedSettings :=
  ExportedSettings.absorbAll (l.ownExports :: (inherited.filter (fun e => e.1 == .pub)).map Prod.snd)

/-- The defines of a project: its own ones, of which the exported win, and then the inherited ones of other symbols. -/
def allDefines (l : LocalConfiguration) (inherited : ExportedSettings) : Defines :=
  inherited.defines.items.foldl Catalog.putNew (l.settings.exportDefines.items.foldl Catalog.put l.settings.defines)

/-- The descriptor of a project from what it inherits and the names of all its dependencies. -/
def descriptor (l : LocalConfiguration) (inherited : List (Visibility × ExportedSettings)) (dependencies : List String) :
    Descriptor :=
  let c := l.settings
  let gained := ExportedSettings.absorbAll (inherited.map Prod.snd)
  { project := c.project
    target := c.target.key
    configuration := c.target.configurationName
    kind := l.kind
    outputKind := c.outputKind
    outputPath := c.outputPath
    intermediatePath := c.intermediatePath
    targetFileName := c.targetFileName
    includePaths := addAll (addAll c.includePaths c.privateIncludePaths) gained.includePaths
    defines := l.allDefines gained
    libraryPaths := addAll c.libraryPaths gained.libraryPaths
    libraryFiles := addAll c.libraryFiles gained.libraryFiles
    compilerOptions := c.compilerOptions
    properties := c.properties
    dependencies
    exports := l.exports inherited
    appliedRules := c.appliedRules }

end LocalConfiguration

namespace Discovery

/-- Names sorted by their positions in an order. Those that the order does not hold come after all others. -/
def sortedBy (order names : List String) : List String :=
  names.mergeSort (fun a b => decide (order.idxOf a ≤ order.idxOf b))

/-- The descriptor of a project, read from what the store holds of its dependencies. -/
def describe (d : Discovery) (order : List String) (store : DescriptorStore) (name : String) :
    Except BuildError Descriptor := do
  match d.graph.node? name, d.locals.lookup name with
  | some node, some settings =>
    let inherited ← d.inheritance store name node.dependencies.items
    return settings.descriptor inherited (sortedBy order (d.graph.transitiveDependencies name))
  | _, _ => throw (.unknownProject name .direct)

/-- The store with the descriptor of one more project. -/
def assemble (d : Discovery) (order : List String) (store : DescriptorStore) (name : String) :
    Except BuildError DescriptorStore := do
  let descriptor ← d.describe order store name
  store.insert d.graph.target descriptor

/-- Assembles every project of a wave. A project that fails leaves the store as it is; the first error is kept. -/
def assembleWave (d : Discovery) (order : List String) (store : DescriptorStore) :
    List String → Option BuildError × DescriptorStore
  | [] => (none, store)
  | name :: rest =>
    match d.assemble order store name with
    | .ok store => assembleWave d order store rest
    | .error e => (some e, (assembleWave d order store rest).2)

/-- Assembles wave after wave up to the first one with an error. -/
def assembleWaves (d : Discovery) (order : List String) (store : DescriptorStore) :
    List (List String) → Option BuildError × DescriptorStore
  | [] => (none, store)
  | wave :: rest =>
    match d.assembleWave order store wave with
    | (none, store) => assembleWaves d order store rest
    | (some e, store) => (some e, store)

end Discovery

end BuildPlan
