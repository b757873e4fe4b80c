import BuildPlan.Define
import BuildPlan.Project

/-!
# Configurations

A configuration collects the settings of one project on one target while the rules of its chain are applied. A rule
comes down to a list of writes, and each kind of write has its merge policy:

* paths, library files and compiler options are appended, and the first of equal values keeps its place;
* defines and properties are keyed, and a new value replaces the old one in its place;
* the four scalar fields take the last value written;
* dependencies are all kept, with the rule that declared them.

The configuration remembers the last rule that wrote each scalar field. When two rules of one rule set and of equal
priority write different values to a field, one after the other, it records a conflict.
-/

namespace BuildPlan

/-- A dependency that a rule declares. -/
structure DeclaredDependency where
  project : String
  visibility : Visibility
  /-- The rule set and the rule, or nothing outside of a rule. -/
  declaredBy : String
  deriving DecidableEq

/-- The rule that is being applied. -/
structure Provenance where
  ruleSet : String
  rule : String
  priority : Int
  deriving DecidableEq

/-- The name of a rule together with its rule set. -/
def Provenance.label (p : Provenance) : String := p.ruleSet ++ "/" ++ p.rule

/-- The last write of a scalar field: who wrote it and what. -/
structure ScalarWrite where
  author : Provenance
  value : String
  deriving DecidableEq

/-- One setting that a rule writes. -/
inductive Write
  | includePath (path : String)
  | privateIncludePath (path : String)
  | libraryPath (path : String)
  | libraryFiles (files : List String)
  | compilerOption (option : String)
  | define (define : String)
  | exportDefine (define : String)
  | property (key value : String)
  | outputKind (kind : OutputKind)
  | outputPath (path : String)
  | intermediatePath (path : String)
  | targetFileName (name : String)
  | dependency (project : String) (visibility : Visibility)
  deriving DecidableEq

/-- The settings of one project on one target. -/
structure Configuration where
  project : String
  target : Target
  includePaths : List String := []
  privateIncludePaths : List String := []
  libraryPaths : List String := []
  libraryFiles : List String := []
  compilerOptions : List String := []
  defines : Defines := ∅
  exportDefines : Defines := ∅
  properties : Keyed String := ∅
  outputKind : OutputKind
  outputPath : Option String := none
  intermediatePath : Option String := none
  targetFileName : Option String := none
  dependencies : List DeclaredDependency := []
  /-- The rule that is being applied, if one is. -/
  current : Option Provenance := none
  /-- The last write of each scalar field by a rule. -/
  lastWrite : ScalarField → Option ScalarWrite := fun _ => none
  conflicts : List ScalarConflict := []
  /-- The labels of the rules applied so far, in order. -/
  appliedRules : List String := []

namespace Configuration

/-- The configuration before any rule: the output kind is the target's and all else is empty. -/
def initial (project : String) (target : Target) : Configuration where
  project
  target
  outputKind := target.outputKind

/-- The conflict between the last write of a field and a new one, if they make one. -/
def conflict? (field : ScalarField) (last : Option ScalarWrite) (author : Provenance) (value : String) :
    Option ScalarConflict :=
  match last with
  | none => none
  | some w =>
    if w.author.ruleSet = author.ruleSet ∧ w.author.priority = author.priority ∧ w.author.rule ≠ author.rule ∧
        w.value ≠ value then
      some {
        field, ruleSet := author.ruleSet
        firstRule := w.author.rule, firstValue := w.value
        secondRule := author.rule, secondValue := value }
    else none

/-- Remembers that the current rule wrote a scalar field, and records the conflict this makes. A write outside of any rule
makes the field forget its last writer. -/
def recordScalar (c : Configuration) (field : ScalarField) (value : String) : Configuration :=
  match c.current with
  | none => { c with lastWrite := fun f => if f = field then none else c.lastWrite f }
  | some author =>
    { c with
      conflicts := c.conflicts ++ (conflict? field (c.lastWrite field) author value).toList
      lastWrite := fun f => if f = field then some ⟨author, value⟩ else c.lastWrite f }

/-- The configuration after one write. -/
def write (c : Configuration) : Write → Configuration
  | .includePath p => { c with includePaths := addNew c.includePaths p }
  | .privateIncludePath p => { c with privateIncludePaths := addNew c.privateIncludePaths p }
  | .libraryPath p => { c with libraryPaths := addNew c.libraryPaths p }
  | .libraryFiles fs => { c with libraryFiles := addAll c.libraryFiles fs }
  | .compilerOption o => { c with compilerOptions := addNew c.compilerOptions o }
  | .define d => { c with defines := c.defines.put (parseDefine d) }
  | .exportDefine d => { c with exportDefines := c.exportDefines.put (parseDefine d) }
  | .property k v => { c with properties := c.properties.set k v }
  | .outputKind k => { c.recordScalar .outputKind k.name with outputKind := k }
  | .outputPath p => { c.recordScalar .outputPath p with outputPath := some p }
  | .intermediatePath p => { c.recordScalar .intermediatePath p with intermediatePath := some p }
  | .targetFileName n => { c.recordScalar .targetFileName n with targetFileName := some n }
  | .dependency p v =>
    { c with dependencies := c.dependencies ++ [⟨p, v, (c.current.map Provenance.label).getD ""⟩] }

/-- The configuration after some writes. -/
def writeAll (c : Configuration) (ws : List Write) : Configuration := ws.foldl write c

/-- The configurations before the first write, between the writes and after the last one. -/
def history (c : Configuration) : List Write → List Configuration
  | [] => [c]
  | w :: ws => c :: history (c.write w) ws

/-- The configuration at the start of a rule. -/
def beginRule (c : Configuration) (p : Provenance) : Configuration :=
  { c with appliedRules := c.appliedRules ++ [p.label], current := some p }

/-- The configuration at the end of a rule. -/
def endRule (c : Configuration) : Configuration := { c with current := none }

/-- Applies a function to the texts of paths, property values, define values and the scalar fields that hold a text. Values
of a list that become equal are one value from then on. -/
def mapStrings (c : Configuration) (f : String → String) : Configuration :=
  { c with
    includePaths := distinct (c.includePaths.map f)
    privateIncludePaths := distinct (c.privateIncludePaths.map f)
    libraryPaths := distinct (c.libraryPaths.map f)
    libraryFiles := distinct (c.libraryFiles.map f)
    properties := c.properties.mapValues f
    defines := c.defines.mapValues (Option.map f)
    exportDefines := c.exportDefines.mapValues (Option.map f)
    outputPath := c.outputPath.map f
    intermediatePath := c.intermediatePath.map f
    targetFileName := c.targetFileName.map f }

/-- Fills in the paths that no rule has set. -/
def fillPaths (c : Configuration) (output intermediate : String) : Configuration :=
  { c with outputPath := some (c.outputPath.getD output), intermediatePath := some (c.intermediatePath.getD intermediate) }

/-- Drops the paths of a project that is not compiled. -/
def clearPaths (c : Configuration) : Configuration := { c with outputPath := none, intermediatePath := none }

end Configuration

end BuildPlan
