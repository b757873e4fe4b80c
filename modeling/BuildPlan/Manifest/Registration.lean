import BuildPlan.Manifest
import BuildPlan.Text.Path
import BuildPlan.Workspace.Declarations

/-!
# Registering a manifest

The declarations of a manifest are registered in order: the context, the rule sets, each project with its edges and rules,
and the solutions. Names of axis values get their meaning here, so that an unknown one is an error before any target is
resolved. Relative paths are seen from the root directory of the workspace.
-/

namespace BuildPlan.Manifest

/-- What a rule writes, in order. -/
def RuleEntry.writes (r : RuleEntry) (outputKind : Option OutputKind) : List Write :=
  r.includePaths.map .includePath ++ r.privateIncludePaths.map .privateIncludePath ++ r.defines.map .define ++
    r.exportDefines.map .exportDefine ++ r.libraryPaths.map .libraryPath ++ [.libraryFiles r.libraryFiles] ++
    r.compilerOptions.map .compilerOption ++ r.properties.items.map (fun e => .property e.1 e.2) ++
    (outputKind.map Write.outputKind).toList ++ (r.outputPath.map Write.outputPath).toList ++
    (r.intermediatePath.map Write.intermediatePath).toList ++ (r.targetFileName.map Write.targetFileName).toList ++
    r.publicDependencies.map (fun p => .dependency p .pub) ++ r.privateDependencies.map (fun p => .dependency p .priv)

/-- The filter of an entry; one without a filter accepts every target. -/
def readFilter : Option AxisNames → Except BuildError TargetPredicate
  | none => .ok .all
  | some names => TargetPredicate.ofNames names

/-- The rule of an entry. -/
def RuleEntry.rule (r : RuleEntry) : Except BuildError Rule := do
  let filter ← readFilter r.filter
  let outputKind ←
    match r.outputKind with
    | none => pure none
    | some kind => (AxisNames.readOutputKind kind).map some
  return { name := r.name, filter, priority := r.priority, writes := r.writes outputKind }

/-- The rules of some entries. -/
def rulesOf : List RuleEntry → Except BuildError (List Rule)
  | [] => .ok []
  | r :: rest => do
    let rule ← r.rule
    let more ← rulesOf rest
    return rule :: more

/-- The rule set of an entry. -/
def RuleSetEntry.ruleSet (s : RuleSetEntry) : Except BuildError RuleSet := do
  let rules ← rulesOf s.rules
  return { id := s.id, base := s.base, rules }

/-- The axes of an entry; the default ones if it has none. -/
def axesOf (m : Manifest) : Option AxesEntry → Except BuildError TargetAxes
  | none => .ok {}
  | some entry =>
    match m.resolveAxes entry with
    | .error e => .error (.load e)
    | .ok names => TargetAxes.ofNames names

/-- The project of an entry. -/
def project (m : Manifest) (root : String) (p : ProjectEntry) : Except BuildError Project := do
  let axes ← m.axesOf p.axes
  return {
    name := p.name
    sourceRoot := Text.Path.join root (p.sourceRoot.getD p.name)
    kind := p.kind
    ruleSet := p.ruleSet
    axes
    origin := p.origin }

/-- The solution of an entry. -/
def solution (m : Manifest) (s : SolutionEntry) : Except BuildError Solution := do
  let axes ← m.axesOf s.axes
  return { name := s.name, projects := distinct s.projects, startupProject := s.startupProject, axes }

/-- The context of a workspace with a root directory. -/
def context (m : Manifest) (root : String) : PlanContext :=
  let entry := m.workspace.getD {}
  let solutionRoot := (entry.solutionRoot.map (Text.Path.join root)).getD root
  let defaults := PlanContext.ofRoot solutionRoot
  { solutionRoot
    intermediateRoot := (entry.intermediateRoot.map (Text.Path.join solutionRoot)).getD defaults.intermediateRoot
    outputRoot := (entry.outputRoot.map (Text.Path.join solutionRoot)).getD defaults.outputRoot
    substitutions := entry.substitutions }

/-! ### Registration -/

/-- Registers some rule sets. -/
def registerRuleSets (d : Declarations) : List RuleSetEntry → Except BuildError Declarations
  | [] => .ok d
  | s :: rest => do
    let set ← s.ruleSet
    let d ← (d.ruleSet set).accepted
    registerRuleSets d rest

/-- Registers the filtered dependencies of a project. -/
def registerEdges (source : String) (d : Declarations) : List EdgeEntry → Except BuildError Declarations
  | [] => .ok d
  | e :: rest => do
    let filter ← readFilter e.filter
    registerEdges source (d.dependency { source, dependency := e.project, visibility := e.visibility, filter }) rest

/-- Registers the rules of a project. -/
def registerRules (project : String) (d : Declarations) : List RuleEntry → Except BuildError Declarations
  | [] => .ok d
  | r :: rest => do
    let rule ← r.rule
    let d ← (d.projectRule project rule).accepted
    registerRules project d rest

/-- Registers a dependency for all targets. -/
def registerDependency (source : String) (visibility : Visibility) (d : Declarations) (dependency : String) :
    Declarations :=
  d.dependency { source, dependency, visibility }

/-- Registers a project with its dependencies and rules. -/
def registerProject (m : Manifest) (root : String) (d : Declarations) (p : ProjectEntry) :
    Except BuildError Declarations := do
  let project ← m.project root p
  let d ← if p.replace then pure (d.replaceProject project) else (d.project project).accepted
  let d := p.publicDependencies.foldl (registerDependency p.name .pub) d
  let d := p.privateDependencies.foldl (registerDependency p.name .priv) d
  let d ← registerEdges p.name d p.edges
  registerRules p.name d p.rules

/-- Registers some projects. -/
def registerProjects (m : Manifest) (root : String) (d : Declarations) :
    List ProjectEntry → Except BuildError Declarations
  | [] => .ok d
  | p :: rest => do
    let d ← m.registerProject root d p
    registerProjects m root d rest

/-- Registers some solutions. -/
def registerSolutions (m : Manifest) (d : Declarations) : List SolutionEntry → Except BuildError Declarations
  | [] => .ok d
  | s :: rest => do
    let solution ← m.solution s
    let d ← (d.solution solution).accepted
    registerSolutions m d rest

/-- All declarations of a manifest. -/
def declarations (m : Manifest) (root : String) : Except BuildError Declarations := do
  let d := ({} : Declarations).withContext (m.context root)
  let d ← registerRuleSets d m.ruleSets
  let d ← m.registerProjects root d m.projects
  m.registerSolutions d m.solutions

/-- The workspace that a manifest describes. -/
def registered (m : Manifest) (root : String) : Except BuildError Workspace := do
  let d ← m.declarations root
  d.finish

end BuildPlan.Manifest
