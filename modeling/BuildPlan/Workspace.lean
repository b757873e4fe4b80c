import BuildPlan.Rule.Registry

/-!
# Workspaces

A workspace is what the declarations amount to once they are checked: projects, edges, rule sets with their chains,
solutions and the context of tokens. Resolutions only read it.
-/

namespace BuildPlan

/-- Checked declarations. -/
structure Workspace where
  projects : Catalog Project := ∅
  edges : List DependencyEdge := []
  rules : RuleRegistry := ⟨∅⟩
  solutions : Catalog Solution := ∅
  context : PlanContext := default

namespace Workspace

/-- The project of a name, or the error that there is none. -/
def project (w : Workspace) (name : String) : Except BuildError Project :=
  match w.projects.get? name with
  | some p => .ok p
  | none => .error (.unknownProject name .direct)

/-- The registered edges from a project that exist for a target, in order of registration. -/
def edgesFor (w : Workspace) (source : String) (t : Target) : List DependencyEdge :=
  w.edges.filter (fun e => e.source == source && e.filter.admits t)

/-- The lists of targets of some projects; the first project whose axes do not expand is the error. -/
def targetLists : List Project → Except BuildError (List (List Target))
  | [] => .ok []
  | p :: rest => do
    let ts ← p.targets
    let more ← targetLists rest
    return ts :: more

/-- Every target that some project is built for, in the order in which they first occur. -/
def targets (w : Workspace) : Except BuildError (List Target) := do
  let lists ← targetLists w.projects.items
  return unionTargets lists

/-- The projects of a list that are built for a target. -/
def supporting (t : Target) : List Project → Except BuildError (List Project)
  | [] => .ok []
  | p :: rest => do
    let ts ← p.targets
    let more ← supporting t rest
    return if ts.contains t then p :: more else more

/-- The projects that are built for a target, in the order of declaration. -/
def projectsFor (w : Workspace) (t : Target) : Except BuildError (List Project) := supporting t w.projects.items

/-- The rule sets of a project's chain; none if the project has no rule set. -/
def chainOf (w : Workspace) (p : Project) : List RuleSet :=
  match p.ruleSet with
  | none => []
  | some id => w.rules.chain id

end Workspace

end BuildPlan
