import BuildPlan.Resolution

/-!
# Plans

A plan resolves every target that a workspace, or one solution of it, asks for. The targets share one store, but a
descriptor is stored for its target, so that a target that fails changes nothing for the others. Failures are reported
in the order of the targets.
-/

namespace BuildPlan

/-- What to plan and how. Parallel work and the number of workers have no influence on the outcome; that workers cannot be
started is left out. -/
structure PlanConfig where
  strict : Bool := false
  parallel : Bool := true
  jobs : Option Nat := none
  /-- The keys of the targets to plan; none for all. -/
  targets : List String := []
  /-- The solution to plan; absent for every project. -/
  solution : Option String := none
  deriving DecidableEq

/-- A target with the projects that are asked for on it. -/
structure PlannedTarget where
  target : Target
  roots : List String
  deriving DecidableEq

/-- A target that failed. -/
structure Failure where
  /-- The key of the target. -/
  target : String
  project : Option String
  kind : ErrorKind
  message : String
  deriving DecidableEq

namespace Failure

/-- The failure of a target with an error. -/
def ofError (t : Target) (e : BuildError) : Failure where
  target := t.key
  project := e.project?
  kind := e.kind
  message := e.message

/-- The failure as a line of a report. -/
def display (f : Failure) : String :=
  match f.project with
  | some p => "[" ++ f.target ++ "] " ++ f.kind.name ++ " in '" ++ p ++ "': " ++ f.message
  | none => "[" ++ f.target ++ "] " ++ f.kind.name ++ ": " ++ f.message

/-- The report of some failures, a line each under their number. -/
def report (failures : List Failure) : String :=
  toString failures.length ++ " resolution failure(s):\n" ++
    Text.join "" (failures.map (fun f => "  " ++ f.display ++ "\n"))

end Failure

/-- How many targets were planned and what they hold. -/
structure PlanStats where
  total : Nat := 0
  planned : Nat := 0
  failed : Nat := 0
  descriptors : Nat := 0
  waves : Nat := 0
  deriving DecidableEq

/-- What a plan amounts to. -/
structure PlanOutcome where
  solution : Option String := none
  startupProject : Option String := none
  /-- The targets that were resolved, in order. -/
  resolutions : List Resolution := []
  /-- The targets that failed, in order. -/
  failures : List Failure := []
  stats : PlanStats := {}
  deriving DecidableEq

namespace PlanOutcome

/-- Whether every target was resolved. -/
def isSuccess (o : PlanOutcome) : Bool := o.failures.isEmpty

/-- Whether some failure is of a category. -/
def hasKind (o : PlanOutcome) (k : ErrorKind) : Bool := o.failures.any (fun f => f.kind == k)

end PlanOutcome

namespace Workspace

/-! ### The targets to plan -/

/-- The members of a list that are built for a target, in order. -/
def membersFor (w : Workspace) (t : Target) : List String → Except BuildError (List String)
  | [] => .ok []
  | name :: rest => do
    let p ← w.project name
    let ts ← p.targets
    let more ← membersFor w t rest
    return if ts.contains t then name :: more else more

/-- The targets of a solution that some member is built for. -/
def solutionTargets (w : Workspace) (s : Solution) : List Target → Except BuildError (List PlannedTarget)
  | [] => .ok []
  | t :: rest => do
    let roots ← w.membersFor t s.projects
    let more ← solutionTargets w s rest
    return if roots.isEmpty then more else ⟨t, roots⟩ :: more

/-- The targets of a list with the projects that are built for them. -/
def workspaceTargets (w : Workspace) : List Target → Except BuildError (List PlannedTarget)
  | [] => .ok []
  | t :: rest => do
    let roots ← w.projectsFor t
    let more ← workspaceTargets w rest
    return ⟨t, roots.map Project.name⟩ :: more

/-- The targets to plan before any choice by key. -/
def allPlanned (w : Workspace) (solution : Option String) : Except BuildError (List PlannedTarget) :=
  match solution with
  | none => do
    let ts ← w.targets
    w.workspaceTargets ts
  | some name =>
    match w.solutions.get? name with
    | none => .error (.unknownSolution name)
    | some s => do
      let ts ← s.axes.expand
      w.solutionTargets s ts

/-- The first key that belongs to no planned target is an error. -/
def checkKeys (planned : List PlannedTarget) : List String → Except BuildError Unit
  | [] => .ok ()
  | key :: rest =>
    if planned.any (fun p => p.target.key == key) then checkKeys planned rest
    else .error (.invalidAxis .target (.notPlanned key))

/-- The targets to plan with their roots, in order. -/
def plannedTargets (w : Workspace) (config : PlanConfig) : Except BuildError (List PlannedTarget) := do
  let planned ← w.allPlanned config.solution
  if config.targets.isEmpty then return planned
  else
    checkKeys planned config.targets
    return planned.filter (fun p => config.targets.contains p.target.key)

/-! ### Planning -/

/-- Resolves some targets one after the other on one store. -/
def resolveAll (w : Workspace) (strict : Bool) (store : DescriptorStore) :
    List PlannedTarget → List (Target × Except BuildError Resolution)
  | [] => []
  | p :: rest =>
    let (result, store) := w.resolve strict p.roots p.target store
    (p.target, result) :: resolveAll w strict store rest

/-- The resolutions among some results. -/
def succeeded (results : List (Target × Except BuildError Resolution)) : List Resolution :=
  results.filterMap fun
    | (_, .ok r) => some r
    | (_, .error _) => none

/-- The failures among some results. -/
def failed (results : List (Target × Except BuildError Resolution)) : List Failure :=
  results.filterMap fun
    | (_, .ok _) => none
    | (t, .error e) => some (Failure.ofError t e)

/-- Plans a workspace. -/
def plan (w : Workspace) (config : PlanConfig) : Except BuildError PlanOutcome := do
  let planned ← w.plannedTargets config
  let results := w.resolveAll config.strict {} planned
  let resolutions := succeeded results
  let failures := failed results
  let solution := config.solution.bind w.solutions.get?
  return {
    solution := solution.map Solution.name
    startupProject := solution.bind Solution.startupProject
    resolutions, failures
    stats := {
      total := planned.length
      planned := resolutions.length
      failed := failures.length
      descriptors := (resolutions.flatMap Resolution.descriptors).length
      waves := (resolutions.map Resolution.waves).foldl (· + ·) 0 } }

end Workspace

end BuildPlan
