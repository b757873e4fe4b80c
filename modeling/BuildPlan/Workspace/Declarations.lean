import BuildPlan.Workspace

/-!
# Declarations

Declarations are collected one by one and then checked together. A declaration may be refused; what is collected goes on
either way, and a refused one has changed nothing. `finish` gives the workspace if every edge, rule set, project and
solution refers to something declared and all axes are valid.
-/

namespace BuildPlan

/-- Declarations that are not checked yet. -/
structure Declarations where
  projects : Catalog Project := ∅
  edges : List DependencyEdge := []
  ruleSets : Catalog RuleSet := ∅
  solutions : Catalog Solution := ∅
  context : PlanContext := default

namespace Declarations

/-- What comes of a declaration: the error if it is refused, and what is collected after it. -/
abbrev Outcome := Option BuildError × Declarations

/-- What is collected after a declaration that is not refused. -/
def Outcome.accepted : Outcome → Except BuildError Declarations
  | (none, d) => .ok d
  | (some e, _) => .error e

/-- Declares a project; its name must be new. -/
def project (d : Declarations) (p : Project) : Outcome :=
  match d.projects.get? p.name with
  | some old => (some (.duplicateProject p.name old.origin p.origin), d)
  | none => (none, { d with projects := d.projects.put p })

/-- Declares a project in the place of an earlier one of its name. The edges that leave the earlier one are dropped, and
so is the rule set named after it if the earlier one used it. -/
def replaceProject (d : Declarations) (p : Project) : Declarations :=
  match d.projects.get? p.name with
  | none => { d with projects := d.projects.put p }
  | some old =>
    { d with
      projects := d.projects.put p
      edges := d.edges.filter (fun e => e.source != p.name)
      ruleSets := if old.ruleSet = some p.name then d.ruleSets.erase p.name else d.ruleSets }

/-- Registers a rule set; its id must be new. -/
def ruleSet (d : Declarations) (s : RuleSet) : Outcome :=
  if d.ruleSets.contains s.id then (some (.duplicateRuleSet s.id), d)
  else (none, { d with ruleSets := d.ruleSets.put s })

/-- Appends a rule to a registered rule set. -/
def rule (d : Declarations) (id : String) (r : Rule) : Outcome :=
  match d.ruleSets.get? id with
  | none => (some (.unknownRuleSet id (.rule r.name)), d)
  | some s => (none, { d with ruleSets := d.ruleSets.put { s with rules := s.rules ++ [r] } })

/-- Appends a rule to the project's own rule set. The first rule creates this set: it is named after the project, its base
is the rule set that the project declared, and it becomes the project's rule set. -/
def projectRule (d : Declarations) (name : String) (r : Rule) : Outcome :=
  match d.projects.get? name with
  | none => (some (.unknownProject name .direct), d)
  | some p =>
    if p.ruleSet = some name then d.rule name r
    else if d.ruleSets.contains name then (some (.duplicateRuleSet name), d)
    else
      { d with
        ruleSets := d.ruleSets.put { id := name, base := p.ruleSet }
        projects := d.projects.put { p with ruleSet := some name } }.rule name r

/-- Registers a dependency edge. -/
def dependency (d : Declarations) (e : DependencyEdge) : Declarations := { d with edges := d.edges ++ [e] }

/-- Declares a solution; its name must be new. -/
def solution (d : Declarations) (s : Solution) : Outcome :=
  if d.solutions.contains s.name then (some (.duplicateSolution s.name), d)
  else (none, { d with solutions := d.solutions.put s })

/-- Sets the context of tokens. -/
def withContext (d : Declarations) (c : PlanContext) : Declarations := { d with context := c }

/-! ### Checks -/

/-- The first end of an edge that is not a project is an error. -/
def checkEdges (d : Declarations) : List DependencyEdge → Except BuildError Unit
  | [] => .ok ()
  | e :: rest =>
    if !d.projects.contains e.source then .error (.unknownProject e.source (.edge e.source e.dependency))
    else if !d.projects.contains e.dependency then .error (.unknownProject e.dependency (.edge e.source e.dependency))
    else checkEdges d rest

/-- A project must use a registered rule set and have valid axes. -/
def checkProjects (rules : RuleRegistry) : List Project → Except BuildError Unit
  | [] => .ok ()
  | p :: rest => do
    match p.ruleSet with
    | none => pure ()
    | some id => if rules.contains id then pure () else throw (.unknownRuleSet id (.project p.name))
    p.axes.validate
    checkProjects rules rest

/-- A solution must have declared members and a declared startup project, and valid axes. -/
def checkSolutions (d : Declarations) : List Solution → Except BuildError Unit
  | [] => .ok ()
  | s :: rest => do
    match (s.projects ++ s.startupProject.toList).find? (fun n => !d.projects.contains n) with
    | none => pure ()
    | some n => throw (.unknownProject n (.solution s.name))
    s.axes.validate
    checkSolutions d rest

/-- The workspace of the declarations, if they pass every check. -/
def finish (d : Declarations) : Except BuildError Workspace := do
  d.checkEdges d.edges
  let rules ← RuleRegistry.ofSets d.ruleSets
  checkProjects rules d.projects.items
  d.checkSolutions d.solutions.items
  return { projects := d.projects, edges := d.edges, rules, solutions := d.solutions, context := d.context }

end Declarations

end BuildPlan
