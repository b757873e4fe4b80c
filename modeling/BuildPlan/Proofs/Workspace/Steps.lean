import BuildPlan.Proofs.Catalog.Erase
import BuildPlan.Workspace.Declarations

/-!
# Runs of declarations

Declarations are made in steps, and a step that is refused does not stop the next ones. What a step leaves is written down
once for every kind (`next_project`, `next_rule` and so on). From these equations follow what becomes of the project of a name
(`get?_projects_next`) and of the rule set of an id (`exists_grown_next`, `mem_ruleSets_next`) in any step.
-/

namespace BuildPlan

/-- What later declarations can make of a rule set: its base stays, and rules come behind those that are there. -/
structure RuleSet.Grows (s s' : RuleSet) : Prop where
  base : s'.base = s.base
  rules : s.rules <+: s'.rules

/-- Every rule set has grown from itself. -/
theorem RuleSet.Grows.refl (s : RuleSet) : s.Grows s := ⟨rfl, List.prefix_refl _⟩

/-- What grows twice has grown. -/
theorem RuleSet.Grows.trans {s s' s'' : RuleSet} (h : s.Grows s') (h' : s'.Grows s'') : s.Grows s'' :=
  ⟨h'.base.trans h.base, h.rules.trans h'.rules⟩

namespace Declarations

/-- A step of declaring. -/
inductive Step
  | project (p : Project)
  | replaceProject (p : Project)
  | ruleSet (s : RuleSet)
  | rule (id : String) (r : Rule)
  | projectRule (name : String) (r : Rule)
  | dependency (e : DependencyEdge)
  | solution (s : Solution)
  | context (c : PlanContext)

/-- What comes of a step. -/
def perform (d : Declarations) : Step → Outcome
  | .project p => d.project p
  | .replaceProject p => (none, d.replaceProject p)
  | .ruleSet s => d.ruleSet s
  | .rule id r => d.rule id r
  | .projectRule name r => d.projectRule name r
  | .dependency e => (none, d.dependency e)
  | .solution s => d.solution s
  | .context c => (none, d.withContext c)

/-- What is collected after a step, refused or not. -/
def next (d : Declarations) (step : Step) : Declarations := (d.perform step).2

/-- What is collected after some steps, from the start on. -/
def ofSteps (steps : List Step) : Declarations := steps.foldl next {}

variable {d : Declarations} {steps : List Step} {step : Step} {n : String}

/-- More steps go on from where the first ones came to. -/
theorem ofSteps_append (steps more : List Step) : ofSteps (steps ++ more) = more.foldl next (ofSteps steps) :=
  List.foldl_append

/-- One more step is taken from where the others came to. -/
theorem ofSteps_concat (steps : List Step) (step : Step) : ofSteps (steps ++ [step]) = (ofSteps steps).next step :=
  ofSteps_append steps [step]

/-! ### What each kind of step leaves -/

/-- A project is declared unless its name is taken. -/
theorem next_project (d : Declarations) (p : Project) :
    d.next (.project p) = if p.name ∈ d.projects.names then d else { d with projects := d.projects.put p } := by
  have hget := Catalog.get?_eq_none_iff (c := d.projects) (n := p.name)
  rw [next, perform, project]
  cases h : d.projects.get? p.name with
  | none => rw [if_neg (hget.mp h)]
  | some old => rw [if_pos (Catalog.mem_names_of_get? h)]

/-- A replacement drops the edges of the project, and its rule set if it used the one of its name. -/
theorem next_replaceProject (d : Declarations) (p : Project) :
    d.next (.replaceProject p) =
      { d with
        projects := d.projects.put p
        edges := if p.name ∈ d.projects.names then d.edges.filter (fun e => e.source != p.name) else d.edges
        ruleSets :=
          if (d.projects.get? p.name).bind Project.ruleSet = some p.name then d.ruleSets.erase p.name else d.ruleSets } := by
  have hget := Catalog.get?_eq_none_iff (c := d.projects) (n := p.name)
  rw [next, perform, replaceProject]
  cases h : d.projects.get? p.name with
  | none => rw [if_neg (hget.mp h)]; rfl
  | some old => rw [if_pos (Catalog.mem_names_of_get? h)]; rfl

/-- A rule set is registered unless its name is taken. -/
theorem next_ruleSet (d : Declarations) (s : RuleSet) :
    d.next (.ruleSet s) = if s.id ∈ d.ruleSets.names then d else { d with ruleSets := d.ruleSets.put s } := by
  rw [next, perform, ruleSet]
  simp only [Catalog.contains_iff_mem]
  split <;> rfl

/-- A rule is added to a registered rule set; without one nothing happens. -/
theorem next_rule (d : Declarations) (id : String) (r : Rule) :
    d.next (.rule id r) =
      match d.ruleSets.get? id with
      | none => d
      | some s => { d with ruleSets := d.ruleSets.put { s with rules := s.rules ++ [r] } } := by
  rw [next, perform, rule]
  cases d.ruleSets.get? id <;> rfl

/-- The first rule of a project comes with its rule set, unless a rule set of this name is there. -/
theorem next_projectRule (d : Declarations) (name : String) (r : Rule) :
    d.next (.projectRule name r) =
      match d.projects.get? name with
      | none => d
      | some p =>
        if p.ruleSet = some name then d.next (.rule name r)
        else if name ∈ d.ruleSets.names then d
        else
          { d with
            ruleSets := d.ruleSets.put { id := name, base := p.ruleSet, rules := [r] }
            projects := d.projects.put { p with ruleSet := some name } } := by
  rw [next, perform, projectRule]
  cases d.projects.get? name with
  | none => rfl
  | some p =>
    dsimp only
    by_cases hown : p.ruleSet = some name
    · rw [if_pos hown, if_pos hown]
      rfl
    · rw [if_neg hown, if_neg hown]
      by_cases h : name ∈ d.ruleSets.names
      · rw [if_pos h, if_pos (Catalog.contains_iff_mem.mpr h)]
      · have hget : (d.ruleSets.put { id := name, base := p.ruleSet }).get? name =
            some { id := name, base := p.ruleSet } := Catalog.get?_put_of_name rfl
        have hput : (d.ruleSets.put { id := name, base := p.ruleSet }).put { id := name, base := p.ruleSet, rules := [r] } =
            d.ruleSets.put { id := name, base := p.ruleSet, rules := [r] } := Catalog.put_put rfl
        rw [if_neg h, if_neg (fun hc => h (Catalog.contains_iff_mem.mp hc))]
        simp only [rule, hget, List.nil_append, hput]

/-- An edge is added behind all others. -/
theorem next_dependency (d : Declarations) (e : DependencyEdge) :
    d.next (.dependency e) = { d with edges := d.edges ++ [e] } := rfl

/-- A solution is declared unless its name is taken. -/
theorem next_solution (d : Declarations) (s : Solution) :
    d.next (.solution s) = if s.name ∈ d.solutions.names then d else { d with solutions := d.solutions.put s } := by
  rw [next, perform, solution]
  simp only [Catalog.contains_iff_mem]
  split <;> rfl

/-- The context takes the place of the one before. -/
theorem next_context (d : Declarations) (c : PlanContext) : d.next (.context c) = { d with context := c } := rfl

/-! ### What becomes of a project and of a rule set -/

/-- The declaration of the project of a name that is in force after a step, if another one was before: the first one is, until
it is replaced. -/
def Step.declare (n : String) (current : Option Project) : Step → Option Project
  | .project p => if p.name = n then current.or (some p) else current
  | .replaceProject p => if p.name = n then some p else current
  | _ => current

/-- A step declares the project of a name or leaves it as it is, unless it gives the project its first rule and with it a rule
set of its own. -/
theorem get?_projects_next
    (h : ∀ r, step = .projectRule n r → n ∈ (d.next step).ruleSets.names → n ∈ d.ruleSets.names) :
    (d.next step).projects.get? n = step.declare n (d.projects.get? n) := by
  cases step with
  | project p =>
    rw [next_project, Step.declare]
    by_cases hp : p.name ∈ d.projects.names
    · rw [if_pos hp]
      split
      · rename_i hn
        obtain ⟨q, hq⟩ := Catalog.mem_names_iff.mp (hn ▸ hp)
        rw [hq, Option.some_or]
      · rfl
    · have hnone := Catalog.get?_eq_none_iff.mpr hp
      rw [if_neg hp]
      by_cases hn : p.name = n
      · subst hn
        rw [if_pos rfl, hnone, Option.none_or]
        exact Catalog.get?_put_of_name rfl
      · rw [if_neg hn]
        exact Catalog.get?_put_of_ne hn
  | replaceProject p =>
    rw [next_replaceProject, Step.declare, Catalog.get?_put]
    exact if_congr eq_comm rfl rfl
  | ruleSet s =>
    rw [next_ruleSet]
    split <;> rfl
  | rule id r =>
    rw [next_rule]
    split <;> rfl
  | projectRule name r =>
    change _ = d.projects.get? n
    rw [next_projectRule] at h ⊢
    split
    · rfl
    · rename_i p hp
      rw [hp] at h
      dsimp only at h
      split
      · rw [next_rule]
        split <;> rfl
      · rename_i hown
        split
        · rfl
        · rename_i hnew
          have hne : name ≠ n := by
            rintro rfl
            rw [if_neg hown, if_neg hnew] at h
            exact hnew (h r rfl (Catalog.mem_names_put.mpr (Or.inr rfl)))
          have hname : p.name = name := Catalog.name_of_get? hp
          exact Catalog.get?_put_of_ne (fun he => hne (hname.symm.trans he))
  | dependency e => rfl
  | solution s =>
    rw [next_solution]
    split <;> rfl
  | context c => rfl

/-- A replacement takes away no rule set but the one of the name of the project, and this only if the project uses it. -/
theorem get?_ruleSets_replaceProject (d : Declarations) (p : Project) (id : String) :
    (d.next (.replaceProject p)).ruleSets.get? id =
      if p.name = id ∧ (d.projects.get? id).bind Project.ruleSet = some id then none else d.ruleSets.get? id := by
  rw [next_replaceProject]
  dsimp only
  by_cases hname : p.name = id
  · subst hname
    simp only [true_and]
    split
    · rw [Catalog.get?_erase, if_pos rfl]
    · rfl
  · rw [if_neg (fun h : p.name = id ∧ _ => hname h.1)]
    split
    · rw [Catalog.get?_erase, if_neg (Ne.symm hname)]
    · rfl

/-- A step takes the rule set of an id away: it replaces the project of this name, which uses the rule set. -/
def Step.Takes (d : Declarations) (id : String) : Step → Prop
  | .replaceProject p => p.name = id ∧ (d.projects.get? id).bind Project.ruleSet = some id
  | _ => False

/-- Each rule set is there after a rule was added, with the same rules and at most one more at the end. -/
theorem grown_next_rule {s : RuleSet} (hs : d.ruleSets.get? n = some s) (id : String) (r : Rule) :
    ∃ s', (d.next (.rule id r)).ruleSets.get? n = some s' ∧ s.Grows s' := by
  rw [next_rule]
  split
  · exact ⟨s, hs, .refl s⟩
  · rename_i x hx
    have hid : x.id = id := Catalog.name_of_get? hx
    rw [Catalog.get?_put]
    split
    · rename_i hn
      have hsx : s = x := by
        rw [hn.trans hid, hx, Option.some.injEq] at hs
        exact hs.symm
      subst hsx
      exact ⟨_, rfl, rfl, List.prefix_append _ _⟩
    · exact ⟨s, hs, .refl s⟩

/-- A registered rule set stays and keeps its base, unless the step takes it away. -/
theorem exists_grown_next {s : RuleSet} (hs : d.ruleSets.get? n = some s) (h : ¬step.Takes d n) :
    ∃ s', (d.next step).ruleSets.get? n = some s' ∧ s.Grows s' := by
  have hmem := Catalog.mem_names_of_get? hs
  cases step with
  | project p =>
    rw [next_project]
    split <;> exact ⟨s, hs, .refl s⟩
  | replaceProject p =>
    refine ⟨s, ?_, .refl s⟩
    rw [get?_ruleSets_replaceProject, hs]
    exact if_neg h
  | ruleSet x =>
    rw [next_ruleSet]
    split
    · exact ⟨s, hs, .refl s⟩
    · rename_i hnew
      have hne : x.id ≠ n := fun hn => hnew (hn ▸ hmem)
      exact ⟨s, (Catalog.get?_put_of_ne hne).trans hs, .refl s⟩
  | rule id r => exact grown_next_rule hs id r
  | projectRule name r =>
    rw [next_projectRule]
    split
    · exact ⟨s, hs, .refl s⟩
    · split
      · exact grown_next_rule hs name r
      · split
        · exact ⟨s, hs, .refl s⟩
        · rename_i hnew
          have hne : name ≠ n := fun hn => hnew (hn ▸ hmem)
          exact ⟨s, (Catalog.get?_put_of_ne hne).trans hs, .refl s⟩
  | dependency e => exact ⟨s, hs, .refl s⟩
  | solution x =>
    rw [next_solution]
    split <;> exact ⟨s, hs, .refl s⟩
  | context c => exact ⟨s, hs, .refl s⟩

/-- Where a step registers a rule set, it is declared as such or comes with the first rule of the project of its name, which
then uses it. -/
theorem mem_ruleSets_next (h : n ∈ (d.next step).ruleSets.names) :
    n ∈ d.ruleSets.names ∨ (∃ s, step = .ruleSet s ∧ s.id = n) ∨
      ∃ q, (d.next step).projects.get? n = some q ∧ q.ruleSet = some n := by
  have hrule : ∀ id r, n ∈ (d.next (.rule id r)).ruleSets.names → n ∈ d.ruleSets.names := by
    intro id r h
    rw [next_rule] at h
    split at h
    · exact h
    · rename_i s hs
      have hid : s.id ∈ d.ruleSets.names := List.mem_map_of_mem (Catalog.mem_of_get? hs)
      rcases Catalog.mem_names_put.mp h with h | rfl
      · exact h
      · exact hid
  cases step with
  | project p =>
    rw [next_project] at h
    split at h <;> exact Or.inl h
  | replaceProject p =>
    rw [next_replaceProject] at h
    dsimp only at h
    split at h
    · exact Or.inl (Catalog.mem_names_erase.mp h).1
    · exact Or.inl h
  | ruleSet s =>
    rw [next_ruleSet] at h
    split at h
    · exact Or.inl h
    · rcases Catalog.mem_names_put.mp h with h | rfl
      · exact Or.inl h
      · exact Or.inr (Or.inl ⟨s, rfl, rfl⟩)
  | rule id r => exact Or.inl (hrule id r h)
  | projectRule name r =>
    rw [next_projectRule] at h ⊢
    split at h
    · exact Or.inl h
    · rename_i p hp
      have hname : p.name = name := Catalog.name_of_get? hp
      split at h
      · exact Or.inl (hrule name r h)
      · rename_i hown
        split at h
        · exact Or.inl h
        · rename_i hnew
          rcases Catalog.mem_names_put.mp h with h | hn
          · exact Or.inl h
          · refine Or.inr (Or.inr ⟨{ p with ruleSet := some name }, ?_, congrArg some hn.symm⟩)
            rw [if_neg hown, if_neg hnew]
            exact Catalog.get?_put_of_name (hname.trans hn.symm)
  | dependency e => exact Or.inl h
  | solution s =>
    rw [next_solution] at h
    split at h <;> exact Or.inl h
  | context c => exact Or.inl h

end Declarations

end BuildPlan
