import BuildPlan.Proofs.Workspace.Steps

/-!
# Refused steps

A step of declaring is refused because of what is collected already (`perform_refused_iff`), and then it leaves what is
collected as it was (`next_of_refused`). The one step that writes before its last check is the first rule of a project: it
registers a rule set, makes it the one of the project and then adds the rule, which is refused only if the rule set is not
registered. So nothing has been written where this check fails. In a run a refused step can be left out without any other
answer changing (`refused_leaves_no_trace`), and the run comes to that of its accepted steps (`foldl_next_accepted`).
-/

namespace BuildPlan.Declarations

variable {d : Declarations} {step : Step}

/-! ### When a step is refused -/

/-- A step is refused: what it declares is declared already, or it adds a rule to what is not there. A project whose rule set
has its own name gets a rule only if this rule set is registered, any other project only if none of its name is. -/
def Step.Refused (d : Declarations) : Step → Prop
  | .project p => p.name ∈ d.projects.names
  | .ruleSet s => s.id ∈ d.ruleSets.names
  | .rule id _ => id ∉ d.ruleSets.names
  | .projectRule name _ => ∀ p, d.projects.get? name = some p → (p.ruleSet = some name ↔ name ∉ d.ruleSets.names)
  | .solution s => s.name ∈ d.solutions.names
  | .replaceProject _ => False
  | .dependency _ => False
  | .context _ => False

/-- A rule is refused exactly if its rule set is not registered. -/
theorem rule_refused_iff (d : Declarations) (id : String) (r : Rule) :
    (∃ e, (d.rule id r).1 = some e) ↔ id ∉ d.ruleSets.names := by
  rw [← Catalog.get?_eq_none_iff, rule]
  cases d.ruleSets.get? id with
  | none => simp
  | some s => simp

/-- A rule of a project is refused if the project is not declared, if it names a rule set of its own name that is not
registered, or if one of its name is registered that it does not name. -/
theorem projectRule_refused_iff (d : Declarations) (name : String) (r : Rule) :
    (∃ e, (d.projectRule name r).1 = some e) ↔
      ∀ p, d.projects.get? name = some p → (p.ruleSet = some name ↔ name ∉ d.ruleSets.names) := by
  rw [projectRule]
  cases hp : d.projects.get? name with
  | none => simp
  | some p =>
    simp only [Option.some.injEq, forall_eq', ← Catalog.contains_iff_mem (c := d.ruleSets)]
    by_cases hown : p.ruleSet = some name
    · rw [if_pos hown, rule_refused_iff, Catalog.contains_iff_mem]
      simp [hown]
    · rw [if_neg hown]
      by_cases hmem : d.ruleSets.contains name = true
      · rw [if_pos hmem]
        simp [hown, hmem]
      · rw [if_neg hmem, rule_refused_iff]
        simp [hown, hmem, Catalog.mem_names_put, Named.name]

/-- When a step is refused. -/
theorem perform_refused_iff (d : Declarations) (step : Step) : (∃ e, (d.perform step).1 = some e) ↔ step.Refused d := by
  cases step with
  | project p =>
    have hget := Catalog.get?_eq_none_iff (c := d.projects) (n := p.name)
    rw [perform, project, Step.Refused]
    cases h : d.projects.get? p.name with
    | none => simpa using hget.mp h
    | some old => simpa using Catalog.mem_names_of_get? h
  | ruleSet s =>
    rw [perform, ruleSet, Step.Refused, ← Catalog.contains_iff_mem]
    cases d.ruleSets.contains s.id <;> simp
  | rule id r => exact rule_refused_iff d id r
  | projectRule name r => exact projectRule_refused_iff d name r
  | solution s =>
    rw [perform, solution, Step.Refused, ← Catalog.contains_iff_mem]
    cases d.solutions.contains s.name <;> simp
  | replaceProject p => simp [perform, Step.Refused]
  | dependency e => simp [perform, Step.Refused]
  | context c => simp [perform, Step.Refused]

/-! ### What a refused step leaves -/

/-- A refused step leaves what is collected as it was. -/
theorem next_of_refused (h : step.Refused d) : d.next step = d := by
  cases step with
  | project p => exact (next_project d p).trans (if_pos h)
  | ruleSet s => exact (next_ruleSet d s).trans (if_pos h)
  | rule id r => rw [next_rule, Catalog.get?_eq_none_iff.mpr h]
  | projectRule name r =>
    rw [next_projectRule]
    cases hp : d.projects.get? name with
    | none => rfl
    | some p =>
      have hrefused := h p hp
      dsimp only
      by_cases hown : p.ruleSet = some name
      · rw [if_pos hown, next_rule, Catalog.get?_eq_none_iff.mpr (hrefused.mp hown)]
      · rw [if_neg hown, if_pos (not_not.mp (fun hnew => hown (hrefused.mpr hnew)))]
  | solution s => exact (next_solution d s).trans (if_pos h)
  | replaceProject p => exact h.elim
  | dependency e => exact h.elim
  | context c => exact h.elim

/-! ### Runs -/

/-- The answers to some steps in order: the error for each that is refused. -/
def answers (d : Declarations) : List Step → List (Option BuildError)
  | [] => []
  | step :: rest => (d.perform step).1 :: answers (d.next step) rest

/-- The steps of a run that are not refused. -/
def accepted (d : Declarations) : List Step → List Step
  | [] => []
  | step :: rest =>
    match (d.perform step).1 with
    | none => step :: accepted (d.next step) rest
    | some _ => accepted (d.next step) rest

/-- The answers to more steps follow those to the first ones. -/
theorem answers_append (d : Declarations) (steps more : List Step) :
    d.answers (steps ++ more) = d.answers steps ++ (steps.foldl next d).answers more := by
  induction steps generalizing d with
  | nil => rfl
  | cons step steps ih => rw [List.cons_append, answers, answers, ih, List.cons_append, List.foldl_cons]

/-- Every step has its answer. -/
theorem length_answers (d : Declarations) (steps : List Step) : (d.answers steps).length = steps.length := by
  induction steps generalizing d with
  | nil => rfl
  | cons step steps ih => rw [answers, List.length_cons, List.length_cons, ih]

/-- A run comes to the run of its accepted steps, none of which is refused in it. -/
theorem foldl_next_accepted (d : Declarations) (steps : List Step) :
    (d.accepted steps).foldl next d = steps.foldl next d ∧ ∀ answer ∈ d.answers (d.accepted steps), answer = none := by
  induction steps generalizing d with
  | nil => exact ⟨rfl, fun _ h => nomatch h⟩
  | cons step steps ih =>
    rw [accepted]
    cases h : (d.perform step).1 with
    | none =>
      obtain ⟨hstate, hanswers⟩ := ih (d.next step)
      refine ⟨hstate, fun answer hanswer => ?_⟩
      rcases List.mem_cons.mp hanswer with rfl | hanswer
      · exact h
      · exact hanswers answer hanswer
    | some e =>
      have hsame := next_of_refused ((perform_refused_iff d step).mp ⟨e, h⟩)
      dsimp only
      rw [List.foldl_cons, hsame]
      exact ih d

/-- A refused step leaves no trace. If a step is refused in a run, it leaves everything that is collected as it was: the
projects with their rule sets, the edges, the rule sets with their rules, the solutions and the context, all in their order.
With the step left out, every other step of the run is answered as before, and so is the request for the workspace at the
end. -/
theorem refused_leaves_no_trace {before : List Step} {step : Step} {e : BuildError}
    (h : ((ofSteps before).perform step).1 = some e) (after : List Step) :
    (ofSteps before).next step = ofSteps before ∧
      ofSteps (before ++ step :: after) = ofSteps (before ++ after) ∧
      (ofSteps (before ++ step :: after)).finish = (ofSteps (before ++ after)).finish ∧
      ∃ earlier later, earlier.length = before.length ∧
        answers {} (before ++ step :: after) = earlier ++ some e :: later ∧
        answers {} (before ++ after) = earlier ++ later := by
  have hsame : (ofSteps before).next step = ofSteps before := next_of_refused ((perform_refused_iff _ _).mp ⟨e, h⟩)
  have hstate : ofSteps (before ++ step :: after) = ofSteps (before ++ after) := by
    rw [ofSteps_append, ofSteps_append, List.foldl_cons, hsame]
  have hanswers : answers (ofSteps before) (step :: after) = some e :: answers (ofSteps before) after := by
    rw [answers, h, hsame]
  refine ⟨hsame, hstate, congrArg finish hstate, answers {} before, answers (ofSteps before) after,
    length_answers {} before, ?_, answers_append {} before after⟩
  rw [← hanswers]
  exact answers_append {} before (step :: after)

/-- A project that is declared to use the rule set of its name, which is registered only later, and a rule of the project,
which comes too early. -/
def earlyRuleSteps : List Step := [
  .project { name := "Core", sourceRoot := "Core", ruleSet := some "Core" },
  .projectRule "Core" { name := "early" }]

/-- The rule is refused, and the rule set can be registered afterwards as if it had not been given. -/
theorem refused_leaves_no_trace_early :
    answers {} (earlyRuleSteps ++ [.ruleSet { id := "Core" }]) =
        [none, some (.unknownRuleSet "Core" (.rule "early")), none] ∧
      (ofSteps (earlyRuleSteps ++ [.ruleSet { id := "Core" }])).finish =
        (ofSteps [.project { name := "Core", sourceRoot := "Core", ruleSet := some "Core" },
          .ruleSet { id := "Core" }]).finish := by
  have hrefused : ((ofSteps [.project { name := "Core", sourceRoot := "Core", ruleSet := some "Core" }]).perform
      (.projectRule "Core" { name := "early" })).1 = some (.unknownRuleSet "Core" (.rule "early")) := rfl
  obtain ⟨-, -, hfinish, -⟩ := refused_leaves_no_trace hrefused [.ruleSet { id := "Core" }]
  exact ⟨rfl, hfinish⟩

end BuildPlan.Declarations
