import BuildPlan.Proofs.Define
import BuildPlan.Proofs.Except

/-!
# What a valid manifest promises

The checks of a manifest go through its entries one by one and stop at the first fault. A manifest passes them exactly if its
projects and rule sets have names, its rules are sound (`Manifest.RuleEntry.IsSound`) and the startup projects of its
solutions are members (`Manifest.validate_eq_ok_iff`).
-/

namespace BuildPlan.Manifest

/-- A rule with a name, of which every define gives a well formed symbol. -/
structure RuleEntry.IsSound (r : RuleEntry) : Prop where
  name : Text.isBlankText r.name = false
  defines : ∀ d ∈ r.defines ++ r.exportDefines, IsSymbol (parseDefine d).1

/-- The rules of a manifest: those of its rule sets and those of its projects. -/
def rules (m : Manifest) : List RuleEntry := m.ruleSets.flatMap RuleSetEntry.rules ++ m.projects.flatMap ProjectEntry.rules

variable {m : Manifest} {owner : String}

/-- The check of a rule passes exactly if the rule is sound. -/
theorem checkRule_eq_ok_iff {r : RuleEntry} : checkRule owner r = .ok () ↔ r.IsSound := by
  unfold checkRule
  cases hname : Text.isBlankText r.name with
  | true => exact ⟨fun h => (nomatch h), fun h => absurd hname (ne_true_of_eq_false h.name)⟩
  | false =>
    rw [if_neg Bool.false_ne_true]
    cases hfind : (r.defines ++ r.exportDefines).find? isUnnamed with
    | none =>
      refine ⟨fun _ => ⟨hname, fun d hd => ?_⟩, fun _ => rfl⟩
      exact isSymbol_parseDefine_iff.mpr (eq_false_of_ne_true (List.find?_eq_none.mp hfind d hd))
    | some d =>
      refine ⟨fun h => (nomatch h), fun h => ?_⟩
      have hnamed := isSymbol_parseDefine_iff.mp (h.defines d (List.mem_of_find?_eq_some hfind))
      exact absurd (List.find?_some hfind) (ne_true_of_eq_false hnamed)

/-- The check of rules passes exactly if all are sound. -/
theorem checkRules_eq_ok_iff {rules : List RuleEntry} : checkRules owner rules = .ok () ↔ ∀ r ∈ rules, r.IsSound := by
  induction rules with
  | nil => exact ⟨fun _ r hr => absurd hr List.not_mem_nil, fun _ => rfl⟩
  | cons r rules ih =>
    unfold checkRules
    rw [check_bind_eq_ok_iff, checkRule_eq_ok_iff, ih, List.forall_mem_cons]

/-- A check of each item passes exactly if it passes for all. -/
theorem checkEach_eq_ok_iff {α : Type} {check : α → Except LoadError Unit} {l : List α} :
    checkEach check l = .ok () ↔ ∀ a ∈ l, check a = .ok () := by
  induction l with
  | nil => exact ⟨fun _ a ha => absurd ha List.not_mem_nil, fun _ => rfl⟩
  | cons a l ih =>
    unfold checkEach
    rw [check_bind_eq_ok_iff, ih, List.forall_mem_cons]

/-- The check of a project passes exactly if it has a name and sound rules. -/
theorem checkProject_eq_ok_iff {p : ProjectEntry} :
    checkProject p = .ok () ↔ Text.isBlankText p.name = false ∧ ∀ r ∈ p.rules, r.IsSound := by
  unfold checkProject
  cases Text.isBlankText p.name with
  | true => simp
  | false => simp [checkRules_eq_ok_iff]

/-- The check of a rule set passes exactly if it has an id and sound rules. -/
theorem checkRuleSet_eq_ok_iff {s : RuleSetEntry} :
    checkRuleSet s = .ok () ↔ Text.isBlankText s.id = false ∧ ∀ r ∈ s.rules, r.IsSound := by
  unfold checkRuleSet
  cases Text.isBlankText s.id with
  | true => simp
  | false => simp [checkRules_eq_ok_iff]

/-- The check of a solution passes exactly if its startup project, where it has one, is a member. -/
theorem checkSolution_eq_ok_iff {s : SolutionEntry} :
    checkSolution s = .ok () ↔ ∀ p, s.startupProject = some p → p ∈ s.projects := by
  unfold checkSolution
  cases s.startupProject with
  | none => simp
  | some p => simp

/-- A manifest is valid exactly if its projects and rule sets have names, its rules are sound and the startup projects of its
solutions are members. -/
theorem validate_eq_ok_iff :
    m.validate = .ok () ↔ (∀ p ∈ m.projects, Text.isBlankText p.name = false) ∧
      (∀ s ∈ m.ruleSets, Text.isBlankText s.id = false) ∧ (∀ r ∈ m.rules, r.IsSound) ∧
      ∀ s ∈ m.solutions, ∀ p, s.startupProject = some p → p ∈ s.projects := by
  have hrules : (∀ r ∈ m.rules, r.IsSound) ↔
      (∀ s ∈ m.ruleSets, ∀ r ∈ s.rules, r.IsSound) ∧ ∀ p ∈ m.projects, ∀ r ∈ p.rules, r.IsSound := by
    simp only [rules, List.mem_append, List.mem_flatMap, or_imp, forall_and, forall_exists_index, and_imp]
    exact ⟨fun h => ⟨fun s hs r => h.1 r s hs, fun p hp r => h.2 r p hp⟩,
      fun h => ⟨fun r s hs => h.1 s hs r, fun r p hp => h.2 p hp r⟩⟩
  unfold validate
  rw [check_bind_eq_ok_iff, check_bind_eq_ok_iff, checkEach_eq_ok_iff, checkEach_eq_ok_iff, checkEach_eq_ok_iff, hrules]
  simp only [checkProject_eq_ok_iff, checkRuleSet_eq_ok_iff, checkSolution_eq_ok_iff, forall_and]
  tauto

end BuildPlan.Manifest
