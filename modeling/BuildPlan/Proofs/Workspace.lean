import BuildPlan.Proofs.Rule.Chain
import BuildPlan.Workspace.Declarations

/-!
# What a workspace promises

Declarations that pass every check make a workspace in which all that is referred to exists (`Workspace.Finished`). The
checks are exactly this: declarations are finished if and only if the workspace of the same declarations keeps the promise
(`Declarations.finish_eq_ok_iff`).
-/

namespace BuildPlan

/-- What the checks make sure of: edges, projects and solutions refer to what is declared, every rule set has a chain, and
all axes are valid. -/
structure Workspace.Finished (w : Workspace) : Prop where
  edges : ∀ e ∈ w.edges, e.source ∈ w.projects.names ∧ e.dependency ∈ w.projects.names
  chains : ∀ s ∈ w.rules.sets.items, ∃ chain, RuleSet.Chain w.rules.sets s.id chain
  ruleSets : ∀ p ∈ w.projects.items, ∀ id, p.ruleSet = some id → id ∈ w.rules.sets.names
  axes : ∀ p ∈ w.projects.items, p.axes.validate = .ok ()
  members : ∀ s ∈ w.solutions.items, ∀ n ∈ s.projects ++ s.startupProject.toList, n ∈ w.projects.names
  solutionAxes : ∀ s ∈ w.solutions.items, s.axes.validate = .ok ()

/-- The chain of a project is that of its rule set; a project without a rule set has none. -/
theorem Workspace.Finished.chainOf {w : Workspace} (h : w.Finished) {p : Project} (hp : p ∈ w.projects.items) :
    p.ruleSet = none ∧ w.chainOf p = [] ∨ ∃ id, p.ruleSet = some id ∧ RuleSet.Chain w.rules.sets id (w.chainOf p) := by
  unfold Workspace.chainOf
  cases hset : p.ruleSet with
  | none => exact Or.inl ⟨rfl, rfl⟩
  | some id =>
    obtain ⟨s, hs⟩ := Catalog.mem_names_iff.mp (h.ruleSets p hp id hset)
    obtain ⟨chain, hchain⟩ := h.chains s (Catalog.mem_of_get? hs)
    have hid : s.id = id := Catalog.name_of_get? hs
    rw [hid] at hchain
    dsimp only
    rw [RuleRegistry.chain_eq hchain]
    exact Or.inr ⟨id, rfl, hchain⟩

/-- A rule set of a chain is the one that is registered under its id. -/
theorem Workspace.get?_of_mem_chainOf {w : Workspace} {p : Project} {s : RuleSet} (hs : s ∈ w.chainOf p) :
    w.rules.sets.get? s.id = some s := by
  unfold Workspace.chainOf RuleRegistry.chain at hs
  split at hs
  · exact absurd hs List.not_mem_nil
  · split at hs
    · obtain ⟨id, -, hid⟩ := List.mem_filterMap.mp hs
      exact Catalog.get?_name (Catalog.mem_of_get? hid)
    · exact absurd hs List.not_mem_nil

/-- The chain of a project is the same in every workspace that has the rule sets of the chain. -/
theorem Workspace.Finished.chainOf_eq {w w' : Workspace} (h : w.Finished) {p : Project} (hp : p ∈ w.projects.items)
    (hsets : ∀ s ∈ w.chainOf p, w'.rules.sets.get? s.id = some s) : w'.chainOf p = w.chainOf p := by
  rcases h.chainOf hp with ⟨hset, hnone⟩ | ⟨id, hset, hchain⟩
  · rw [hnone, Workspace.chainOf, hset]
  · rw [Workspace.chainOf, hset]
    exact RuleRegistry.chain_eq (hchain.of_get? hsets)

namespace Declarations

variable {d : Declarations}

theorem checkEdges_eq_ok_iff {l : List DependencyEdge} :
    d.checkEdges l = .ok () ↔ ∀ e ∈ l, e.source ∈ d.projects.names ∧ e.dependency ∈ d.projects.names := by
  induction l with
  | nil => simp [checkEdges]
  | cons e l ih =>
    unfold checkEdges
    rw [List.forall_mem_cons, ← ih, ← Catalog.contains_iff_mem, ← Catalog.contains_iff_mem]
    cases d.projects.contains e.source with
    | false => simp
    | true => cases d.projects.contains e.dependency <;> simp

theorem checkProjects_eq_ok_iff {rules : RuleRegistry} {l : List Project} :
    checkProjects rules l = .ok () ↔
      ∀ p ∈ l, (∀ id, p.ruleSet = some id → id ∈ rules.sets.names) ∧ p.axes.validate = .ok () := by
  induction l with
  | nil => simp [checkProjects]
  | cons p l ih =>
    have hcontains : ∀ id, rules.contains id = true ↔ id ∈ rules.sets.names := fun id => Catalog.contains_iff_mem
    have hrest : (do p.axes.validate; checkProjects rules l) = Except.ok () ↔
        p.axes.validate = .ok () ∧ checkProjects rules l = .ok () := check_bind_eq_ok_iff
    unfold checkProjects
    rw [List.forall_mem_cons, ← ih, and_assoc, ← hrest]
    cases p.ruleSet with
    | none => simp
    | some id =>
      simp only [Option.some.injEq, forall_eq', ← hcontains]
      cases rules.contains id with
      | true => simp
      | false => exact iff_of_false (fun h => nomatch h) (fun h => Bool.noConfusion h.1)

theorem checkSolutions_eq_ok_iff {l : List Solution} :
    d.checkSolutions l = .ok () ↔
      ∀ s ∈ l, (∀ n ∈ s.projects ++ s.startupProject.toList, n ∈ d.projects.names) ∧ s.axes.validate = .ok () := by
  induction l with
  | nil => simp [checkSolutions]
  | cons s l ih =>
    have hfind : (s.projects ++ s.startupProject.toList).find? (fun n => !d.projects.contains n) = none ↔
        ∀ n ∈ s.projects ++ s.startupProject.toList, n ∈ d.projects.names := by
      rw [List.find?_eq_none]
      refine forall₂_congr (fun n _ => ?_)
      rw [Bool.not_eq_true, Bool.not_eq_false', Catalog.contains_iff_mem]
    have hrest : (do s.axes.validate; d.checkSolutions l) = Except.ok () ↔
        s.axes.validate = .ok () ∧ d.checkSolutions l = .ok () := check_bind_eq_ok_iff
    unfold checkSolutions
    rw [List.forall_mem_cons, ← ih, and_assoc, ← hfind, ← hrest]
    cases (s.projects ++ s.startupProject.toList).find? (fun n => !d.projects.contains n) with
    | none => simp
    | some n => exact iff_of_false (fun h => nomatch h) (fun h => nomatch h.1)

/-- Declarations are finished exactly if their workspace has all that it refers to, and it is this workspace that they
give. -/
theorem finish_eq_ok_iff {w : Workspace} :
    d.finish = .ok w ↔
      w = { projects := d.projects, edges := d.edges, rules := ⟨d.ruleSets⟩, solutions := d.solutions,
            context := d.context } ∧ w.Finished := by
  unfold finish
  rw [check_bind_eq_ok_iff, bind_eq_ok_iff, checkEdges_eq_ok_iff]
  constructor
  · rintro ⟨hedges, rules, hrules, h⟩
    obtain ⟨rfl, hchains⟩ := RuleRegistry.ofSets_eq_ok_iff.mp hrules
    rw [check_bind_eq_ok_iff, check_bind_eq_ok_iff, checkProjects_eq_ok_iff, checkSolutions_eq_ok_iff] at h
    obtain ⟨hprojects, hsolutions, h⟩ := h
    cases h
    exact ⟨rfl, hedges, hchains, fun p hp => (hprojects p hp).1, fun p hp => (hprojects p hp).2,
      fun s hs => (hsolutions s hs).1, fun s hs => (hsolutions s hs).2⟩
  · rintro ⟨rfl, h⟩
    refine ⟨h.edges, ⟨d.ruleSets⟩, RuleRegistry.ofSets_eq_ok_iff.mpr ⟨rfl, h.chains⟩, ?_⟩
    rw [check_bind_eq_ok_iff, check_bind_eq_ok_iff, checkProjects_eq_ok_iff, checkSolutions_eq_ok_iff]
    exact ⟨fun p hp => ⟨h.ruleSets p hp, h.axes p hp⟩, fun s hs => ⟨h.members s hs, h.solutionAxes s hs⟩, rfl⟩

end Declarations

end BuildPlan
