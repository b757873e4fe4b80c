import BuildPlan.Emission
import BuildPlan.Proofs.Except
import Mathlib.Data.List.Forall2

/-!
# What is refused to be emitted

Whatever order and descriptors a target plan is to be made of, each project of the order gets the first descriptor that is for
it and for the target (`TargetPlan.select_eq_ok_iff`), and a descriptor passes if all that it depends on is named in the order
before it (`TargetPlan.checkDependencies_eq_ok_iff`). What does not pass is refused for the first fault alone: the first project
without a descriptor, or else the first missing dependency of the first descriptor that has one (`emission_exact`).
-/

namespace BuildPlan

/-! ### First failures -/

section FirstFailure

variable {α : Type} {Ok : List α → α → Prop} {P : α → Prop} {l before : List α} {a x : α}

/-- Every item of a list is as it has to be after those before it. -/
def Throughout (Ok : List α → α → Prop) (l : List α) : Prop := ∀ before a after, l = before ++ a :: after → Ok before a

/-- The first item of a list that is not as it has to be, with the items before it. -/
structure FirstFailure (Ok : List α → α → Prop) (l before : List α) (a : α) : Prop where
  split : ∃ after, l = before ++ a :: after
  earlier : Throughout Ok before
  fails : ¬Ok before a

/-- Anything holds throughout no items. -/
theorem throughout_nil : Throughout Ok [] := by
  intro before a after h
  simp at h

/-- A property holds throughout a list if it holds of the first item and, with that before them, throughout the others. -/
theorem throughout_cons_iff : Throughout Ok (x :: l) ↔ Ok [] x ∧ Throughout (fun before => Ok (x :: before)) l := by
  constructor
  · exact fun h => ⟨h [] x l rfl, fun before a after heq => h (x :: before) a after (by rw [heq, List.cons_append])⟩
  · rintro ⟨hx, hl⟩ before a after heq
    rcases List.cons_eq_append_iff.mp heq with ⟨rfl, hcons⟩ | ⟨rest, rfl, hrest⟩
    · obtain ⟨rfl, rfl⟩ := List.cons.inj hcons
      exact hx
    · exact hl rest a after hrest

/-- What does not depend on the items before holds throughout a list if it holds of each. -/
theorem throughout_const_iff : Throughout (fun _ => P) l ↔ ∀ a ∈ l, P a := by
  constructor
  · intro h a ha
    obtain ⟨before, after, heq⟩ := List.append_of_mem ha
    exact h before a after heq
  · rintro h before a after rfl
    exact h a (by simp)

/-- No items have no first failure. -/
theorem not_firstFailure_nil : ¬FirstFailure Ok [] before a := by
  rintro ⟨⟨after, h⟩, -, -⟩
  simp at h

/-- The first failure of a list is its first item, or the first failure of the others if that one is as it has to be. -/
theorem exists_firstFailure_cons_iff {Q : List α → α → Prop} :
    (∃ before a, FirstFailure Ok (x :: l) before a ∧ Q before a) ↔
      (¬Ok [] x ∧ Q [] x) ∨
        (Ok [] x ∧ ∃ before a, FirstFailure (fun before => Ok (x :: before)) l before a ∧ Q (x :: before) a) := by
  constructor
  · rintro ⟨before, a, ⟨⟨after, heq⟩, hearlier, hfails⟩, hQ⟩
    rcases List.cons_eq_append_iff.mp heq with ⟨rfl, hcons⟩ | ⟨rest, rfl, hrest⟩
    · obtain ⟨rfl, rfl⟩ := List.cons.inj hcons
      exact Or.inl ⟨hfails, hQ⟩
    · obtain ⟨hx, hearlier⟩ := throughout_cons_iff.mp hearlier
      exact Or.inr ⟨hx, rest, a, ⟨⟨after, hrest⟩, hearlier, hfails⟩, hQ⟩
  · rintro (⟨hfails, hQ⟩ | ⟨hx, before, a, ⟨⟨after, rfl⟩, hearlier, hfails⟩, hQ⟩)
    · exact ⟨[], x, ⟨⟨l, rfl⟩, throughout_nil, hfails⟩, hQ⟩
    · exact ⟨x :: before, a, ⟨⟨after, rfl⟩, throughout_cons_iff.mpr ⟨hx, hearlier⟩, hfails⟩, hQ⟩

/-- A search for what does not satisfy a condition finds the first failure. -/
theorem find?_not_eq_some_iff {p : α → Bool} :
    l.find? (fun a => !p a) = some a ↔ ∃ before, FirstFailure (fun _ a => p a = true) l before a := by
  rw [List.find?_eq_some_iff_append]
  constructor
  · rintro ⟨ha, before, after, rfl, hbefore⟩
    exact ⟨before, ⟨after, rfl⟩, throughout_const_iff.mpr (by simpa using hbefore), by simpa using ha⟩
  · rintro ⟨before, ⟨after, rfl⟩, hearlier, hfails⟩
    exact ⟨by simpa using hfails, before, after, rfl, by simpa using throughout_const_iff.mp hearlier⟩

end FirstFailure

namespace TargetPlan

variable {t : Target} {descriptors selected : List Descriptor} {order : List String} {name : String} {d : Descriptor}
  {e : BuildError}

/-! ### Selecting descriptors -/

/-- The first descriptor of a list that is for a project and a target. -/
def Supplies (t : Target) (descriptors : List Descriptor) (name : String) (d : Descriptor) : Prop :=
  ∃ before after, descriptors = before ++ d :: after ∧ (d.project = name ∧ d.target = t.key) ∧
    ∀ e ∈ before, ¬(e.project = name ∧ e.target = t.key)

/-- The descriptor that is found for a name is the first one of that project and target. -/
theorem find?_eq_some_iff :
    descriptors.find? (fun d => d.project == name && d.target == t.key) = some d ↔ Supplies t descriptors name d := by
  rw [List.find?_eq_some_iff_append, Supplies]
  constructor
  · rintro ⟨hd, before, after, heq, hbefore⟩
    exact ⟨before, after, heq, by simpa using hd, fun e he => by simpa [or_iff_not_imp_left] using hbefore e he⟩
  · rintro ⟨before, after, heq, hd, hbefore⟩
    exact ⟨by simpa using hd, before, after, heq, fun e he => by simpa [or_iff_not_imp_left] using hbefore e he⟩

/-- A project has a first descriptor if it has any. -/
theorem exists_supplies_iff :
    (∃ d, Supplies t descriptors name d) ↔ ∃ d ∈ descriptors, d.project = name ∧ d.target = t.key := by
  simp only [← find?_eq_some_iff, ← Option.isSome_iff_exists, List.find?_isSome, Bool.and_eq_true, beq_iff_eq]

/-- A name is supplied with one descriptor only. -/
theorem Supplies.unique {d' : Descriptor} (h : Supplies t descriptors name d) (h' : Supplies t descriptors name d') :
    d = d' := by
  rw [← find?_eq_some_iff] at h h'
  exact Option.some.inj (h.symm.trans h')

/-- What a name is supplied with is one of the descriptors. -/
theorem Supplies.mem (h : Supplies t descriptors name d) : d ∈ descriptors := by
  obtain ⟨before, after, rfl, -, -⟩ := h
  exact List.mem_append_right before List.mem_cons_self

/-- What a name is supplied with is a descriptor of that project. -/
theorem Supplies.project (h : Supplies t descriptors name d) : d.project = name := by
  obtain ⟨-, -, -, ⟨hname, -⟩, -⟩ := h
  exact hname

/-- The selection succeeds with the first descriptor of each project in its place. -/
theorem select_eq_ok_iff : select t descriptors order = .ok selected ↔ List.Forall₂ (Supplies t descriptors) order selected := by
  induction order generalizing selected with
  | nil => cases selected <;> simp [select]
  | cons name order ih =>
    unfold select
    cases hfind : descriptors.find? (fun d => d.project == name && d.target == t.key) with
    | none =>
      refine iff_of_false (fun h => nomatch h) (fun h => ?_)
      cases h with
      | cons hd _ =>
        rw [find?_eq_some_iff.mpr hd] at hfind
        cases hfind
    | some d =>
      have hd := find?_eq_some_iff.mp hfind
      dsimp only
      constructor
      · intro h
        obtain ⟨more, hmore, h⟩ := bind_eq_ok_iff.mp h
        cases h
        exact .cons hd (ih.mp hmore)
      · intro h
        cases h with
        | cons hd' hmore =>
          rw [hd.unique hd']
          exact bind_eq_ok_iff.mpr ⟨_, ih.mpr hmore, rfl⟩

/-- The selection fails with the first project without a descriptor. -/
theorem select_eq_error_iff :
    select t descriptors order = .error e ↔
      ∃ before name, FirstFailure (fun _ n => ∃ d, Supplies t descriptors n d) order before name ∧
        e = .incompleteDescriptor name name t := by
  induction order with
  | nil => simp [select, not_firstFailure_nil]
  | cons name order ih =>
    unfold select
    rw [exists_firstFailure_cons_iff]
    cases hfind : descriptors.find? (fun d => d.project == name && d.target == t.key) with
    | none =>
      have hnone : ¬∃ d, Supplies t descriptors name d := by
        rintro ⟨d, hd⟩
        rw [find?_eq_some_iff.mpr hd] at hfind
        cases hfind
      simp [hnone, eq_comm]
    | some d =>
      have hd : ∃ d, Supplies t descriptors name d := ⟨d, find?_eq_some_iff.mp hfind⟩
      have hrest : (do let more ← select t descriptors order; return d :: more) = .error e ↔
          select t descriptors order = .error e := by
        rw [bind_eq_error_iff]
        exact or_iff_left (fun ⟨_, _, h⟩ => nomatch h)
      dsimp only
      rw [hrest, ih]
      simp only [hd, not_true_eq_false, false_and, true_and, false_or]

/-! ### Checking dependencies -/

/-- All that the descriptor of a project depends on is among the names before it. -/
def Grounded (t : Target) (descriptors : List Descriptor) (earlier : List String) (name : String) : Prop :=
  ∀ d, Supplies t descriptors name d → ∀ dep ∈ d.dependencies, dep ∈ earlier

/-- A name is grounded exactly if the dependencies of its descriptor stand earlier. -/
theorem Supplies.grounded_iff (h : Supplies t descriptors name d) {earlier : List String} :
    Grounded t descriptors earlier name ↔ ∀ dep ∈ d.dependencies, dep ∈ earlier :=
  ⟨fun hall => hall d h, fun hall _ h' => h.unique h' ▸ hall⟩

/-- A descriptor has no missing dependency if it depends only on what is emitted. -/
theorem find?_missing_eq_none_iff {emitted dependencies : List String} :
    dependencies.find? (fun dep => !emitted.contains dep) = none ↔ ∀ dep ∈ dependencies, dep ∈ emitted.reverse := by
  simp

/-- A missing dependency is the first one that was not emitted. -/
theorem find?_missing_eq_some_iff {emitted dependencies : List String} {dep : String} :
    dependencies.find? (fun dep => !emitted.contains dep) = some dep ↔
      ∃ deps, FirstFailure (fun _ dep => dep ∈ emitted.reverse) dependencies deps dep := by
  simp only [find?_not_eq_some_iff, List.contains_iff_mem, List.mem_reverse]

/-- The check passes if everything that a descriptor depends on is named before it. What is emitted is what the loop has gone
through, the last one first. -/
theorem checkDependencies_eq_ok_iff (hselect : List.Forall₂ (Supplies t descriptors) order selected) {emitted : List String} :
    checkDependencies t emitted selected = .ok () ↔
      Throughout (fun before => Grounded t descriptors (emitted.reverse ++ before)) order := by
  induction hselect generalizing emitted with
  | nil => exact iff_of_true rfl throughout_nil
  | @cons name d order selected hd _ ih =>
    unfold checkDependencies
    rw [throughout_cons_iff, List.append_nil, hd.grounded_iff, ← find?_missing_eq_none_iff]
    cases d.dependencies.find? (fun dep => !emitted.contains dep) with
    | some dep => exact iff_of_false (fun h => nomatch h) (fun h => nomatch h.1)
    | none =>
      dsimp only
      rw [ih, hd.project, List.reverse_cons]
      simp only [List.append_assoc, List.singleton_append, true_and]

/-- The check fails with the first missing dependency of the first descriptor that has one. -/
theorem checkDependencies_eq_error_iff (hselect : List.Forall₂ (Supplies t descriptors) order selected)
    {emitted : List String} :
    checkDependencies t emitted selected = .error e ↔
      ∃ before name, FirstFailure (fun before => Grounded t descriptors (emitted.reverse ++ before)) order before name ∧
        ∃ d deps dep, Supplies t descriptors name d ∧
          FirstFailure (fun _ dep => dep ∈ emitted.reverse ++ before) d.dependencies deps dep ∧
          e = .incompleteDescriptor name dep t := by
  induction hselect generalizing emitted with
  | nil => simp [checkDependencies, not_firstFailure_nil]
  | @cons name d order selected hd _ ih =>
    unfold checkDependencies
    rw [exists_firstFailure_cons_iff]
    simp only [List.append_nil, hd.grounded_iff, ← find?_missing_eq_none_iff]
    cases hfind : d.dependencies.find? (fun dep => !emitted.contains dep) with
    | some dep =>
      obtain ⟨deps, hfail⟩ := find?_missing_eq_some_iff.mp hfind
      dsimp only
      rw [Except.error.injEq, hd.project]
      constructor
      · rintro rfl
        exact Or.inl ⟨nofun, d, deps, dep, hd, hfail, rfl⟩
      · rintro (⟨-, d', deps', dep', hd', hfail', rfl⟩ | ⟨hnone, -⟩)
        · obtain rfl := hd.unique hd'
          rw [find?_missing_eq_some_iff.mpr ⟨deps', hfail'⟩, Option.some.injEq] at hfind
          rw [hfind]
        · cases hnone
    | none =>
      dsimp only
      rw [ih, hd.project, List.reverse_cons]
      simp only [List.append_assoc, List.singleton_append, not_true_eq_false, false_and, true_and, false_or]

/-! ### Target plans -/

/-- Every name of the order can be supplied exactly if there is a descriptor of each project and the target. -/
theorem exists_select_iff :
    (∃ selected, List.Forall₂ (Supplies t descriptors) order selected) ↔
      ∀ name ∈ order, ∃ d ∈ descriptors, d.project = name ∧ d.target = t.key := by
  simp only [← exists_supplies_iff]
  refine ⟨?_, exists_forall₂⟩
  rintro ⟨selected, hselect⟩ name hname
  obtain ⟨d, -, hd⟩ := exists_of_mem_forall₂ hselect.flip hname
  exact ⟨d, hd⟩

/-- A target is emitted exactly if every name of the order is grounded; then it has the descriptors in the order, and their
fingerprint. -/
theorem ofOrder_eq_ok_iff {plan : TargetPlan} :
    ofOrder t order descriptors = .ok plan ↔
      Throughout (Grounded t descriptors) order ∧ ∃ selected, List.Forall₂ (Supplies t descriptors) order selected ∧
        plan = { key := t.key, target := t, order, fingerprint := fingerprintOf selected, descriptors := selected } := by
  have hcheck : ∀ {selected}, List.Forall₂ (Supplies t descriptors) order selected →
      (checkDependencies t [] selected = .ok () ↔ Throughout (Grounded t descriptors) order) :=
    fun hselect => checkDependencies_eq_ok_iff hselect
  unfold ofOrder
  rw [bind_eq_ok_iff]
  simp only [select_eq_ok_iff, check_bind_eq_ok_iff]
  constructor
  · rintro ⟨selected, hselect, hdone, hplan⟩
    cases hplan
    exact ⟨(hcheck hselect).mp hdone, selected, hselect, rfl⟩
  · rintro ⟨hgrounded, selected, hselect, rfl⟩
    exact ⟨selected, hselect, (hcheck hselect).mpr hgrounded, rfl⟩

/-- Emission fails either over a descriptor that is not there or over a dependency that is not emitted before. -/
theorem ofOrder_eq_error_iff :
    ofOrder t order descriptors = .error e ↔
      select t descriptors order = .error e ∨
        ∃ selected, List.Forall₂ (Supplies t descriptors) order selected ∧ checkDependencies t [] selected = .error e := by
  unfold ofOrder
  rw [bind_eq_error_iff]
  simp only [select_eq_ok_iff, bind_eq_error_iff]
  refine or_congr Iff.rfl (exists_congr fun selected => and_congr_right fun _ => or_iff_left ?_)
  rintro ⟨_, _, h⟩
  cases h

end TargetPlan

/-- The check of what is emitted is exact. A plan is made if and only if every project of the order has a descriptor for the
target and the first one of each project depends only on names before it in the order; it then holds these first descriptors,
position by position. What is refused is refused for the first project of the order without a descriptor; or, if there is none,
for the first project whose descriptor has a missing dependency and the first one that is missing. -/
theorem emission_exact (t : Target) (order : List String) (descriptors : List Descriptor) :
    ((∃ plan, TargetPlan.ofOrder t order descriptors = .ok plan) ↔
      (∀ name ∈ order, ∃ d ∈ descriptors, d.project = name ∧ d.target = t.key) ∧
        Throughout (TargetPlan.Grounded t descriptors) order) ∧
    (∀ plan, TargetPlan.ofOrder t order descriptors = .ok plan →
      plan.key = t.key ∧ plan.target = t ∧ plan.order = order ∧
        plan.fingerprint = TargetPlan.fingerprintOf plan.descriptors ∧
        List.Forall₂ (TargetPlan.Supplies t descriptors) order plan.descriptors) ∧
    ∀ e, TargetPlan.ofOrder t order descriptors = .error e ↔
      (∃ before name, FirstFailure (fun _ n => ∃ d ∈ descriptors, d.project = n ∧ d.target = t.key) order before name ∧
        e = .incompleteDescriptor name name t) ∨
      (∀ name ∈ order, ∃ d ∈ descriptors, d.project = name ∧ d.target = t.key) ∧
        ∃ before name, FirstFailure (TargetPlan.Grounded t descriptors) order before name ∧
          ∃ d deps dep, TargetPlan.Supplies t descriptors name d ∧
            FirstFailure (fun _ dep => dep ∈ before) d.dependencies deps dep ∧ e = .incompleteDescriptor name dep t := by
  refine ⟨?_, fun plan hplan => ?_, fun e => ?_⟩
  · simp only [TargetPlan.ofOrder_eq_ok_iff, ← TargetPlan.exists_select_iff]
    constructor
    · rintro ⟨plan, hgrounded, selected, hselect, -⟩
      exact ⟨⟨selected, hselect⟩, hgrounded⟩
    · rintro ⟨⟨selected, hselect⟩, hgrounded⟩
      exact ⟨_, hgrounded, selected, hselect, rfl⟩
  · obtain ⟨-, selected, hselect, rfl⟩ := TargetPlan.ofOrder_eq_ok_iff.mp hplan
    exact ⟨rfl, rfl, rfl, rfl, hselect⟩
  · have hcheck : ∀ {selected}, List.Forall₂ (TargetPlan.Supplies t descriptors) order selected →
        (TargetPlan.checkDependencies t [] selected = .error e ↔ _) :=
      fun hselect => TargetPlan.checkDependencies_eq_error_iff hselect
    simp only [List.reverse_nil, List.nil_append] at hcheck
    rw [TargetPlan.ofOrder_eq_error_iff, TargetPlan.select_eq_error_iff, ← TargetPlan.exists_select_iff]
    simp only [TargetPlan.exists_supplies_iff]
    refine or_congr Iff.rfl ⟨?_, ?_⟩
    · rintro ⟨selected, hselect, herror⟩
      exact ⟨⟨selected, hselect⟩, (hcheck hselect).mp herror⟩
    · rintro ⟨⟨selected, hselect⟩, herror⟩
      exact ⟨selected, hselect, (hcheck hselect).mpr herror⟩

/-- A descriptor for the default target without any settings. -/
def bareDescriptor (project : String) (dependencies : List String) : Descriptor where
  project := project
  target := Target.key {}
  configuration := "Debug_Editor"
  kind := .generate
  outputKind := .lib
  includePaths := []
  defines := ∅
  libraryPaths := []
  libraryFiles := []
  compilerOptions := []
  properties := ∅
  dependencies := dependencies
  exports := {}
  appliedRules := []

/-- A tool that stands in the order before the library it depends on is refused, although both have descriptors. -/
theorem emission_exact_tooEarly :
    TargetPlan.ofOrder {} ["Tool", "Core"] [bareDescriptor "Core" [], bareDescriptor "Tool" ["Core"]] =
      .error (.incompleteDescriptor "Tool" "Core" {}) := by
  have htool : TargetPlan.Supplies {} [bareDescriptor "Core" [], bareDescriptor "Tool" ["Core"]] "Tool"
      (bareDescriptor "Tool" ["Core"]) := ⟨[bareDescriptor "Core" []], [], rfl, ⟨rfl, rfl⟩, by simp [bareDescriptor]⟩
  refine ((emission_exact _ _ _).2.2 _).mpr (Or.inr ⟨by simp [bareDescriptor], [], "Tool", ?_, _, [], "Core", htool, ?_, rfl⟩)
  · exact ⟨⟨["Core"], rfl⟩, throughout_nil, fun hall => nomatch hall _ htool "Core" (List.mem_singleton.mpr rfl)⟩
  · exact ⟨⟨[], rfl⟩, throughout_nil, List.not_mem_nil⟩

end BuildPlan
