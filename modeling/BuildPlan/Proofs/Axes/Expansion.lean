import BuildPlan.Proofs.Axes
import BuildPlan.Proofs.Except
import Mathlib.Data.Set.Card

/-!
# The order of an expansion

Axes expand to a list that goes through their values in order, the platform outermost. `TargetAxes.place` says where a
target belongs in it. The targets stand in the lexicographic order of their places, and there are as many of them as there
are combinations of distinct values (`expansion_exact`).
-/

namespace BuildPlan

/-! ### Values in order -/

/-- Lists that are made for the values of an ordered list, each ordered by the rest of a place, are ordered by the whole
place when they are put one after the other. -/
theorem pairwise_flatMap_of_key {α β : Type} {l : List α} {f : α → List β} {pos : α → Nat} (key : β → α)
    (rest : β → List Nat) (hl : l.Pairwise (fun a a' => pos a < pos a'))
    (hf : ∀ a ∈ l, (f a).Pairwise (fun b b' => rest b < rest b')) (hkey : ∀ a ∈ l, ∀ b ∈ f a, key b = a) :
    (l.flatMap f).Pairwise (fun b b' => pos (key b) :: rest b < pos (key b') :: rest b') := by
  rw [List.pairwise_flatMap]
  constructor
  · intro a ha
    refine (hf a ha).imp_of_mem ?_
    intro b b' hb hb' h
    rw [hkey a ha b hb, hkey a ha b' hb']
    exact List.cons_lt_cons_iff.mpr (Or.inr ⟨rfl, h⟩)
  · refine hl.imp_of_mem ?_
    intro a a' ha ha' h b hb b' hb'
    rw [hkey a ha b hb, hkey a' ha' b' hb']
    exact List.cons_lt_cons_iff.mpr (Or.inl h)

/-- A list without repeats counts what is in it. -/
theorem ncard_eq_length {α : Type} {l : List α} {P : α → Prop} (hl : l.Nodup) (hP : ∀ a, a ∈ l ↔ P a) :
    {a | P a}.ncard = l.length := by
  classical
  have hset : {a | P a} = (l.toFinset : Set α) := by
    ext a
    simp [hP]
  rw [hset, Set.ncard_coe_finset, List.toFinset_card_of_nodup hl]

namespace TargetAxes

/-- The place of a target among those that axes expand to: for each axis, from the platform on, where the value of the
target comes first. -/
def place (a : TargetAxes) (t : Target) : List Nat :=
  [a.platforms.idxOf t.platform, a.devEnvs.idxOf t.devEnv, Flag.index t.optimization, a.outputKinds.idxOf t.outputKind,
    Flag.index t.launchMode, a.buildSystems.idxOf t.buildSystem]

/-- The targets that axes expand to stand in the order of their places, of which each axis fixes the next part, from the
outermost on. -/
theorem pairwise_combinations (a : TargetAxes) : a.combinations.Pairwise (fun s t => a.place s < a.place t) := by
  refine pairwise_flatMap_of_key Target.platform _ (pairwise_idxOf_distinct _) (fun platform _ => ?_) ?_
  · refine pairwise_flatMap_of_key Target.devEnv _ (pairwise_idxOf_distinct _) (fun devEnv _ => ?_) ?_
    · refine pairwise_flatMap_of_key Target.optimization _ a.optimizations.pairwise_toList (fun optimization _ => ?_) ?_
      · refine pairwise_flatMap_of_key Target.outputKind _ (pairwise_idxOf_distinct _) (fun outputKind _ => ?_) ?_
        · refine pairwise_flatMap_of_key Target.launchMode _ a.launchModes.pairwise_toList (fun launchMode _ => ?_) ?_
          · rw [List.pairwise_map]
            refine (pairwise_idxOf_distinct _).imp ?_
            intro b b' h
            exact List.cons_lt_cons_iff.mpr (Or.inl h)
          · grind
        · grind
      · grind
    · grind
  · grind

/-- There are as many targets as there are combinations of distinct values. -/
theorem length_combinations (a : TargetAxes) :
    a.combinations.length = {p | p ∈ a.platforms}.ncard * {e | e ∈ a.devEnvs}.ncard *
      {o | a.optimizations.contains o = true}.ncard * {k | k ∈ a.outputKinds}.ncard *
      {m | a.launchModes.contains m = true}.ncard * {b | b ∈ a.buildSystems}.ncard := by
  rw [ncard_eq_length (nodup_distinct a.platforms) (fun _ => mem_distinct),
    ncard_eq_length (nodup_distinct a.devEnvs) (fun _ => mem_distinct),
    ncard_eq_length a.optimizations.nodup_toList (fun _ => FlagSet.mem_toList),
    ncard_eq_length (nodup_distinct a.outputKinds) (fun _ => mem_distinct),
    ncard_eq_length a.launchModes.nodup_toList (fun _ => FlagSet.mem_toList),
    ncard_eq_length (nodup_distinct a.buildSystems) (fun _ => mem_distinct)]
  simp [combinations, List.length_flatMap, Nat.mul_assoc]

/-- Axes expand exactly if they are valid, to the combinations of their values. -/
theorem expand_eq_ok_iff {a : TargetAxes} {ts : List Target} :
    a.expand = .ok ts ↔ a.validate = .ok () ∧ ts = a.combinations := by
  constructor
  · intro h
    obtain ⟨hvalid, h⟩ := check_bind_eq_ok_iff.mp h
    exact ⟨hvalid, (Except.ok.inj h).symm⟩
  · rintro ⟨hvalid, rfl⟩
    exact expand_eq_ok hvalid

/-- Axes that are not valid are refused with the error that the check gives. -/
theorem expand_eq_error_iff {a : TargetAxes} {e : BuildError} : a.expand = .error e ↔ a.validate = .error e := by
  unfold expand
  rw [bind_eq_error_iff]
  constructor
  · rintro (h | ⟨_, -, h⟩)
    · exact h
    · cases h
  · exact Or.inl

end TargetAxes

/-- What axes expand to, whatever values are given more than once. They expand exactly if they are valid, and are refused
with the error of the check otherwise. The expansion holds no target twice and exactly the targets that the axes contain, as
many as there are combinations of distinct values. They stand in lexicographic order: by where the value comes first in the
list of an axis, or by bit order for the flags, from the platform on to the build system. -/
theorem expansion_exact (a : TargetAxes) :
    ((∃ ts, a.expand = .ok ts) ↔ a.validate = .ok ()) ∧ (∀ e, a.expand = .error e ↔ a.validate = .error e) ∧
      ∀ ts, a.expand = .ok ts →
        (ts.Nodup ∧ ∀ t, t ∈ ts ↔ a.contains t = true) ∧
        ts.length = {p | p ∈ a.platforms}.ncard * {e | e ∈ a.devEnvs}.ncard *
          {o | a.optimizations.contains o = true}.ncard * {k | k ∈ a.outputKinds}.ncard *
          {m | a.launchModes.contains m = true}.ncard * {b | b ∈ a.buildSystems}.ncard ∧
        ts.Pairwise (fun s t => a.place s < a.place t) := by
  refine ⟨?_, fun e => TargetAxes.expand_eq_error_iff, ?_⟩
  · constructor
    · rintro ⟨ts, hts⟩
      exact (TargetAxes.expand_eq_ok_iff.mp hts).1
    · intro hvalid
      exact ⟨_, TargetAxes.expand_eq_ok hvalid⟩
  · intro ts hts
    obtain ⟨-, rfl⟩ := TargetAxes.expand_eq_ok_iff.mp hts
    exact ⟨⟨a.nodup_combinations, fun t => TargetAxes.mem_combinations⟩, a.length_combinations, a.pairwise_combinations⟩

/-- Axes that give a platform and an output kind twice. -/
def crossAxes : TargetAxes where
  platforms := [.linux, .custom "console", .linux]
  devEnvs := [.make]
  outputKinds := [.exe, .lib, .exe]
  launchModes := FlagSet.ofList [.server, .client]
  buildSystems := [.ninja]

/-- A value that is given twice is taken once, so there are sixteen targets: for two platforms, two optimizations, two output
kinds and two launch modes. -/
theorem expansion_exact_cross :
    ∃ ts, crossAxes.expand = .ok ts ∧ ts.Nodup ∧ ts.length = 16 ∧ (∀ t, t ∈ ts ↔ crossAxes.contains t = true) ∧
      ts.Pairwise (fun s t => crossAxes.place s < crossAxes.place t) := by
  obtain ⟨hok, -, hexact⟩ := expansion_exact crossAxes
  obtain ⟨ts, hts⟩ := hok.mpr rfl
  obtain ⟨⟨hnodup, hmem⟩, -, hsorted⟩ := hexact ts hts
  have hlength : ts.length = 16 := by
    obtain ⟨-, rfl⟩ := TargetAxes.expand_eq_ok_iff.mp hts
    rfl
  exact ⟨ts, hts, hnodup, hlength, hmem, hsorted⟩

end BuildPlan
