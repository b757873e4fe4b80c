import BuildPlan.Proofs.Plan.Failures
import BuildPlan.Proofs.Target.Key

/-!
# Plans for some keys

A choice of keys keeps those planned targets that have one of the keys. In a finished workspace whose axis values come from
names no two planned targets have one key (`Workspace.Finished.nodup_keysOf`), and every target has the outcome that it has
alone. So the plan for some keys is the part of the whole plan that has these keys (`Workspace.exists_plan_of_keys`).
-/

namespace BuildPlan

/-- The parts of a list commute with reading its items, if what is read tells the part that it comes from. -/
theorem filterMap_filter_of_read {α β : Type} {f : α → Option β} {p : α → Bool} {q : β → Bool} {l : List α}
    (h : ∀ a ∈ l, ∀ b, f a = some b → q b = p a) : (l.filter p).filterMap f = (l.filterMap f).filter q := by
  rw [List.filterMap_filter, List.filter_filterMap]
  refine List.filterMap_congr (fun a ha => ?_)
  cases hf : f a with
  | none => rw [ite_self]; rfl
  | some b => rw [Option.filter_some, h a ha b hf]

/-- In a list whose items have different keys, the items with the key of one item are this item. -/
theorem filter_key_eq_singleton {α : Type} (key : α → String) {l : List α} (hl : (l.map key).Nodup) {a : α} (ha : a ∈ l) :
    l.filter (fun b => key b == key a) = [a] := by
  induction l with
  | nil => exact absurd ha List.not_mem_nil
  | cons b l ih =>
    obtain ⟨hb, hl⟩ := List.nodup_cons.mp hl
    rw [List.filter_cons]
    rcases List.mem_cons.mp ha with rfl | ha
    · have hrest : l.filter (fun b => key b == key a) = [] := by
        rw [List.filter_eq_nil_iff]
        intro c hc hkey
        exact hb (beq_iff_eq.mp hkey ▸ List.mem_map_of_mem hc)
      rw [hrest, beq_self_eq_true, if_pos rfl]
    · have hne : key b ≠ key a := fun h => hb (h ▸ List.mem_map_of_mem ha)
      rw [beq_false_of_ne hne, if_neg Bool.false_ne_true, ih hl ha]

namespace Workspace

variable {w : Workspace} {config : PlanConfig} {planned : List PlannedTarget} {keys : List String} {o : PlanOutcome}

/-- The platforms and environments of all projects come from names, as they do where a manifest declares the projects
(`TargetAxes.named_ofNames`). -/
def NamedAxes (w : Workspace) : Prop := ∀ p ∈ w.projects.items, p.axes.Named

/-- The keys of some planned targets, in order. -/
def keysOf (planned : List PlannedTarget) : List String := planned.map fun x => x.target.key

/-- A key is one of a plan exactly if a planned target has it. -/
theorem mem_keysOf {key : String} : key ∈ keysOf planned ↔ planned.any (fun x => x.target.key == key) = true := by
  simp only [keysOf, List.mem_map, List.any_eq_true, beq_iff_eq]

/-- No two planned targets have one key. -/
theorem Finished.nodup_keysOf (h : w.Finished) (hnamed : w.NamedAxes) (hplanned : w.plannedTargets config = .ok planned) :
    (keysOf planned).Nodup := by
  have hkeyed : ∀ t ∈ planned.map PlannedTarget.target, t.Keyed := by
    intro t ht
    obtain ⟨x, hx, rfl⟩ := List.mem_map.mp ht
    obtain ⟨p, hp, hbuilt⟩ := h.exists_built hplanned hx
    exact Target.keyed_of_contains (h.axes p hp) (hnamed p hp) hbuilt
  have hmap : keysOf planned = (planned.map PlannedTarget.target).map Target.key := by
    rw [keysOf, List.map_map]
    rfl
  rw [hmap]
  exact List.Nodup.map_on (fun t ht u hu => (hkeyed t ht).eq_of_key (hkeyed u hu)) (nodup_plannedTargets hplanned)

/-! ### The choice of targets -/

/-- The check of some keys stops at the first of them that belongs to no planned target. -/
theorem checkKeys_eq (planned : List PlannedTarget) (keys : List String) :
    checkKeys planned keys =
      match keys.find? (fun key => decide (key ∉ keysOf planned)) with
      | none => .ok ()
      | some key => .error (.invalidAxis .target (.notPlanned key)) := by
  induction keys with
  | nil => rfl
  | cons key keys ih =>
    unfold checkKeys
    rw [List.find?_cons, ih]
    by_cases hkey : key ∈ keysOf planned
    · rw [if_pos (mem_keysOf.mp hkey), decide_eq_false (not_not_intro hkey)]
    · rw [if_neg (mt mem_keysOf.mpr hkey), decide_eq_true hkey]

/-- With keys the planned targets are picked by them, if all keys are known. -/
theorem plannedTargets_of_keys (hkeys : config.targets = []) (hplanned : w.plannedTargets config = .ok planned)
    (hne : keys ≠ []) :
    w.plannedTargets { config with targets := keys } =
      (do checkKeys planned keys
          return planned.filter fun x => keys.contains x.target.key) := by
  rw [plannedTargets_of_no_keys hkeys] at hplanned
  unfold plannedTargets
  dsimp only
  rw [hplanned, List.isEmpty_eq_false_iff.mpr hne]
  rfl

/-- With known keys the planned targets that have one of them are picked, in their order. -/
theorem plannedTargets_of_known_keys (hkeys : config.targets = []) (hplanned : w.plannedTargets config = .ok planned)
    (hne : keys ≠ []) (hknown : ∀ key ∈ keys, key ∈ keysOf planned) :
    w.plannedTargets { config with targets := keys } = .ok (planned.filter fun x => keys.contains x.target.key) := by
  have hfind : keys.find? (fun key => decide (key ∉ keysOf planned)) = none := by
    rw [List.find?_eq_none]
    exact fun key hkey hunknown => of_decide_eq_true hunknown (hknown key hkey)
  rw [plannedTargets_of_keys hkeys hplanned hne, checkKeys_eq, hfind]
  rfl

/-- A plan for some keys is refused for one of them that belongs to no planned target. -/
theorem plan_of_unknown_key (hkeys : config.targets = []) (hplanned : w.plannedTargets config = .ok planned) {key : String}
    (hkey : key ∈ keys) (hunknown : key ∉ keysOf planned) :
    ∃ first ∈ keys, first ∉ keysOf planned ∧
      w.plan { config with targets := keys } = .error (.invalidAxis .target (.notPlanned first)) := by
  cases hfind : keys.find? (fun key => decide (key ∉ keysOf planned)) with
  | none => exact absurd (decide_eq_true hunknown) (List.find?_eq_none.mp hfind key hkey)
  | some first =>
    have hfirst := List.find?_some hfind
    refine ⟨first, List.mem_of_find?_eq_some hfind, of_decide_eq_true hfirst, ?_⟩
    unfold plan
    rw [plannedTargets_of_keys hkeys hplanned (List.ne_nil_of_mem hkey), checkKeys_eq, hfind]
    rfl

/-! ### What is kept of the outcome -/

/-- A target fails on its own with the error of its resolution. -/
theorem failureAlone?_eq_some_iff {strict : Bool} {x : PlannedTarget} {f : Failure} :
    w.failureAlone? strict x = some f ↔ ∃ e, w.resolveAlone strict x = .error e ∧ f = Failure.ofError x.target e := by
  unfold failureAlone?
  cases w.resolveAlone strict x with
  | error e => simp [eq_comm]
  | ok r => simp

/-- A resolution of a planned target is one of that target. -/
theorem target_of_resolveAlone {strict : Bool} {x : PlannedTarget} {r : Resolution} (h : w.resolveAlone strict x = .ok r) :
    r.target = x.target := by
  obtain ⟨d, hr⟩ := exists_resolved (Prod.ext h rfl : w.resolve strict x.roots x.target {} = (.ok r, _))
  exact hr.target

/-- The resolutions of a plan are the outcomes of the planned targets that succeed, and its failures those of the others. -/
theorem mem_outcome_iff (hplanned : w.plannedTargets config = .ok planned) (ho : w.plan config = .ok o) :
    (∀ r, r ∈ o.resolutions ↔ ∃ x ∈ planned, w.resolveAlone config.strict x = .ok r) ∧
      ∀ f, f ∈ o.failures ↔ ∃ x ∈ planned, ∃ e, w.resolveAlone config.strict x = .error e ∧ f = Failure.ofError x.target e := by
  obtain ⟨_, hwhole, hresolutions, hfailures⟩ := exists_outcome hplanned
  obtain rfl := Except.ok.inj (ho.symm.trans hwhole)
  simp only [hresolutions, hfailures, List.mem_filterMap, toOption_eq_some_iff, failureAlone?_eq_some_iff, implies_true,
    and_self]

/-- A plan for some keys that all belong to planned targets is the part of the whole plan that has these keys. -/
theorem exists_plan_of_keys (hkeys : config.targets = []) (hplanned : w.plannedTargets config = .ok planned)
    (ho : w.plan config = .ok o) (hne : keys ≠ []) (hknown : ∀ key ∈ keys, key ∈ keysOf planned) :
    ∃ o', w.plan { config with targets := keys } = .ok o' ∧
      o'.resolutions = o.resolutions.filter (fun r => keys.contains r.target.key) ∧
      o'.failures = o.failures.filter (fun f => keys.contains f.target) := by
  obtain ⟨_, hwhole, hresolutions, hfailures⟩ := exists_outcome hplanned
  obtain rfl := Except.ok.inj (ho.symm.trans hwhole)
  obtain ⟨o', ho', hresolutions', hfailures'⟩ :=
    exists_outcome (plannedTargets_of_known_keys hkeys hplanned hne hknown)
  refine ⟨o', ho', ?_, ?_⟩
  · rw [hresolutions', hresolutions]
    refine filterMap_filter_of_read (fun x _ r hr => ?_)
    rw [target_of_resolveAlone (toOption_eq_some_iff.mp hr)]
  · rw [hfailures', hfailures]
    refine filterMap_filter_of_read (fun x _ f hf => ?_)
    obtain ⟨e, -, rfl⟩ := failureAlone?_eq_some_iff.mp hf
    rfl

/-- Planning for some keys works out exactly if all of them belong to planned targets. -/
theorem exists_plan_of_keys_iff (hkeys : config.targets = []) (hplanned : w.plannedTargets config = .ok planned) :
    (∃ o, w.plan { config with targets := keys } = .ok o) ↔ ∀ key ∈ keys, key ∈ keysOf planned := by
  constructor
  · rintro ⟨o, ho⟩ key hkey
    by_contra hunknown
    obtain ⟨first, -, -, herror⟩ := plan_of_unknown_key hkeys hplanned hkey hunknown
    rw [herror] at ho
    cases ho
  · intro hknown
    obtain ⟨o, ho, -⟩ := exists_outcome hplanned
    cases keys with
    | nil => exact ⟨o, by rw [← hkeys]; exact ho⟩
    | cons key keys =>
      obtain ⟨o', ho', -⟩ := exists_plan_of_keys hkeys hplanned ho (List.cons_ne_nil key keys) hknown
      exact ⟨o', ho'⟩

/-- What planning for some keys is refused for is a key that belongs to no planned target. -/
theorem plan_of_keys_invalidAxis_iff (hkeys : config.targets = []) (hplanned : w.plannedTargets config = .ok planned) :
    (∃ axis fault, w.plan { config with targets := keys } = .error (.invalidAxis axis fault)) ↔
      ∃ key ∈ keys, key ∉ keysOf planned := by
  constructor
  · rintro ⟨axis, fault, herror⟩
    by_contra hknown
    push Not at hknown
    obtain ⟨o, ho⟩ := (exists_plan_of_keys_iff hkeys hplanned).mpr hknown
    rw [herror] at ho
    cases ho
  · rintro ⟨key, hkey, hunknown⟩
    obtain ⟨first, -, -, herror⟩ := plan_of_unknown_key hkeys hplanned hkey hunknown
    exact ⟨_, _, herror⟩

/-- The plan for the key of one target holds what becomes of this target alone, and nothing else. -/
theorem exists_plan_of_key (hkeys : config.targets = []) (hplanned : w.plannedTargets config = .ok planned)
    (hnodup : (keysOf planned).Nodup) {x : PlannedTarget} (hx : x ∈ planned) :
    ∃ o, w.plan { config with targets := [x.target.key] } = .ok o ∧
      (∀ r, w.resolveAlone config.strict x = .ok r → o.resolutions = [r] ∧ o.failures = []) ∧
      ∀ e, w.resolveAlone config.strict x = .error e → o.failures = [Failure.ofError x.target e] := by
  have hknown : ∀ key ∈ [x.target.key], key ∈ keysOf planned :=
    fun key hkey => List.mem_singleton.mp hkey ▸ List.mem_map_of_mem hx
  have hchosen : planned.filter (fun y => [x.target.key].contains y.target.key) = [x] := by
    rw [← filter_key_eq_singleton (fun y : PlannedTarget => y.target.key) hnodup hx]
    refine List.filter_congr (fun y _ => ?_)
    rw [List.contains_cons, List.contains_nil, Bool.or_false]
  have hone := plannedTargets_of_known_keys hkeys hplanned (List.cons_ne_nil _ _) hknown
  rw [hchosen] at hone
  obtain ⟨o, ho, hresolutions, hfailures⟩ := exists_outcome hone
  rw [List.filterMap_cons] at hresolutions hfailures
  refine ⟨o, ho, fun r hr => ⟨?_, ?_⟩, fun e he => ?_⟩
  · rw [hresolutions, hr]
    rfl
  · rw [hfailures, failureAlone?, hr]
    rfl
  · rw [hfailures, failureAlone?, he]
    rfl

end Workspace

end BuildPlan
