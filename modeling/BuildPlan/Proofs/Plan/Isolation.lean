import BuildPlan.Proofs.Axes
import BuildPlan.Proofs.Resolution.Independence
import BuildPlan.Proofs.Resolution.Publication
import BuildPlan.Proofs.Store
import Mathlib.Algebra.GroupWithZero.Nat

/-!
# The targets of a plan are isolated

All targets of a plan share one store. The targets are pairwise different (`Workspace.nodup_plannedTargets`), a resolution
reads and writes entries of its own target only, and one that fails writes nothing. So every target has the outcome that it
would have alone (`Workspace.resolveAll_eq_map`), whatever becomes of the other ones, and leaves the descriptors that it
would leave alone (`Workspace.get?_storeAfter`).
-/

namespace BuildPlan

namespace Workspace

variable {w : Workspace} {strict : Bool} {roots : List String} {t : Target} {planned : List PlannedTarget}

/-! ### The planned targets -/

theorem map_target_workspaceTargets {ts : List Target} (h : w.workspaceTargets ts = .ok planned) :
    planned.map PlannedTarget.target = ts := by
  induction ts generalizing planned with
  | nil =>
    cases h
    rfl
  | cons t ts ih =>
    unfold workspaceTargets at h
    obtain ⟨roots, -, h⟩ := bind_eq_ok_iff.mp h
    obtain ⟨more, hmore, h⟩ := bind_eq_ok_iff.mp h
    cases h
    rw [List.map_cons, ih hmore]

/-- A solution is planned for some of the targets it asks for, in their order. -/
theorem map_target_solutionTargets_sublist {s : Solution} {ts : List Target} (h : w.solutionTargets s ts = .ok planned) :
    (planned.map PlannedTarget.target).Sublist ts := by
  induction ts generalizing planned with
  | nil =>
    cases h
    exact List.Sublist.refl _
  | cons t ts ih =>
    unfold solutionTargets at h
    obtain ⟨roots, -, h⟩ := bind_eq_ok_iff.mp h
    obtain ⟨more, hmore, h⟩ := bind_eq_ok_iff.mp h
    cases h
    split
    · exact (ih hmore).cons t
    · exact (ih hmore).cons_cons t

/-- No target is planned twice. -/
theorem nodup_plannedTargets {config : PlanConfig} (h : w.plannedTargets config = .ok planned) :
    (planned.map PlannedTarget.target).Nodup := by
  unfold plannedTargets at h
  obtain ⟨all, hall, h⟩ := bind_eq_ok_iff.mp h
  have hnodup : (all.map PlannedTarget.target).Nodup := by
    unfold allPlanned at hall
    split at hall
    · obtain ⟨ts, hts, hall⟩ := bind_eq_ok_iff.mp hall
      obtain ⟨lists, -, hts⟩ := bind_eq_ok_iff.mp hts
      cases hts
      rw [map_target_workspaceTargets hall]
      exact nodup_distinct _
    · split at hall
      · cases hall
      · obtain ⟨ts, hts, hall⟩ := bind_eq_ok_iff.mp hall
        obtain ⟨_, -, hts⟩ := bind_eq_ok_iff.mp hts
        cases hts
        exact (TargetAxes.nodup_combinations _).sublist (map_target_solutionTargets_sublist hall)
  split at h
  · cases h
    exact hnodup
  · obtain ⟨_, -, h⟩ := bind_eq_ok_iff.mp h
    cases h
    exact hnodup.sublist (List.filter_sublist.map _)

/-! ### One target -/

/-- The outcome for a target does not depend on what a store holds of other targets. -/
theorem resolve_fst_eq {store store' : DescriptorStore} (hstore : ∀ x, store.get? x t = none)
    (hstore' : ∀ x, store'.get? x t = none) :
    (w.resolve strict roots t store).1 = (w.resolve strict roots t store').1 := by
  cases hs : w.schedule strict roots t with
  | error e => rw [resolve_of_schedule_eq_error hs, resolve_of_schedule_eq_error hs]
  | ok s =>
    obtain ⟨r, after, hrun⟩ := exists_run_of_schedule hstore hs
    obtain ⟨r', after', hrun'⟩ := exists_run_of_schedule hstore' hs
    have hr := resolved_of_run hs hrun
    have hr' := resolved_of_run hs hrun'
    have horder : r.order = r'.order := (order_of_run hrun).trans (order_of_run hrun').symm
    have hdescriptors : r.descriptors = r'.descriptors := by
      calc r.descriptors
          = r.order.filterMap (fun x => after.get? x t) := by
            rw [← hr.map_project_descriptors, DescriptorStore.filterMap_get? (fun e he => (hr.of_mem_descriptors he).2.1)]
        _ = r'.order.filterMap (fun x => after'.get? x t) := by
            rw [← horder]
            exact List.filterMap_congr (fun x hx => hr.get?_eq hr' x hx (horder ▸ hx))
        _ = r'.descriptors := by
            rw [← hr'.map_project_descriptors, DescriptorStore.filterMap_get? (fun e he => (hr'.of_mem_descriptors he).2.1)]
    obtain ⟨-, ds, -, rfl⟩ := Schedule.run_eq_ok_iff.mp hrun
    obtain ⟨-, ds', -, rfl⟩ := Schedule.run_eq_ok_iff.mp hrun'
    dsimp only at hdescriptors
    rw [resolve_eq_ok_iff.mpr ⟨s, hs, hrun⟩, resolve_eq_ok_iff.mpr ⟨s, hs, hrun'⟩, hdescriptors]

/-- A resolution leaves the entries of other targets as they are, whether it succeeds or not. -/
theorem get?_resolve_of_ne {store : DescriptorStore} (hstore : ∀ x, store.get? x t = none) {u : Target} (hu : u ≠ t)
    (x : String) : (w.resolve strict roots t store).2.get? x u = store.get? x u := by
  obtain ⟨e, h⟩ | ⟨r, after, h⟩ := resolve_cases w strict roots hstore
  · rw [h]
  · rw [h]
    exact (get?_of_resolve hstore h x u).trans (if_neg hu)

/-- What a resolution leaves for its own target are the descriptors that it gives back. -/
theorem get?_resolve_self {store : DescriptorStore} (hstore : ∀ x, store.get? x t = none) (x : String) :
    (w.resolve strict roots t store).2.get? x t =
      (w.resolve strict roots t {}).1.toOption.bind (fun r => r.descriptors.find? (fun e => e.project == x)) := by
  rw [← resolve_fst_eq hstore (fun x => DescriptorStore.get?_empty x t)]
  obtain ⟨e, h⟩ | ⟨r, after, h⟩ := resolve_cases w strict roots hstore
  · rw [h]
    exact hstore x
  · rw [h]
    exact (get?_of_resolve hstore h x t).trans (if_pos rfl)

/-- A resolution writes no key twice and none that is there. -/
theorem nodup_keys_resolve {store : DescriptorStore} (hstore : ∀ x, store.get? x t = none) (hkeys : store.keys.Nodup) :
    (w.resolve strict roots t store).2.keys.Nodup := by
  obtain ⟨e, h⟩ | ⟨r, after, h⟩ := resolve_cases w strict roots hstore
  · rw [h]
    exact hkeys
  · obtain ⟨d, hr⟩ := exists_resolved h
    obtain ⟨ds, hperm, hent⟩ := entries_of_resolve h
    have hafter : after.keys = (ds.map Descriptor.project).map (fun x => (x, t)) ++ store.keys := by
      rw [DescriptorStore.keys, hent, List.map_append, List.map_map, List.map_map]
      rfl
    have hds : (ds.map Descriptor.project).Nodup := (hperm.map _).nodup_iff.mpr hr.nodup_descriptors
    rw [h, hafter, List.nodup_append]
    refine ⟨hds.map (fun _ _ heq => (Prod.mk.inj heq).1), hkeys, ?_⟩
    rintro key hkey _ hold rfl
    obtain ⟨x, -, rfl⟩ := List.mem_map.mp hkey
    exact DescriptorStore.get?_eq_none_iff.mp (hstore x) hold

/-! ### All targets -/

/-- The outcome of a planned target on a store of its own. -/
def resolveAlone (w : Workspace) (strict : Bool) (p : PlannedTarget) : Except BuildError Resolution :=
  (w.resolve strict p.roots p.target {}).1

/-- A store without descriptors of some different targets has still none of the later ones once the first is resolved. -/
theorem get?_resolve_of_later (w : Workspace) (strict : Bool) {store : DescriptorStore} {p : PlannedTarget}
    (hnodup : ((p :: planned).map PlannedTarget.target).Nodup)
    (hstore : ∀ q ∈ p :: planned, ∀ x, store.get? x q.target = none) :
    ∀ q ∈ planned, ∀ x, (w.resolve strict p.roots p.target store).2.get? x q.target = none := by
  intro q hq x
  rw [List.map_cons, List.nodup_cons] at hnodup
  have hne : q.target ≠ p.target := fun h => hnodup.1 (h ▸ List.mem_map.mpr ⟨q, hq, rfl⟩)
  rw [get?_resolve_of_ne (hstore p List.mem_cons_self) hne]
  exact hstore q (List.mem_cons_of_mem _ hq) x

/-- Different targets that are resolved one after the other on one store have the outcomes that they have alone. -/
theorem resolveAll_eq_map {store : DescriptorStore} (hnodup : (planned.map PlannedTarget.target).Nodup)
    (hstore : ∀ p ∈ planned, ∀ x, store.get? x p.target = none) :
    w.resolveAll strict store planned = planned.map (fun p => (p.target, w.resolveAlone strict p)) := by
  induction planned generalizing store with
  | nil => rfl
  | cons p planned ih =>
    have hfirst := hstore p List.mem_cons_self
    have hempty := fun x => DescriptorStore.get?_empty x p.target
    calc w.resolveAll strict store (p :: planned)
        = (p.target, (w.resolve strict p.roots p.target store).1) ::
            w.resolveAll strict (w.resolve strict p.roots p.target store).2 planned := rfl
      _ = (p.target, w.resolveAlone strict p) :: planned.map (fun q => (q.target, w.resolveAlone strict q)) := by
        rw [ih (List.nodup_cons.mp hnodup).2 (get?_resolve_of_later w strict hnodup hstore), resolve_fst_eq hfirst hempty]
        rfl

/-! ### The store at the end -/

/-- The store that some targets leave when they are resolved one after the other. -/
def storeAfter (w : Workspace) (strict : Bool) (store : DescriptorStore) (planned : List PlannedTarget) : DescriptorStore :=
  planned.foldl (fun store p => (w.resolve strict p.roots p.target store).2) store

/-- Targets that are not resolved keep what the store holds of them. -/
theorem get?_storeAfter_of_not_mem {store : DescriptorStore} (hnodup : (planned.map PlannedTarget.target).Nodup)
    (hstore : ∀ p ∈ planned, ∀ x, store.get? x p.target = none) {u : Target} (hu : u ∉ planned.map PlannedTarget.target)
    (x : String) : (w.storeAfter strict store planned).get? x u = store.get? x u := by
  induction planned generalizing store with
  | nil => rfl
  | cons p planned ih =>
    rw [List.map_cons, List.mem_cons, not_or] at hu
    have hrest := ih (List.nodup_cons.mp hnodup).2 (get?_resolve_of_later w strict hnodup hstore) hu.2
    exact hrest.trans (get?_resolve_of_ne (hstore p List.mem_cons_self) hu.1 x)

/-- Every target leaves the descriptors that it gives back alone. -/
theorem get?_storeAfter {store : DescriptorStore} (hnodup : (planned.map PlannedTarget.target).Nodup)
    (hstore : ∀ p ∈ planned, ∀ x, store.get? x p.target = none) {p : PlannedTarget} (hp : p ∈ planned) (x : String) :
    (w.storeAfter strict store planned).get? x p.target =
      (w.resolveAlone strict p).toOption.bind (fun r => r.descriptors.find? (fun e => e.project == x)) := by
  induction planned generalizing store with
  | nil => exact absurd hp List.not_mem_nil
  | cons q planned ih =>
    have hlater := get?_resolve_of_later w strict hnodup hstore
    obtain ⟨hq, hrest⟩ := List.nodup_cons.mp hnodup
    rcases List.mem_cons.mp hp with rfl | hp
    · exact (get?_storeAfter_of_not_mem hrest hlater hq x).trans (get?_resolve_self (hstore p List.mem_cons_self) x)
    · exact ih hrest hlater hp

/-- A target with a schedule leaves what its own run leaves on an empty store. -/
theorem get?_storeAfter_of_run (hnodup : (planned.map PlannedTarget.target).Nodup) {p : PlannedTarget} (hp : p ∈ planned)
    {s : Schedule} (hs : w.schedule strict p.roots p.target = .ok s) {r : Resolution} {alone : DescriptorStore}
    (hrun : s.run {} = (.ok r, alone)) (x : String) :
    (w.storeAfter strict {} planned).get? x p.target = alone.get? x p.target := by
  have hresolve := resolve_eq_ok_iff.mpr ⟨s, hs, hrun⟩
  rw [get?_storeAfter hnodup (fun _ _ _ => rfl) hp, resolveAlone, hresolve, get?_of_resolve (fun _ => rfl) hresolve,
    if_pos rfl]
  rfl

/-- No target writes what another one has written. -/
theorem nodup_keys_storeAfter {store : DescriptorStore} (hnodup : (planned.map PlannedTarget.target).Nodup)
    (hstore : ∀ p ∈ planned, ∀ x, store.get? x p.target = none) (h : store.keys.Nodup) :
    (w.storeAfter strict store planned).keys.Nodup := by
  induction planned generalizing store with
  | nil => exact h
  | cons p planned ih =>
    exact ih (List.nodup_cons.mp hnodup).2 (get?_resolve_of_later w strict hnodup hstore)
      (nodup_keys_resolve (hstore p List.mem_cons_self) h)

/-! ### The outcome of a plan -/

/-- The failure that is reported for a planned target if it fails alone. -/
def failureAlone? (w : Workspace) (strict : Bool) (p : PlannedTarget) : Option Failure :=
  match w.resolveAlone strict p with
  | .ok _ => none
  | .error e => some (Failure.ofError p.target e)

theorem succeeded_map_resolveAlone (w : Workspace) (strict : Bool) (planned : List PlannedTarget) :
    succeeded (planned.map (fun p => (p.target, w.resolveAlone strict p))) =
      planned.filterMap (fun p => (w.resolveAlone strict p).toOption) := by
  rw [succeeded, List.filterMap_map]
  refine List.filterMap_congr (fun p _ => ?_)
  rw [Function.comp_apply]
  cases w.resolveAlone strict p <;> rfl

theorem failed_map_resolveAlone (w : Workspace) (strict : Bool) (planned : List PlannedTarget) :
    failed (planned.map (fun p => (p.target, w.resolveAlone strict p))) = planned.filterMap (w.failureAlone? strict) := by
  rw [failed, List.filterMap_map]
  refine List.filterMap_congr (fun p _ => ?_)
  rw [Function.comp_apply, failureAlone?]
  cases w.resolveAlone strict p <;> rfl

/-- Every result is a success or a failure. -/
theorem length_succeeded_add_length_failed (results : List (Target × Except BuildError Resolution)) :
    (succeeded results).length + (failed results).length = results.length := by
  induction results with
  | nil => rfl
  | cons result results ih =>
    obtain ⟨t, e | r⟩ := result
    · exact congrArg Nat.succ ih
    · exact (Nat.succ_add _ _).trans (congrArg Nat.succ ih)

end Workspace

/-- A plan is what its targets are alone. They are pairwise different, and each has the outcome of resolving it on an empty
store, although all of them share one. The resolutions are those of the targets that succeed and the failures are one for
each target that fails, both in the order of the targets. Every target is counted once, and the descriptors and waves are
counted over the targets that succeed. -/
theorem plan_isolated (w : Workspace) (config : PlanConfig) {planned : List PlannedTarget}
    (h : w.plannedTargets config = .ok planned) :
    (planned.map PlannedTarget.target).Nodup ∧
    w.resolveAll config.strict {} planned = planned.map (fun p => (p.target, w.resolveAlone config.strict p)) ∧
    ∃ o, w.plan config = .ok o ∧
      o.resolutions = planned.filterMap (fun p => (w.resolveAlone config.strict p).toOption) ∧
      o.failures = planned.filterMap (w.failureAlone? config.strict) ∧
      o.stats.total = planned.length ∧ o.stats.planned + o.stats.failed = planned.length ∧
      o.stats.planned = o.resolutions.length ∧ o.stats.failed = o.failures.length ∧
      o.stats.descriptors = (o.resolutions.map (fun r => r.descriptors.length)).sum ∧
      o.stats.waves = (o.resolutions.map Resolution.waves).sum := by
  have hnodup := Workspace.nodup_plannedTargets h
  have hall : w.resolveAll config.strict {} planned = planned.map (fun p => (p.target, w.resolveAlone config.strict p)) :=
    Workspace.resolveAll_eq_map hnodup (fun _ _ _ => rfl)
  refine ⟨hnodup, hall, ?_⟩
  have hcount := Workspace.length_succeeded_add_length_failed (w.resolveAll config.strict {} planned)
  rw [hall, List.length_map] at hcount
  unfold Workspace.plan
  rw [h]
  refine ⟨_, rfl, ?_, ?_, rfl, ?_, rfl, rfl, List.length_flatMap, List.sum_eq_foldl.symm⟩
  · dsimp only
    rw [hall, Workspace.succeeded_map_resolveAlone]
  · dsimp only
    rw [hall, Workspace.failed_map_resolveAlone]
  · dsimp only
    rw [hall, hcount]

/-- The plan of the three projects holds the resolution that their first target has alone. -/
theorem plan_isolated_threeProjects :
    ∃ planned o r, Workspace.threeProjects.plannedTargets {} = .ok planned ∧ Workspace.threeProjects.plan {} = .ok o ∧
      (Workspace.threeProjects.resolve false ["App", "Lib", "Core"] {} {}).1 = .ok r ∧ r ∈ o.resolutions ∧
      o.stats.planned + o.stats.failed = planned.length := by
  obtain ⟨r, store, hr⟩ :=
    Workspace.threeProjects_resolved false (by decide : ∀ x ∈ ["App", "Lib", "Core"], x ∈ ["Core", "Lib", "App"])
  obtain ⟨rest, hplanned⟩ : ∃ rest,
      Workspace.threeProjects.plannedTargets {} = .ok (⟨{}, ["App", "Lib", "Core"]⟩ :: rest) := ⟨_, rfl⟩
  obtain ⟨-, -, o, ho, hres, -, -, hcount, -⟩ := plan_isolated Workspace.threeProjects {} hplanned
  have halone : Workspace.threeProjects.resolveAlone false ⟨{}, ["App", "Lib", "Core"]⟩ = .ok r := congrArg Prod.fst hr
  have hmem : r ∈ o.resolutions := by
    rw [hres]
    exact List.mem_filterMap.mpr ⟨_, List.mem_cons_self, congrArg Except.toOption halone⟩
  exact ⟨_, o, r, hplanned, ho, congrArg Prod.fst hr, hmem, hcount⟩

end BuildPlan
