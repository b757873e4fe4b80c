import BuildPlan.Proofs.Plan.Isolation
import BuildPlan.Proofs.Resolution.Visibility

/-!
# Interleaved runs of a plan

A plan is run as a set of tasks, one for each project that a target needs. A task reads the store and publishes one
descriptor. The tasks of a wave run in any order once all earlier waves of their target are done, and tasks of different
targets come in any order. Every descriptor that such a run publishes is the one that the targets give one after the other
(`Sound`, kept by every step). So no task fails, and a run that has come to its end has the store and the resolutions of the
sequential run (`interleaving_irrelevant`).
-/

namespace BuildPlan

open Relation

/-! ### What is read from a store -/

/-- A descriptor is made from what the store holds of the public dependencies. -/
theorem Discovery.describe_congr {d : Discovery} {order : List String} {store store' : DescriptorStore} {x : String}
    (h : ∀ b, d.graph.PublicEdge x b → store.get? b d.graph.target = store'.get? b d.graph.target) :
    d.describe order store x = d.describe order store' x := by
  unfold describe
  cases hn : d.graph.node? x with
  | none => rfl
  | some n =>
    have hinherit : d.inheritance store x n.dependencies.items = d.inheritance store' x n.dependencies.items := by
      refine inheritance_congr ?_
      rintro ⟨b, v⟩ hb
      unfold inheritedFrom
      cases v with
      | pub => rw [h b ((TargetGraph.visibility?_eq_some_iff hn).mpr hb)]
      | priv => rfl
    cases d.locals.lookup x with
    | none => rfl
    | some settings =>
      dsimp only
      rw [hinherit]

/-- What is collected of some names depends on what the stores have of these names only. -/
theorem Schedule.collect_congr {store store' : DescriptorStore} {t : Target} {names : List String}
    (h : ∀ x ∈ names, store.get? x t = store'.get? x t) : collect store t names = collect store' t names := by
  induction names with
  | nil => rfl
  | cons x names ih =>
    unfold collect
    rw [h x List.mem_cons_self, ih (fun y hy => h y (List.mem_cons_of_mem _ hy))]

/-! ### Tasks -/

/-- How far a run has come: the store, and the tasks that have run, latest first, each with its error if it had one. -/
structure Progress where
  store : DescriptorStore := {}
  log : List ((String × Target) × Option BuildError) := []

/-- The progress after one more task. It publishes a descriptor, or fails and leaves the store as it is. -/
def Progress.assemble (g : Progress) (s : Schedule) (x : String) : Progress :=
  match s.discovery.assemble s.order g.store x with
  | .ok store => ⟨store, ((x, s.discovery.graph.target), none) :: g.log⟩
  | .error e => ⟨g.store, ((x, s.discovery.graph.target), some e) :: g.log⟩

/-- A task adds one entry to the log. -/
theorem Progress.length_log_assemble (g : Progress) (s : Schedule) (x : String) :
    (g.assemble s x).log.length = g.log.length + 1 := by
  unfold assemble
  split <;> rfl

/-- What a target gives back when its waves are done. -/
def Schedule.readBack (s : Schedule) (store : DescriptorStore) : Except BuildError Resolution :=
  (collect store s.discovery.graph.target s.order).map fun descriptors =>
    { target := s.discovery.graph.target
      graph := s.discovery.graph
      order := s.order
      waves := s.waves.length
      descriptors }

/-- Where some waves hold a name with a property, one of them is the first to do so. -/
theorem exists_first_wave {waves : List (List String)} {P : String → Prop} (h : ∃ x ∈ waves.flatten, P x) :
    ∃ earlier wave later, waves = earlier ++ wave :: later ∧ (∃ x ∈ wave, P x) ∧ ∀ y ∈ earlier.flatten, ¬P y := by
  induction waves with
  | nil =>
    obtain ⟨x, hx, -⟩ := h
    exact absurd hx List.not_mem_nil
  | cons wave waves ih =>
    by_cases hw : ∃ x ∈ wave, P x
    · exact ⟨[], wave, waves, rfl, hw, fun y hy => absurd hy List.not_mem_nil⟩
    · obtain ⟨x, hx, hPx⟩ := h
      have hlater : ∃ x ∈ waves.flatten, P x := by
        rw [List.flatten_cons, List.mem_append] at hx
        exact ⟨x, hx.resolve_left (fun hxw => hw ⟨x, hxw, hPx⟩), hPx⟩
      obtain ⟨earlier, wave', later, rfl, hfirst, hnone⟩ := ih hlater
      refine ⟨wave :: earlier, wave', later, rfl, hfirst, fun y hy hPy => ?_⟩
      rw [List.flatten_cons, List.mem_append] at hy
      rcases hy with hy | hy
      · exact hw ⟨y, hy, hPy⟩
      · exact hnone y hy hPy

namespace Workspace

/-- The tasks of some planned targets: the projects in the waves of each, with the target. -/
def tasks (w : Workspace) (strict : Bool) (planned : List PlannedTarget) : List (String × Target) :=
  planned.flatMap fun p =>
    match w.schedule strict p.roots p.target with
    | .error _ => []
    | .ok s => s.waves.flatten.map (fun x => (x, p.target))

/-- What a planned target gives back when all its tasks have run. -/
def readBack (w : Workspace) (strict : Bool) (store : DescriptorStore) (p : PlannedTarget) : Except BuildError Resolution :=
  match w.schedule strict p.roots p.target with
  | .error e => .error e
  | .ok s => s.readBack store

/-- A task may run: it has not run yet, and the tasks of all earlier waves of its target are done without an error. -/
structure MayRun (w : Workspace) (strict : Bool) (planned : List PlannedTarget) (g : Progress) (p : PlannedTarget)
    (s : Schedule) (x : String) : Prop where
  isPlanned : p ∈ planned
  scheduled : w.schedule strict p.roots p.target = .ok s
  fresh : (x, p.target) ∉ g.log.map Prod.fst
  ready : ∃ earlier wave later, s.waves = earlier ++ wave :: later ∧ x ∈ wave ∧
    ∀ y ∈ earlier.flatten, ((y, p.target), none) ∈ g.log

/-- One step of a run: some task that may run does. -/
inductive Step (w : Workspace) (strict : Bool) (planned : List PlannedTarget) : Progress → Progress → Prop
  | run {g : Progress} {p : PlannedTarget} {s : Schedule} {x : String} (h : w.MayRun strict planned g p s x) :
      Step w strict planned g (g.assemble s x)

/-- What holds at every point of a run. No task has failed, every task that has run is one of the plan, has run once and
has published one descriptor, and the descriptors are those that the sequential run leaves. -/
structure Sound (w : Workspace) (strict : Bool) (planned : List PlannedTarget) (g : Progress) : Prop where
  noError : ∀ entry ∈ g.log, entry.2 = none
  published : g.store.keys = g.log.map Prod.fst
  once : g.store.keys.Nodup
  isTask : ∀ key ∈ g.store.keys, key ∈ w.tasks strict planned
  isFinal : ∀ x t e, g.store.get? x t = some e → (w.storeAfter strict {} planned).get? x t = some e

variable {w : Workspace} {strict : Bool} {planned : List PlannedTarget} {g g' : Progress} {p : PlannedTarget} {s : Schedule}
  {x : String}

/-- The tasks are the projects in the waves of the planned targets, each with its target. -/
theorem mem_tasks_iff {key : String × Target} :
    key ∈ w.tasks strict planned ↔
      ∃ p ∈ planned, ∃ s, w.schedule strict p.roots p.target = .ok s ∧ key.1 ∈ s.waves.flatten ∧ key.2 = p.target := by
  unfold tasks
  rw [List.mem_flatMap]
  refine exists_congr (fun p => and_congr_right (fun _ => ?_))
  cases w.schedule strict p.roots p.target with
  | error e => simp
  | ok s =>
    rw [List.mem_map]
    constructor
    · rintro ⟨x, hx, rfl⟩
      exact ⟨s, rfl, hx, rfl⟩
    · rintro ⟨s', hs, hx, ht⟩
      cases hs
      exact ⟨key.1, hx, Prod.ext rfl ht.symm⟩

/-- The sequential run publishes only tasks. -/
theorem mem_tasks_of_get?_storeAfter (hnodup : (planned.map PlannedTarget.target).Nodup) {t : Target} {e : Descriptor}
    (h : (w.storeAfter strict {} planned).get? x t = some e) : (x, t) ∈ w.tasks strict planned := by
  by_cases ht : t ∈ planned.map PlannedTarget.target
  · obtain ⟨p, hp, rfl⟩ := List.mem_map.mp ht
    rw [get?_storeAfter hnodup (fun _ _ _ => rfl) hp] at h
    obtain ⟨r, hr, hfind⟩ := Option.bind_eq_some_iff.mp h
    obtain ⟨e, halone⟩ | ⟨r', store, halone⟩ :=
      resolve_cases w strict p.roots (fun x => DescriptorStore.get?_empty x p.target)
    · rw [resolveAlone, halone] at hr
      cases hr
    · rw [resolveAlone, halone] at hr
      cases hr
      obtain ⟨s, hs, hrun⟩ := resolve_eq_ok_iff.mp halone
      have hproj : e.project = x := by simpa using List.find?_some hfind
      have hx := ((resolved_of_run hs hrun).of_mem_descriptors (List.mem_of_find?_eq_some hfind)).1
      rw [hproj, order_of_run hrun] at hx
      exact mem_tasks_iff.mpr ⟨p, hp, s, hs, (flatten_waves_perm hs).mem_iff.mpr hx, rfl⟩
  · rw [get?_storeAfter_of_not_mem hnodup (fun _ _ _ => rfl) ht, DescriptorStore.get?_empty] at h
    cases h

/-! ### One step -/

namespace MayRun

/-- A task runs for the target that is planned. -/
theorem target_eq (h : w.MayRun strict planned g p s x) : s.discovery.graph.target = p.target :=
  (Discovery.discovered_of_ofRoots (schedule_eq_ok_iff.mp h.scheduled).1).target

/-- A task that may run stands in a wave. -/
theorem mem_waves (h : w.MayRun strict planned g p s x) : x ∈ s.waves.flatten := by
  obtain ⟨earlier, wave, later, hw, hx, -⟩ := h.ready
  rw [hw, List.flatten_append, List.flatten_cons, List.mem_append, List.mem_append]
  exact Or.inr (Or.inl hx)

/-- When a task may run, those of the dependencies of its project are done. -/
theorem dependency (h : w.MayRun strict planned g p s x) {b : String} (hb : s.discovery.graph.Edge x b) :
    ((b, p.target), none) ∈ g.log := by
  obtain ⟨-, -, -, -, hwaves⟩ := schedule_eq_ok_iff.mp h.scheduled
  obtain ⟨earlier, wave, later, hw, hx, hdone⟩ := h.ready
  exact hdone b (TargetGraph.earlier_of_parallelGroups hwaves hw hx hb)

end MayRun

namespace Sound

/-- Before any step a run is sound. -/
theorem initial (w : Workspace) (strict : Bool) (planned : List PlannedTarget) : w.Sound strict planned {} where
  noError := fun _ h => absurd h List.not_mem_nil
  published := rfl
  once := List.nodup_nil
  isTask := fun _ h => absurd h List.not_mem_nil
  isFinal := fun _ _ _ h => nomatch h

/-- What a task that has run has published is what the sequential run leaves. -/
theorem get?_of_mem_log (h : w.Sound strict planned g) {t : Target} {o : Option BuildError} (hx : ((x, t), o) ∈ g.log) :
    ∃ e, g.store.get? x t = some e ∧ (w.storeAfter strict {} planned).get? x t = some e := by
  have hkey : (x, t) ∈ g.store.keys := by
    rw [h.published]
    exact List.mem_map.mpr ⟨_, hx, rfl⟩
  obtain ⟨e, he⟩ := DescriptorStore.mem_keys_iff.mp hkey
  exact ⟨e, he, h.isFinal x t e he⟩

/-- A task that may run publishes the descriptor that the sequential run leaves, since it reads of the store what it reads when
the target is resolved alone. -/
theorem assemble_eq_ok (h : w.Sound strict planned g) (hnodup : (planned.map PlannedTarget.target).Nodup)
    (hrun : w.MayRun strict planned g p s x) :
    ∃ e, (w.storeAfter strict {} planned).get? x p.target = some e ∧
      s.discovery.assemble s.order g.store x = .ok ⟨((x, p.target), e) :: g.store.entries⟩ := by
  obtain ⟨r, alone, halone⟩ := exists_run_of_schedule (fun x => DescriptorStore.get?_empty x p.target) hrun.scheduled
  have hr := resolved_of_run hrun.scheduled halone
  have hfinal := get?_storeAfter_of_run hnodup hrun.isPlanned hrun.scheduled halone
  have horder := order_of_run halone
  have hx : x ∈ r.order := by
    rw [horder]
    exact (flatten_waves_perm hrun.scheduled).mem_iff.mp hrun.mem_waves
  obtain ⟨e, hget, hdesc⟩ := hr.described x hx
  refine ⟨e, (hfinal x).trans hget, Discovery.assemble_eq_ok_iff.mpr ⟨e, ?_, ?_⟩⟩
  · rw [← hdesc, horder]
    refine Discovery.describe_congr (fun b hb => ?_)
    obtain ⟨e', he', hfinal'⟩ := h.get?_of_mem_log (hrun.dependency hb.edge)
    rw [hrun.target_eq, he', ← hfinal b, hfinal']
  · rw [DescriptorStore.insert_eq_ok_iff, hr.found.project_of_describe hdesc, hrun.target_eq]
    refine ⟨DescriptorStore.get?_eq_none_iff.mpr ?_, rfl⟩
    rw [h.published]
    exact hrun.fresh

/-- A run stays sound with every step. -/
theorem step (h : w.Sound strict planned g) (hnodup : (planned.map PlannedTarget.target).Nodup)
    (hstep : w.Step strict planned g g') : w.Sound strict planned g' := by
  obtain ⟨hrun⟩ := hstep
  rename_i p s x
  obtain ⟨e, hfinal, hok⟩ := h.assemble_eq_ok hnodup hrun
  have hnew : (x, p.target) ∉ g.store.keys := h.published ▸ hrun.fresh
  have hg : g.assemble s x = ⟨⟨((x, p.target), e) :: g.store.entries⟩, ((x, p.target), none) :: g.log⟩ := by
    rw [Progress.assemble, hok, hrun.target_eq]
  rw [hg]
  refine ⟨?_, ?_, ?_, ?_, ?_⟩
  · exact List.forall_mem_cons.mpr ⟨rfl, h.noError⟩
  · exact congrArg _ h.published
  · exact List.nodup_cons.mpr ⟨hnew, h.once⟩
  · refine List.forall_mem_cons.mpr ⟨?_, h.isTask⟩
    exact mem_tasks_iff.mpr ⟨p, hrun.isPlanned, s, hrun.scheduled, hrun.mem_waves, rfl⟩
  · intro y u e' he'
    rw [DescriptorStore.get?_cons] at he'
    split at he'
    · rename_i heq
      obtain ⟨rfl, rfl⟩ := heq
      rw [hfinal, he']
    · exact h.isFinal y u e' he'

/-- A run is sound at every point. -/
theorem of_reachable (hnodup : (planned.map PlannedTarget.target).Nodup) (h : ReflTransGen (w.Step strict planned) {} g) :
    w.Sound strict planned g := by
  induction h with
  | refl => exact initial w strict planned
  | tail _ hstep ih => exact ih.step hnodup hstep

end Sound

/-! ### Whole runs -/

/-- A run has come to its end: no task may run. -/
def Ended (w : Workspace) (strict : Bool) (planned : List PlannedTarget) (g : Progress) : Prop :=
  ∀ g', ¬w.Step strict planned g g'

namespace Sound

/-- As long as some task has not run, some task may run: one in the first wave of the target with a task left. -/
theorem exists_step (h : w.Sound strict planned g) {key : String × Target} (hkey : key ∈ w.tasks strict planned)
    (hnew : key ∉ g.store.keys) : ∃ g', w.Step strict planned g g' := by
  obtain ⟨p, hp, s, hs, hx, ht⟩ := mem_tasks_iff.mp hkey
  obtain ⟨earlier, wave, later, hw, ⟨x, hxw, hleft⟩, hdone⟩ :=
    exists_first_wave (P := fun y => (y, p.target) ∉ g.store.keys) ⟨key.1, hx, ht ▸ hnew⟩
  refine ⟨_, .run ⟨hp, hs, h.published ▸ hleft, earlier, wave, later, hw, hxw, fun y hy => ?_⟩⟩
  have hmem := not_not.mp (hdone y hy)
  rw [h.published] at hmem
  obtain ⟨⟨k, o⟩, hlog, rfl⟩ := List.mem_map.mp hmem
  rw [← h.noError _ hlog]
  exact hlog

/-- At its end a run has published all tasks. -/
theorem mem_keys_iff_of_ended (h : w.Sound strict planned g) (hend : w.Ended strict planned g) {key : String × Target} :
    key ∈ g.store.keys ↔ key ∈ w.tasks strict planned := by
  refine ⟨h.isTask key, fun hkey => ?_⟩
  by_contra hnew
  obtain ⟨g', hstep⟩ := h.exists_step hkey hnew
  exact hend g' hstep

/-- A run has no more entries in its log than there are tasks. -/
theorem length_log_le (h : w.Sound strict planned g) : g.log.length ≤ (w.tasks strict planned).length := by
  have hle := (List.subperm_of_subset h.once h.isTask).length_le
  rw [h.published, List.length_map] at hle
  exact hle

/-- Every run can be carried on to its end, as each step leaves one task less. -/
theorem exists_ended (h : w.Sound strict planned g) (hnodup : (planned.map PlannedTarget.target).Nodup) :
    ∃ g', ReflTransGen (w.Step strict planned) g g' ∧ w.Ended strict planned g' := by
  induction hn : (w.tasks strict planned).length - g.log.length using Nat.strongRecOn generalizing g with
  | ind n ih =>
    by_cases hend : w.Ended strict planned g
    · exact ⟨g, ReflTransGen.refl, hend⟩
    · obtain ⟨g₁, hstep⟩ := not_forall_not.mp hend
      have h₁ := h.step hnodup hstep
      have hlength : g₁.log.length = g.log.length + 1 := by
        obtain ⟨-⟩ := hstep
        exact Progress.length_log_assemble _ _ _
      have hle := h₁.length_log_le
      obtain ⟨g', hrun, hend'⟩ := ih _ (by omega) h₁ rfl
      exact ⟨g', ReflTransGen.head hstep hrun, hend'⟩

/-- A target of which all tasks have run gives back what it gives back alone. -/
theorem readBack_eq (h : w.Sound strict planned g) (hnodup : (planned.map PlannedTarget.target).Nodup) (hp : p ∈ planned)
    (hall : ∀ x, (x, p.target) ∈ w.tasks strict planned → (x, p.target) ∈ g.store.keys) :
    w.readBack strict g.store p = w.resolveAlone strict p := by
  unfold readBack resolveAlone
  cases hs : w.schedule strict p.roots p.target with
  | error e => rw [resolve_of_schedule_eq_error hs]
  | ok s =>
    obtain ⟨r, alone, halone⟩ := exists_run_of_schedule (fun x => DescriptorStore.get?_empty x p.target) hs
    have hr := resolved_of_run hs halone
    obtain ⟨-, ds, hds, rfl⟩ := Schedule.run_eq_ok_iff.mp halone
    have hsame : ∀ x ∈ s.order, g.store.get? x s.discovery.graph.target = alone.get? x s.discovery.graph.target := by
      intro x hx
      rw [hr.found.target]
      have htask : (x, p.target) ∈ w.tasks strict planned :=
        mem_tasks_iff.mpr ⟨p, hp, s, hs, (flatten_waves_perm hs).mem_iff.mpr hx, rfl⟩
      obtain ⟨e, he⟩ := DescriptorStore.mem_keys_iff.mp (hall x htask)
      rw [he, ← get?_storeAfter_of_run hnodup hp hs halone, h.isFinal x p.target e he]
    rw [resolve_eq_ok_iff.mpr ⟨s, hs, halone⟩]
    dsimp only
    rw [Schedule.readBack, Schedule.collect_congr hsame, hds]
    rfl

/-- At its end a run has the store of the sequential run, which has a descriptor of tasks only. -/
theorem get?_eq_of_ended (h : w.Sound strict planned g) (hnodup : (planned.map PlannedTarget.target).Nodup)
    (hend : w.Ended strict planned g) (x : String) (t : Target) :
    g.store.get? x t = (w.storeAfter strict {} planned).get? x t := by
  cases hget : g.store.get? x t with
  | some e => exact (h.isFinal x t e hget).symm
  | none =>
    have hnew : (x, t) ∉ w.tasks strict planned := fun hkey =>
      DescriptorStore.get?_eq_none_iff.mp hget ((h.mem_keys_iff_of_ended hend).mpr hkey)
    rw [eq_comm, Option.eq_none_iff_forall_ne_some]
    exact fun e he => hnew (mem_tasks_of_get?_storeAfter hnodup he)

end Sound

end Workspace

/-- A plan of different targets comes to the same whatever the order of its tasks, as long as a wave of a target begins after
those before it. At every point of a run no task has failed, and each one that has run has published its one descriptor.
A task that may run finds the descriptors of all its public dependencies, which are already those of the sequential run, and
succeeds. A target of which all tasks have run gives back what it gives back alone. A run can always be carried on to its
end, and then it has the store and the results of the sequential run. -/
theorem interleaving_irrelevant (w : Workspace) (strict : Bool) {planned : List PlannedTarget}
    (hnodup : (planned.map PlannedTarget.target).Nodup) {g : Progress}
    (h : ReflTransGen (w.Step strict planned) {} g) :
    ((∀ entry ∈ g.log, entry.2 = none) ∧ g.store.keys = g.log.map Prod.fst ∧ g.store.keys.Nodup) ∧
    (∀ p s x, w.MayRun strict planned g p s x →
      (∀ b, s.discovery.graph.PublicEdge x b → ∃ e, g.store.get? b p.target = some e ∧
        (w.storeAfter strict {} planned).get? b p.target = some e) ∧
      ∃ store, s.discovery.assemble s.order g.store x = .ok store) ∧
    (∀ p ∈ planned, (∀ x, (x, p.target) ∈ w.tasks strict planned → (x, p.target) ∈ g.store.keys) →
      w.readBack strict g.store p = w.resolveAlone strict p) ∧
    (∃ g', ReflTransGen (w.Step strict planned) g g' ∧ w.Ended strict planned g') ∧
    (w.Ended strict planned g →
      (∀ key, key ∈ g.store.keys ↔ key ∈ w.tasks strict planned) ∧
      (∀ x t, g.store.get? x t = (w.storeAfter strict {} planned).get? x t) ∧
      g.store.entries.Perm (w.storeAfter strict {} planned).entries ∧
      planned.map (fun p => (p.target, w.readBack strict g.store p)) = w.resolveAll strict {} planned) := by
  have hsound := Workspace.Sound.of_reachable hnodup h
  refine ⟨⟨hsound.noError, hsound.published, hsound.once⟩, ?_, ?_, hsound.exists_ended hnodup, ?_⟩
  · intro p s x hrun
    obtain ⟨e, -, hok⟩ := hsound.assemble_eq_ok hnodup hrun
    exact ⟨fun b hb => hsound.get?_of_mem_log (hrun.dependency hb.edge), _, hok⟩
  · exact fun p hp => hsound.readBack_eq hnodup hp
  · intro hend
    have hget := hsound.get?_eq_of_ended hnodup hend
    have hkeys : ∀ key, key ∈ g.store.keys ↔ key ∈ w.tasks strict planned := fun _ => hsound.mem_keys_iff_of_ended hend
    have hfinal : (w.storeAfter strict {} planned).keys.Nodup :=
      Workspace.nodup_keys_storeAfter hnodup (fun _ _ _ => rfl) List.nodup_nil
    refine ⟨hkeys, hget, DescriptorStore.entries_perm hsound.once hfinal hget, ?_⟩
    rw [Workspace.resolveAll_eq_map hnodup (fun _ _ _ => rfl)]
    refine List.map_congr_left (fun p hp => ?_)
    rw [hsound.readBack_eq hnodup hp (fun x hx => (hkeys _).mpr hx)]

/-- The three projects on two targets: a run that has come to its end gives back what is asked for on the first target. -/
theorem interleaving_irrelevant_threeProjects :
    ∃ (planned : List PlannedTarget) (g : Progress) (r : Resolution), planned.length = 2 ∧
      (planned.map PlannedTarget.target).Nodup ∧ ReflTransGen (Workspace.threeProjects.Step true planned) {} g ∧
      Workspace.threeProjects.Ended true planned g ∧
      Workspace.threeProjects.readBack true g.store ⟨{}, ["App"]⟩ = .ok r := by
  let planned : List PlannedTarget := [⟨{}, ["App"]⟩, ⟨{ optimization := .release }, ["Lib"]⟩]
  have hnodup : (planned.map PlannedTarget.target).Nodup := by decide
  obtain ⟨-, -, -, ⟨g, hg, hend⟩, -⟩ := interleaving_irrelevant Workspace.threeProjects true hnodup ReflTransGen.refl
  obtain ⟨-, -, hread, -, hlast⟩ := interleaving_irrelevant Workspace.threeProjects true hnodup hg
  have hall := (hlast hend).1
  obtain ⟨r, store, hr⟩ := Workspace.threeProjects_resolved true (by decide : ∀ x ∈ ["App"], x ∈ ["Core", "Lib", "App"])
  have halone := hread ⟨{}, ["App"]⟩ List.mem_cons_self (fun x hx => (hall _).mpr hx)
  exact ⟨planned, g, r, rfl, hnodup, hg, hend, halone.trans (congrArg Prod.fst hr)⟩

end BuildPlan
