import BuildPlan.Proofs.Resolution.Outcome

/-!
# What a resolution leaves in the store

A resolution fails before anything is assembled or not at all, so one that fails leaves the store as it was. One that
succeeds has put the descriptors that it gives back in front of what was there (`Workspace.entries_of_resolve`), each under
its project and the target, and nothing else.
-/

namespace BuildPlan

namespace DescriptorStore

/-- The entry of a descriptor of a target. -/
def entry (t : Target) (e : Descriptor) : (String × Target) × Descriptor := ((e.project, t), e)

/-- What a store gives for a name after some descriptors of a target were put in front. -/
theorem get?_entries_append (s : DescriptorStore) (t : Target) (ds : List Descriptor) (x : String) (u : Target) :
    (⟨ds.map (entry t) ++ s.entries⟩ : DescriptorStore).get? x u =
      if u = t then (ds.find? (fun e => e.project == x)).or (s.get? x u) else s.get? x u := by
  induction ds with
  | nil => simp
  | cons e ds ih =>
    have hcons := get?_cons ⟨ds.map (entry t) ++ s.entries⟩ e.project x t u e
    rw [List.map_cons, List.cons_append, List.find?_cons]
    refine hcons.trans ?_
    by_cases hx : x = e.project
    · by_cases hu : u = t
      · simp [hx, hu]
      · rw [if_neg (fun h => hu h.2), ih, if_neg hu, if_neg hu]
    · rw [if_neg (fun h => hx h.1), ih, beq_false_of_ne (fun h => hx h.symm)]

/-- Descriptors that a store holds under their names are read back from it by these names. -/
theorem filterMap_get? {s : DescriptorStore} {t : Target} {ds : List Descriptor}
    (h : ∀ e ∈ ds, s.get? e.project t = some e) : (ds.map Descriptor.project).filterMap (fun x => s.get? x t) = ds := by
  rw [List.filterMap_map]
  exact (List.filterMap_congr h).trans List.filterMap_some

end DescriptorStore

/-- In a list of descriptors of different projects, a name finds the descriptor of this project. -/
theorem Descriptor.find?_project_eq_some_iff {ds : List Descriptor} (h : (ds.map Descriptor.project).Nodup) {x : String}
    {e : Descriptor} : ds.find? (fun d => d.project == x) = some e ↔ e ∈ ds ∧ e.project = x := by
  constructor
  · intro hfind
    exact ⟨List.mem_of_find?_eq_some hfind, by simpa using List.find?_some hfind⟩
  · rintro ⟨he, rfl⟩
    cases hfind : ds.find? (fun d => d.project == e.project) with
    | none => exact absurd (List.find?_eq_none.mp hfind e he) (by simp)
    | some d =>
      have hproj : d.project = e.project := by simpa using List.find?_some hfind
      rw [List.inj_on_of_nodup_map h (List.mem_of_find?_eq_some hfind) he hproj]

/-- Assembling some projects one after the other puts their descriptors in front of what the store held. -/
theorem Discovered.entries_of_foldlM {w : Workspace} {t : Target} {visited : String → Prop} {d : Discovery}
    (h : Discovered w t visited d) {order names : List String} {store store' : DescriptorStore}
    (hf : names.foldlM (d.assemble order) store = .ok store') :
    ∃ ds : List Descriptor, ds.map Descriptor.project = names.reverse ∧
      store'.entries = ds.map (DescriptorStore.entry t) ++ store.entries := by
  refine foldlM_invariant
    (I := fun done s => ∃ ds : List Descriptor, ds.map Descriptor.project = done.reverse ∧
      s.entries = ds.map (DescriptorStore.entry t) ++ store.entries) ?_ ⟨[], rfl, rfl⟩ hf
  rintro done x s s' ⟨ds, hproj, hent⟩ hs
  obtain ⟨e, he, hins⟩ := Discovery.assemble_eq_ok_iff.mp hs
  obtain ⟨-, rfl⟩ := DescriptorStore.insert_eq_ok_iff.mp hins
  refine ⟨e :: ds, ?_, ?_⟩
  · rw [List.map_cons, hproj, h.project_of_describe he, List.reverse_append, List.reverse_singleton, List.singleton_append]
  · rw [h.target, hent]
    rfl

/-- The descriptors of a resolution are of different projects. -/
theorem Resolved.nodup_descriptors {w : Workspace} {t : Target} {roots : List String} {d : Discovery} {r : Resolution}
    {store : DescriptorStore} (h : Resolved w t roots d r store) : (r.descriptors.map Descriptor.project).Nodup := by
  rw [h.map_project_descriptors]
  exact h.isOrder.nodup

namespace Workspace

variable {w : Workspace} {strict : Bool} {roots : List String} {t : Target} {store store' : DescriptorStore}

/-- The waves hold the projects of the order. -/
theorem flatten_waves_perm {s : Schedule} (hs : w.schedule strict roots t = .ok s) : s.waves.flatten.Perm s.order := by
  obtain ⟨-, -, -, horder, hwaves⟩ := schedule_eq_ok_iff.mp hs
  have hIs := TargetGraph.isOrder_of_topologicalOrder horder
  have hperm := TargetGraph.flatten_perm_of_parallelGroups hwaves
  refine hperm.trans ((List.perm_ext_iff_of_nodup s.discovery.graph.nodes.nodup hIs.nodup).mpr ?_)
  exact fun x => (hIs.complete x).symm

theorem order_of_run {s : Schedule} {r : Resolution} (h : s.run store = (.ok r, store')) : r.order = s.order := by
  obtain ⟨-, ds, -, rfl⟩ := Schedule.run_eq_ok_iff.mp h
  rfl

/-- A resolution that fails has no schedule, and the store stays as it is. -/
theorem resolve_eq_error (hstore : ∀ x, store.get? x t = none) {e : BuildError}
    (h : w.resolve strict roots t store = (.error e, store')) : w.schedule strict roots t = .error e ∧ store' = store := by
  cases hs : w.schedule strict roots t with
  | ok s =>
    obtain ⟨r, store₁, hr⟩ := exists_resolve_of_schedule hstore hs
    rw [hr] at h
    cases h
  | error e' =>
    rw [resolve_of_schedule_eq_error hs] at h
    cases h
    exact ⟨rfl, rfl⟩

/-- On a store without descriptors of the target, a resolution fails and leaves the store as it is, or succeeds. -/
theorem resolve_cases (w : Workspace) (strict : Bool) (roots : List String) (hstore : ∀ x, store.get? x t = none) :
    (∃ e, w.resolve strict roots t store = (.error e, store)) ∨
      ∃ r after, w.resolve strict roots t store = (.ok r, after) := by
  cases h : w.resolve strict roots t store with
  | mk result after =>
    cases result with
    | error e =>
      rw [(resolve_eq_error hstore h).2]
      exact Or.inl ⟨e, rfl⟩
    | ok r => exact Or.inr ⟨r, after, rfl⟩

/-- A resolution that succeeds puts its descriptors in front of what the store held, in some order. -/
theorem entries_of_resolve {r : Resolution} (h : w.resolve strict roots t store = (.ok r, store')) :
    ∃ ds : List Descriptor, ds.Perm r.descriptors ∧ store'.entries = ds.map (DescriptorStore.entry t) ++ store.entries := by
  obtain ⟨s, hs, hrun⟩ := resolve_eq_ok_iff.mp h
  have hr := resolved_of_run hs hrun
  obtain ⟨hwaves, -⟩ := Schedule.run_eq_ok_iff.mp hrun
  obtain ⟨ds, hproj, hent⟩ := hr.found.entries_of_foldlM (Discovery.assembleWaves_eq_none_iff.mp hwaves)
  refine ⟨ds, ?_, hent⟩
  have hnames : (ds.map Descriptor.project).Perm (r.descriptors.map Descriptor.project) := by
    rw [hproj, hr.map_project_descriptors, order_of_run hrun]
    exact (List.reverse_perm _).trans (flatten_waves_perm hs)
  have hnodup : (ds.map Descriptor.project).Nodup := hnames.nodup_iff.mpr hr.nodup_descriptors
  have hread : ∀ e ∈ ds, store'.get? e.project t = some e := by
    intro e he
    have hget := DescriptorStore.get?_entries_append store t ds e.project t
    rw [← hent, if_pos rfl, (Descriptor.find?_project_eq_some_iff hnodup).mpr ⟨he, rfl⟩] at hget
    exact hget
  have hperm := hnames.filterMap (fun x => store'.get? x t)
  rw [DescriptorStore.filterMap_get? hread,
    DescriptorStore.filterMap_get? (fun e he => (hr.of_mem_descriptors he).2.1)] at hperm
  exact hperm

/-- After a resolution that succeeds the store holds its descriptors for the target, and what it held before for every
other target. -/
theorem get?_of_resolve (hstore : ∀ x, store.get? x t = none) {r : Resolution}
    (h : w.resolve strict roots t store = (.ok r, store')) (x : String) (u : Target) :
    store'.get? x u = if u = t then r.descriptors.find? (fun e => e.project == x) else store.get? x u := by
  obtain ⟨d, hr⟩ := exists_resolved h
  obtain ⟨ds, hperm, hent⟩ := entries_of_resolve h
  have hget := DescriptorStore.get?_entries_append store t ds x u
  rw [← hent] at hget
  refine hget.trans ?_
  split
  · rename_i hu
    subst hu
    rw [hstore, Option.or_none]
    ext e
    rw [Descriptor.find?_project_eq_some_iff hr.nodup_descriptors,
      Descriptor.find?_project_eq_some_iff ((hperm.map _).nodup_iff.mpr hr.nodup_descriptors), hperm.mem_iff]
  · rfl

end Workspace

/-- On a store without descriptors of the target, a resolution that fails changes nothing. One that succeeds adds one
entry for each project of its order, under the project and the target, with the descriptor that it gives back, and keeps
every other entry. -/
theorem resolve_publishes (w : Workspace) (strict : Bool) (roots : List String) (t : Target) {store store' : DescriptorStore}
    {result : Except BuildError Resolution} (hstore : ∀ x, store.get? x t = none)
    (h : w.resolve strict roots t store = (result, store')) :
    (∀ e, result = .error e → store' = store) ∧
    ∀ r, result = .ok r →
      (r.order.Nodup ∧ r.descriptors.map Descriptor.project = r.order) ∧
      (∃ added, store'.entries = added ++ store.entries ∧ added.Perm (r.descriptors.map (DescriptorStore.entry t))) ∧
      ∀ x u, store'.get? x u = if u = t then r.descriptors.find? (fun e => e.project == x) else store.get? x u := by
  constructor
  · rintro e rfl
    exact (Workspace.resolve_eq_error hstore h).2
  · rintro r rfl
    obtain ⟨d, hr⟩ := Workspace.exists_resolved h
    obtain ⟨ds, hperm, hent⟩ := Workspace.entries_of_resolve h
    exact ⟨⟨hr.isOrder.nodup, hr.map_project_descriptors⟩, ⟨_, hent, hperm.map _⟩, Workspace.get?_of_resolve hstore h⟩

/-- On a store that holds a descriptor of another target, the three projects are resolved and put in front of it; with a
root that is not declared, the resolution fails and leaves the store as it is. -/
theorem resolve_publishes_threeProjects :
    ∃ (store store' : DescriptorStore) (r : Resolution) (e : BuildError), store.entries ≠ [] ∧
      Workspace.threeProjects.resolve true ["App"] {} store = (.ok r, store') ∧
      (∀ x u, store'.get? x u = if u = {} then r.descriptors.find? (fun e => e.project == x) else store.get? x u) ∧
      Workspace.threeProjects.resolve true ["App", "Gone"] {} store = (.error e, store) := by
  let other : Target := { optimization := .release }
  let store : DescriptorStore :=
    ⟨[(("App", other), LocalConfiguration.descriptor ⟨.generate, false, Configuration.initial "App" other⟩ [] [])]⟩
  have hstore : ∀ x, store.get? x {} = none := by
    intro x
    refine (DescriptorStore.get?_cons {} "App" x other {} _).trans (if_neg ?_)
    rintro ⟨-, h⟩
    exact absurd h (by decide)
  obtain ⟨s, hs⟩ := Workspace.exists_schedule_eq_ok_iff.mpr
    (Workspace.threeProjects_sound true (by decide : ∀ x ∈ ["App"], x ∈ ["Core", "Lib", "App"]))
  obtain ⟨r, store', h⟩ := Workspace.exists_resolve_of_schedule hstore hs
  have hgone : ¬∃ s, Workspace.threeProjects.schedule true ["App", "Gone"] {} = .ok s := by
    rw [Workspace.exists_schedule_eq_ok_iff]
    rintro ⟨hdecl, -⟩
    exact absurd (hdecl "Gone" ⟨"Gone", by decide, Relation.ReflTransGen.refl⟩) (by decide)
  obtain ⟨e, store₁, h₁⟩ : ∃ e store₁,
      Workspace.threeProjects.resolve true ["App", "Gone"] {} store = (.error e, store₁) := by
    cases hs : Workspace.threeProjects.schedule true ["App", "Gone"] {} with
    | ok s => exact (hgone ⟨s, hs⟩).elim
    | error e => exact ⟨e, store, Workspace.resolve_of_schedule_eq_error hs⟩
  have hsame := (resolve_publishes Workspace.threeProjects true ["App", "Gone"] {} hstore h₁).1 e rfl
  have hget := ((resolve_publishes Workspace.threeProjects true ["App"] {} hstore h).2 r rfl).2.2
  exact ⟨store, store', r, e, by simp [store], h, hget, hsame ▸ h₁⟩

end BuildPlan
