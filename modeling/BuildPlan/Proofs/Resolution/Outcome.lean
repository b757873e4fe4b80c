import BuildPlan.Proofs.Resolution.Schedule

/-!
# What a resolution amounts to

A resolution that succeeds is an order of the needed names with, for each of them, the descriptor that it has by the store
at the end (`Resolved`). What has a schedule is resolved on every store without descriptors of the target, so there are
exactly four conditions for success, and the first one that fails names the error.
-/

namespace BuildPlan

open Relation

/-! ### Resolutions -/

/-- The descriptors of some names are collected exactly if the store has one of each. -/
theorem Schedule.collect_eq_ok_iff {store : DescriptorStore} {t : Target} {names : List String} {ds : List Descriptor} :
    collect store t names = .ok ds ↔ List.Forall₂ (fun x e => store.get? x t = some e) names ds := by
  induction names generalizing ds with
  | nil => simp [collect, eq_comm]
  | cons x names ih =>
    unfold collect
    constructor
    · intro h
      split at h
      · cases h
      · rename_i e he
        obtain ⟨more, hmore, h⟩ := bind_eq_ok_iff.mp h
        cases h
        exact List.Forall₂.cons he (ih.mp hmore)
    · intro h
      cases h with
      | cons he hmore =>
        rw [he]
        exact bind_eq_ok_iff.mpr ⟨_, ih.mpr hmore, rfl⟩

/-- A schedule is resolved if its waves are assembled and the descriptors of its order are then in the store. -/
theorem Schedule.run_eq_ok_iff {s : Schedule} {store store' : DescriptorStore} {r : Resolution} :
    s.run store = (.ok r, store') ↔ s.discovery.assembleWaves s.order store s.waves = (none, store') ∧
      ∃ ds, collect store' s.discovery.graph.target s.order = .ok ds ∧
        r = ⟨s.discovery.graph.target, s.discovery.graph, s.order, s.waves.length, ds⟩ := by
  unfold run
  dsimp only
  constructor
  · intro h
    split at h
    · cases h
    · rename_i store₁ hrun
      rw [Prod.mk.injEq] at h
      obtain ⟨h, rfl⟩ := h
      cases hc : collect store₁ s.discovery.graph.target s.order with
      | error e =>
        rw [hc] at h
        cases h
      | ok ds =>
        rw [hc] at h
        cases h
        exact ⟨hrun, ds, rfl, rfl⟩
  · rintro ⟨hrun, ds, hds, rfl⟩
    rw [hrun]
    dsimp only
    rw [hds]
    rfl

/-- What a resolution that succeeds amounts to: an order of the needed names, and for each of them the descriptor that it
has by the store at the end. -/
structure Resolved (w : Workspace) (t : Target) (roots : List String) (d : Discovery) (r : Resolution)
    (store : DescriptorStore) : Prop where
  found : Discovered w t (w.Needed t roots) d
  target : r.target = t
  graph : r.graph = d.graph
  isOrder : d.graph.IsOrder r.order
  described : ∀ x ∈ r.order, ∃ e, store.get? x t = some e ∧ d.describe r.order store x = .ok e
  collected : List.Forall₂ (fun x e => store.get? x t = some e) r.order r.descriptors

namespace Resolved

variable {w : Workspace} {t : Target} {roots : List String} {d : Discovery} {r : Resolution} {store : DescriptorStore}

/-- The order has the needed projects and no others. -/
theorem mem_order_iff (h : Resolved w t roots d r store) {x : String} : x ∈ r.order ↔ w.Needed t roots x :=
  (h.isOrder.complete x).trans h.found.mem_names_iff

/-- Every project of the order comes after all that it requires. -/
theorem dependenciesFirst (h : Resolved w t roots d r store) : DependenciesFirst (w.Requires t) r.order := by
  intro l₁ a l₂ he b hab
  have ha : w.Needed t roots a := h.mem_order_iff.mp (by simp [he])
  exact h.isOrder.dependenciesFirst l₁ a l₂ he b (h.found.edge_iff.mpr ⟨ha, hab⟩)

/-- The descriptors stand in the places of their projects in the order. -/
theorem descriptors_forall₂ (h : Resolved w t roots d r store) :
    List.Forall₂ (fun x e => e.project = x ∧ store.get? x t = some e ∧ d.describe r.order store x = .ok e)
      r.order r.descriptors := by
  refine ((List.forall₂_and_left _ _).mpr ⟨h.described, h.collected⟩).imp ?_
  rintro x e ⟨⟨e', hget', hdesc⟩, hget⟩
  rw [hget, Option.some.injEq] at hget'
  subst hget'
  exact ⟨h.found.project_of_describe hdesc, hget, hdesc⟩

/-- The descriptors are those of the order, in order. -/
theorem map_project_descriptors (h : Resolved w t roots d r store) : r.descriptors.map Descriptor.project = r.order := by
  have hall : List.Forall₂ Eq r.order (r.descriptors.map Descriptor.project) := by
    rw [List.forall₂_map_right_iff]
    exact h.descriptors_forall₂.imp (fun _ _ he => he.1.symm)
  rw [List.forall₂_eq_eq_eq] at hall
  exact hall.symm

/-- A descriptor of the resolution is the one in the store, and is what the project has by the store. -/
theorem of_mem_descriptors (h : Resolved w t roots d r store) {e : Descriptor} (he : e ∈ r.descriptors) :
    e.project ∈ r.order ∧ store.get? e.project t = some e ∧ d.describe r.order store e.project = .ok e := by
  obtain ⟨x, hx, rfl, hget, hdesc⟩ := exists_of_mem_forall₂ h.descriptors_forall₂ he
  exact ⟨hx, hget, hdesc⟩

/-- What the search in the graph finds for a project of the order is what the project requires, directly or through others. -/
theorem mem_transitiveDependencies_iff (h : Resolved w t roots d r store) {x b : String} (hx : x ∈ r.order) :
    b ∈ d.graph.transitiveDependencies x ↔ TransGen (w.Requires t) x b := by
  rw [TargetGraph.mem_transitiveDependencies]
  exact h.found.transGen_edge_iff (w.needed_closed t roots) (h.mem_order_iff.mp hx)

/-- What a project of the order requires lies in the order, so that sorting it by position leaves out the rest of the order. -/
theorem sortedBy_transitiveDependencies (h : Resolved w t roots d r store) {x : String} (hx : x ∈ r.order) :
    Discovery.sortedBy r.order (d.graph.transitiveDependencies x) =
      r.order.filter (d.graph.transitiveDependencies x).contains := by
  refine Discovery.sortedBy_eq_filter h.isOrder.nodup (d.graph.nodup_transitiveDependencies x) (fun b hb => ?_)
  exact h.dependenciesFirst.transGen.mem hx ((h.mem_transitiveDependencies_iff hx).mp hb)

/-- The dependencies of a descriptor are what the search in the graph finds for its project, in the order of the resolution. -/
theorem dependencies_eq (h : Resolved w t roots d r store) {e : Descriptor} (he : e ∈ r.descriptors) :
    e.dependencies = r.order.filter (d.graph.transitiveDependencies e.project).contains := by
  obtain ⟨hmem, -, hdesc⟩ := h.of_mem_descriptors he
  obtain ⟨-, p, inherited, -, -, heq⟩ := h.found.describe_eq_ok_iff.mp hdesc
  have hsorted : e.dependencies = Discovery.sortedBy r.order (d.graph.transitiveDependencies e.project) :=
    congrArg Descriptor.dependencies heq
  rw [hsorted, h.sortedBy_transitiveDependencies hmem]

end Resolved

namespace Workspace

variable {w : Workspace} {t : Target} {roots : List String} {strict : Bool}

/-- A target is resolved exactly if it has a schedule that runs without an error. -/
theorem resolve_eq_ok_iff {store store' : DescriptorStore} {r : Resolution} :
    w.resolve strict roots t store = (.ok r, store') ↔
      ∃ s, w.schedule strict roots t = .ok s ∧ s.run store = (.ok r, store') := by
  unfold resolve
  cases w.schedule strict roots t with
  | error e => simp
  | ok s => simp

/-- A schedule that is run without failure is a resolution of what was discovered. -/
theorem resolved_of_run {s : Schedule} (hs : w.schedule strict roots t = .ok s) {store store' : DescriptorStore}
    {r : Resolution} (h : s.run store = (.ok r, store')) : Resolved w t roots s.discovery r store' := by
  obtain ⟨hof, -, -, horder, hwaves⟩ := schedule_eq_ok_iff.mp hs
  obtain ⟨hrun, ds, hds, rfl⟩ := Schedule.run_eq_ok_iff.mp h
  have hfound := Discovery.discovered_of_ofRoots hof
  have hperm := TargetGraph.flatten_perm_of_parallelGroups hwaves
  have hIs := TargetGraph.isOrder_of_topologicalOrder horder
  have hcollected := Schedule.collect_eq_ok_iff.mp hds
  rw [hfound.target] at hcollected
  refine ⟨hfound, hfound.target, rfl, hIs, fun x hx => ?_, hcollected⟩
  have hx' : x ∈ s.waves.flatten := hperm.mem_iff.mpr ((hIs.complete x).mp hx)
  exact hfound.assembled_of_foldlM (Discovery.assembleWaves_eq_none_iff.mp hrun) x hx'

/-- A resolution that succeeds is one of what was discovered. -/
theorem exists_resolved {store store' : DescriptorStore} {r : Resolution}
    (h : w.resolve strict roots t store = (.ok r, store')) : ∃ d, Resolved w t roots d r store' := by
  obtain ⟨s, hs, hrun⟩ := resolve_eq_ok_iff.mp h
  exact ⟨s.discovery, resolved_of_run hs hrun⟩

/-- Where there is no schedule, the store stays as it is. -/
theorem resolve_of_schedule_eq_error {store : DescriptorStore} {e : BuildError}
    (h : w.schedule strict roots t = .error e) : w.resolve strict roots t store = (.error e, store) := by
  unfold resolve
  rw [h]

/-- On a store without descriptors of the target, a schedule runs without an error. -/
theorem exists_run_of_schedule {store : DescriptorStore} (hstore : ∀ x, store.get? x t = none) {s : Schedule}
    (hs : w.schedule strict roots t = .ok s) : ∃ r store', s.run store = (.ok r, store') := by
  obtain ⟨hof, -, -, horder, hwaves⟩ := schedule_eq_ok_iff.mp hs
  have hfound := Discovery.discovered_of_ofRoots hof
  have hperm := TargetGraph.flatten_perm_of_parallelGroups hwaves
  have hmem : ∀ x, x ∈ s.waves.flatten ↔ w.Needed t roots x := fun x => hperm.mem_iff.trans hfound.mem_names_iff
  have hfirst : DependenciesFirst (w.Requires t) s.waves.flatten := by
    intro l₁ a l₂ he b hab
    have ha : w.Needed t roots a := (hmem a).mp (by simp [he])
    exact TargetGraph.dependenciesFirst_of_parallelGroups hwaves l₁ a l₂ he b (hfound.edge_iff.mpr ⟨ha, hab⟩)
  obtain ⟨store', hf⟩ := hfound.exists_assembled (w.needed_closed t roots) s.order
    (fun x hx => (hmem x).mp hx) (hperm.nodup_iff.mpr s.discovery.graph.nodes.nodup) hfirst (fun x _ => hstore x)
  have hcollect : ∃ ds, Schedule.collect store' t s.order = .ok ds := by
    have hget : ∀ x ∈ s.order, ∃ e, store'.get? x t = some e := by
      intro x hx
      have hx' := hperm.mem_iff.mpr (((TargetGraph.isOrder_of_topologicalOrder horder).complete x).mp hx)
      obtain ⟨e, he, -⟩ := hfound.assembled_of_foldlM hf x hx'
      exact ⟨e, he⟩
    obtain ⟨ds, hds⟩ := exists_forall₂ hget
    exact ⟨ds, Schedule.collect_eq_ok_iff.mpr hds⟩
  obtain ⟨ds, hds⟩ := hcollect
  rw [← hfound.target] at hds
  exact ⟨_, store', Schedule.run_eq_ok_iff.mpr ⟨Discovery.assembleWaves_eq_none_iff.mpr hf, ds, hds, rfl⟩⟩

/-- On a store without descriptors of the target, what has a schedule is resolved. -/
theorem exists_resolve_of_schedule {store : DescriptorStore} (hstore : ∀ x, store.get? x t = none) {s : Schedule}
    (hs : w.schedule strict roots t = .ok s) : ∃ r store', w.resolve strict roots t store = (.ok r, store') := by
  obtain ⟨r, store', hrun⟩ := exists_run_of_schedule hstore hs
  exact ⟨r, store', resolve_eq_ok_iff.mpr ⟨s, hs, hrun⟩⟩

/-- On a store without descriptors of the target, exactly what has a schedule is resolved. -/
theorem exists_resolve_iff_schedule {store : DescriptorStore} (hstore : ∀ x, store.get? x t = none) :
    (∃ r, (w.resolve strict roots t store).1 = .ok r) ↔ ∃ s, w.schedule strict roots t = .ok s := by
  constructor
  · rintro ⟨r, h⟩
    cases hs : w.schedule strict roots t with
    | ok s => exact ⟨s, rfl⟩
    | error e =>
      rw [resolve_of_schedule_eq_error hs] at h
      cases h
  · rintro ⟨s, hs⟩
    obtain ⟨r, store', h⟩ := exists_resolve_of_schedule hstore hs
    exact ⟨r, by rw [h]⟩

/-! ### A workspace of three projects -/

/-- Three projects with one rule set. The first depends on the second one publicly, and this on the third one privately. -/
def threeProjects : Workspace where
  projects := Catalog.ofList [
    { name := "App", sourceRoot := "app", ruleSet := some "cpp" },
    { name := "Lib", sourceRoot := "lib", ruleSet := some "cpp" },
    { name := "Core", sourceRoot := "core", ruleSet := some "cpp" }]
  edges := [
    { source := "App", dependency := "Lib" },
    { source := "Lib", dependency := "Core", visibility := .priv }]
  rules := ⟨Catalog.ofList [{
    id := "cpp"
    rules := [{ name := "include", writes := ⟨fun c _ => [.includePath (c.project.sourceRoot ++ "/include")]⟩ }] }]⟩

/-- Each project of the sample has its one rule set as chain. -/
theorem chainOf_threeProjects {p : Project} (hp : p ∈ threeProjects.projects.items) :
    threeProjects.chainOf p = threeProjects.rules.sets.items := by
  have hset : p.ruleSet = some "cpp" := by
    rcases hp with _ | ⟨_, _ | ⟨_, _ | ⟨_, hp⟩⟩⟩
    · rfl
    · rfl
    · rfl
    · cases hp
  simp only [chainOf, hset, RuleRegistry.chain]
  rw [RuleSet.walk]
  rfl

/-- In the sample nothing is required but the library by the program and the core by the library. -/
theorem requires_threeProjects {a b : String} (h : threeProjects.Requires t a b) :
    a = "App" ∧ b = "Lib" ∨ a = "Lib" ∧ b = "Core" := by
  obtain ⟨p, hp, ⟨e, he, rfl, rfl, -⟩ | hdeclares⟩ := h
  · have he' : e = ⟨"App", "Lib", .pub, {}⟩ ∨ e = ⟨"Lib", "Core", .priv, {}⟩ := by simpa [threeProjects] using he
    rcases he' with rfl | rfl
    · exact Or.inl ⟨rfl, rfl⟩
    · exact Or.inr ⟨rfl, rfl⟩
  · obtain ⟨d, hd, -⟩ := declaresDependency_iff.mp hdeclares
    rw [chainConfiguration, appliedRules, chainOf_threeProjects (Catalog.mem_of_get? hp)] at hd
    cases hd

/-- The sample has an order with dependencies first. -/
theorem dependenciesFirst_threeProjects (t : Target) :
    DependenciesFirst (threeProjects.Requires t) ["Core", "Lib", "App"] := by
  refine ((DependenciesFirst.nil.concat ?_).concat ?_).concat ?_
  · intro b hb
    simpa using requires_threeProjects hb
  · intro b hb
    simpa using requires_threeProjects hb
  · intro b hb
    have hb' : b = "Lib" := by simpa using requires_threeProjects hb
    simp [hb']

/-- The sample meets all that a resolution asks for. -/
theorem threeProjects_sound (strict : Bool) {roots : List String} (hr : ∀ x ∈ roots, x ∈ ["Core", "Lib", "App"]) :
    threeProjects.AllDeclared {} roots ∧ threeProjects.AllAgreeing strict {} roots ∧
      threeProjects.AllVariants {} roots ∧ threeProjects.Acyclic {} roots := by
  have hall : ∀ x ∈ ["Core", "Lib", "App"], x ∈ threeProjects.projects.names := by decide
  obtain ⟨hneeded, hac⟩ := needed_of_dependenciesFirst (dependenciesFirst_threeProjects {}) hr
  have hdecl : threeProjects.AllDeclared {} roots := fun x hx => hall x (hneeded x hx)
  refine ⟨hdecl, ?_, ?_, hac⟩
  · intro x p _ hp _
    rw [chainConfiguration, appliedRules, chainOf_threeProjects (Catalog.mem_of_get? hp)]
    rfl
  · intro a b ha hab
    obtain ⟨q, hq⟩ := Catalog.mem_names_iff.mp (hdecl b (ha.tail hab))
    refine ⟨q, hq, ?_, Or.inr ?_⟩
    · have hall : ∀ q ∈ threeProjects.projects.items, q.axes.contains {} = true := by decide
      exact hall q (Catalog.mem_of_get? hq)
    · rw [chainOf_threeProjects (Catalog.mem_of_get? hq)]
      exact ⟨_, List.mem_singleton.mpr rfl, _, List.mem_singleton.mpr rfl, rfl⟩

/-- The three projects can be resolved, whichever of them are the roots. -/
theorem threeProjects_resolved (strict : Bool) {roots : List String} (hr : ∀ x ∈ roots, x ∈ ["Core", "Lib", "App"]) :
    ∃ r store, threeProjects.resolve strict roots {} {} = (.ok r, store) := by
  obtain ⟨s, hs⟩ := exists_schedule_eq_ok_iff.mpr (threeProjects_sound strict hr)
  exact exists_resolve_of_schedule (fun _ => rfl) hs

end Workspace

/-! ### Success and failure -/

/-- On a store without descriptors of the target, a resolution succeeds exactly if every needed name is a declared project,
none of them has a conflict in strict mode, every dependency has a variant and there is no cycle. The error is that of the
first of these that fails. Edges that do not exist for the target and projects that no root needs play no part. -/
theorem resolve_outcome (w : Workspace) (strict : Bool) (roots : List String) (t : Target) {store : DescriptorStore}
    (hstore : ∀ x, store.get? x t = none) :
    ((∃ r, (w.resolve strict roots t store).1 = .ok r) ↔
      w.AllDeclared t roots ∧ w.AllAgreeing strict t roots ∧ w.AllVariants t roots ∧ w.Acyclic t roots) ∧
    ∀ e, (w.resolve strict roots t store).1 = .error e →
      (¬(w.AllDeclared t roots ∧ w.AllAgreeing strict t roots) →
        (∃ name reference, e = .unknownProject name reference) ∨
          ∃ project conflict, e = .scalarConflict project conflict) ∧
      (w.AllDeclared t roots ∧ w.AllAgreeing strict t roots → ¬w.AllVariants t roots →
        ∃ dependency dependent, e = .missingVariant dependency dependent t) ∧
      (w.AllDeclared t roots ∧ w.AllAgreeing strict t roots → w.AllVariants t roots →
        ∃ cycle, e = .cyclicDependency t cycle) := by
  constructor
  · rw [Workspace.exists_resolve_iff_schedule hstore, Workspace.exists_schedule_eq_ok_iff]
  · intro e he
    have hsched : w.schedule strict roots t = .error e := by
      cases hs : w.schedule strict roots t with
      | ok s =>
        obtain ⟨r, store', h⟩ := Workspace.exists_resolve_of_schedule hstore hs
        rw [h] at he
        cases he
      | error e' =>
        rw [Workspace.resolve_of_schedule_eq_error hs] at he
        rw [← Except.error.inj he]
    rcases Workspace.schedule_eq_error hsched with ⟨hn, h⟩ | ⟨hs, hn, h⟩ | ⟨hs, hv, -, h⟩
    · exact ⟨fun _ => h, fun hs => (hn hs).elim, fun hs => (hn hs).elim⟩
    · exact ⟨fun hc => (hc hs).elim, fun _ _ => h, fun _ hv => (hn hv).elim⟩
    · exact ⟨fun hc => (hc hs).elim, fun _ hc => (hc hv).elim, fun _ _ => h⟩

theorem resolve_outcome_threeProjects :
    (∀ x, ({} : DescriptorStore).get? x {} = none) ∧
      ∃ r, (Workspace.threeProjects.resolve true ["App"] {} {}).1 = .ok r :=
  ⟨fun _ => rfl, (resolve_outcome Workspace.threeProjects true ["App"] {} (fun _ => rfl)).1.mpr
    (Workspace.threeProjects_sound true (by decide))⟩

end BuildPlan
