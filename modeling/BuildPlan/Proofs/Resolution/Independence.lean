import BuildPlan.Proofs.Plan

/-!
# Descriptors do not depend on what else is resolved

Two resolutions of one target give a project that both of them need the same descriptor, and list the projects that both
of them need in the same order. In the order further projects compete for every place, yet they never change which of the
common ones comes first (`Resolved.filter_order_eq`). So it does not matter whether a descriptor is compiled alone,
planned with a solution or planned with everything.
-/

namespace BuildPlan

open Relation

/-! ### One order -/

namespace Discovered

variable {w : Workspace} {t : Target} {visited : String → Prop} {d : Discovery}

theorem mem_items_iff (h : Discovered w t visited d) {n : TargetNode} :
    n ∈ d.graph.nodes.items ↔ visited n.name ∧ ∃ p, w.projects.get? n.name = some p ∧ n = w.node p t := by
  rw [← h.node?]
  exact ⟨Catalog.get?_name, Catalog.mem_of_get?⟩

end Discovered

/-- The nodes that two graphs have in common. -/
def TargetGraph.commonNodes (g g' : TargetGraph) : List TargetNode :=
  g.nodes.items.filter (fun n => decide (n ∈ g'.nodes.items))

theorem TargetGraph.mem_commonNodes {g g' : TargetGraph} {n : TargetNode} :
    n ∈ g.commonNodes g' ↔ n ∈ g.nodes.items ∧ n ∈ g'.nodes.items := by
  rw [commonNodes, List.mem_filter, decide_eq_true_iff]

namespace Resolved

variable {w : Workspace} {t : Target} {roots roots' : List String} {d d' : Discovery} {r r' : Resolution}
  {store store' : DescriptorStore}

/-- The common nodes are those of the common names. -/
theorem mem_commonNames_iff (h : Resolved w t roots d r store) (h' : Resolved w t roots' d' r' store') {x : String} :
    x ∈ (d.graph.commonNodes d'.graph).map TargetNode.name ↔ x ∈ r.order ∧ x ∈ r'.order := by
  rw [h.mem_order_iff, h'.mem_order_iff, List.mem_map]
  constructor
  · rintro ⟨n, hn, rfl⟩
    obtain ⟨hn, hn'⟩ := TargetGraph.mem_commonNodes.mp hn
    exact ⟨(h.found.mem_items_iff.mp hn).1, (h'.found.mem_items_iff.mp hn').1⟩
  · rintro ⟨hx, hx'⟩
    obtain ⟨p, hp⟩ := h.found.declared x hx
    have hpx : (w.node p t).name = x := (w.name_node p t).trans (Catalog.name_of_get? hp)
    refine ⟨w.node p t, TargetGraph.mem_commonNodes.mpr ⟨h.found.mem_items_iff.mpr ?_, h'.found.mem_items_iff.mpr ?_⟩, hpx⟩
    · exact ⟨hpx ▸ hx, p, hpx ▸ hp, rfl⟩
    · exact ⟨hpx ▸ hx', p, hpx ▸ hp, rfl⟩

/-- The common nodes need no other ones. -/
theorem commonNodes_closed (h : Resolved w t roots d r store) (h' : Resolved w t roots' d' r' store') :
    ∀ n ∈ d.graph.commonNodes d'.graph, ∀ b ∈ n.dependencies.names,
      b ∈ (d.graph.commonNodes d'.graph).map TargetNode.name := by
  intro n hn b hb
  obtain ⟨hn, hn'⟩ := TargetGraph.mem_commonNodes.mp hn
  obtain ⟨ha, hab⟩ := h.found.requires_of_mem hn hb
  obtain ⟨ha', hab'⟩ := h'.found.requires_of_mem hn' hb
  exact (h.mem_commonNames_iff h').mpr ⟨h.mem_order_iff.mpr (ha.tail hab), h'.mem_order_iff.mpr (ha'.tail hab')⟩

/-- The names that two resolutions have in common stand in one order. -/
theorem filter_order_eq (h : Resolved w t roots d r store) (h' : Resolved w t roots' d' r' store') :
    r.order.filter (fun x => decide (x ∈ r'.order)) = r'.order.filter (fun x => decide (x ∈ r.order)) := by
  have heq := h.isOrder.filter_eq h'.isOrder (fun n hn => TargetGraph.mem_commonNodes.mp hn) (h.commonNodes_closed h')
  have hl : ∀ x ∈ r.order,
      ((d.graph.commonNodes d'.graph).map TargetNode.name).contains x = decide (x ∈ r'.order) := by
    intro x hx
    rw [Bool.eq_iff_iff, List.contains_iff_mem, h.mem_commonNames_iff h', decide_eq_true_iff, and_iff_right hx]
  have hr : ∀ x ∈ r'.order,
      ((d.graph.commonNodes d'.graph).map TargetNode.name).contains x = decide (x ∈ r.order) := by
    intro x hx
    rw [Bool.eq_iff_iff, List.contains_iff_mem, h.mem_commonNames_iff h', decide_eq_true_iff, and_iff_left hx]
  rw [List.filter_congr hl, List.filter_congr hr] at heq
  exact heq

/-- The dependencies of a common name are the same part of both orders: they lie in the common part, which is the same list. -/
theorem filter_transitiveDependencies_eq (h : Resolved w t roots d r store) (h' : Resolved w t roots' d' r' store')
    {x : String} (hx : x ∈ r.order) (hx' : x ∈ r'.order) :
    r.order.filter (d.graph.transitiveDependencies x).contains =
      r'.order.filter (d'.graph.transitiveDependencies x).contains := by
  classical
  have hdeps : ∀ b, (d.graph.transitiveDependencies x).contains b = decide (TransGen (w.Requires t) x b) := by
    intro b
    rw [Bool.eq_iff_iff, List.contains_iff_mem, h.mem_transitiveDependencies_iff hx, decide_eq_true_iff]
  have hdeps' : ∀ b, (d'.graph.transitiveDependencies x).contains b = decide (TransGen (w.Requires t) x b) := by
    intro b
    rw [Bool.eq_iff_iff, List.contains_iff_mem, h'.mem_transitiveDependencies_iff hx', decide_eq_true_iff]
  have hpart : ∀ order order' : List String, (∀ b, TransGen (w.Requires t) x b → b ∈ order') →
      order.filter (fun b => decide (TransGen (w.Requires t) x b)) =
        (order.filter (fun b => decide (b ∈ order'))).filter (fun b => decide (TransGen (w.Requires t) x b)) := by
    intro order order' hsub
    rw [List.filter_filter]
    refine List.filter_congr (fun b _ => ?_)
    rw [Bool.eq_iff_iff, Bool.and_eq_true, decide_eq_true_iff, decide_eq_true_iff]
    exact (and_iff_left_of_imp (hsub b)).symm
  rw [funext hdeps, funext hdeps', hpart r.order r'.order (fun _ hb => h'.dependenciesFirst.transGen.mem hx' hb),
    h.filter_order_eq h', ← hpart r'.order r.order (fun _ hb => h.dependenciesFirst.transGen.mem hx hb)]

/-! ### One descriptor -/

/-- The stores of two resolutions hold the same descriptor of a common name, made from the descriptors of its dependencies,
which are common names as well. -/
theorem get?_eq (h : Resolved w t roots d r store) (h' : Resolved w t roots' d' r' store') :
    ∀ x ∈ r.order, x ∈ r'.order → store.get? x t = store'.get? x t := by
  refine h.dependenciesFirst.induction ?_
  intro x hx ih hx'
  obtain ⟨e, hget, hdesc⟩ := h.described x hx
  obtain ⟨e', hget', hdesc'⟩ := h'.described x hx'
  obtain ⟨-, p, inherited, hp, hi, rfl⟩ := h.found.describe_eq_ok_iff.mp hdesc
  obtain ⟨-, p', inherited', hp', hi', rfl⟩ := h'.found.describe_eq_ok_iff.mp hdesc'
  rw [hp, Option.some.injEq] at hp'
  subst hp'
  have hinherit : d.inheritance store x (w.node p t).dependencies.items =
      d'.inheritance store' x (w.node p t).dependencies.items := by
    refine Discovery.inheritance_congr ?_
    rintro ⟨b, v⟩ hb
    have hreq : w.Requires t x b := Workspace.requires_of_mem_node hp hb
    have hb' : b ∈ r'.order := h'.dependenciesFirst.mem hx' hreq
    have hlookup : d.locals.lookup b = d'.locals.lookup b := by
      obtain ⟨q, hq⟩ := h'.found.declared b (h'.mem_order_iff.mp hb')
      have hb := h.dependenciesFirst.mem hx hreq
      rw [(h.found.lookup b _).mpr ⟨h.mem_order_iff.mp hb, q, hq, rfl⟩,
        (h'.found.lookup b _).mpr ⟨h'.mem_order_iff.mp hb', q, hq, rfl⟩]
    unfold Discovery.inheritedFrom
    rw [h.found.target, h'.found.target, ih b hreq hb', hlookup]
  rw [hi, hi', Except.ok.injEq] at hinherit
  rw [hget, hget', hinherit, h.sortedBy_transitiveDependencies hx, h'.sortedBy_transitiveDependencies hx',
    h.filter_transitiveDependencies_eq h' hx hx']

theorem eq_of_project_eq (h : Resolved w t roots d r store) (h' : Resolved w t roots' d' r' store') {e e' : Descriptor}
    (he : e ∈ r.descriptors) (he' : e' ∈ r'.descriptors) (hp : e.project = e'.project) : e = e' := by
  obtain ⟨hx, hget, -⟩ := h.of_mem_descriptors he
  obtain ⟨hx', hget', -⟩ := h'.of_mem_descriptors he'
  rw [hp] at hx hget
  rw [h.get?_eq h' _ hx hx', hget', Option.some.injEq] at hget
  exact hget.symm

end Resolved

/-! ### Every way to a descriptor -/

namespace Workspace

/-- A resolution of a target: what resolving some roots on some store has given, in strict mode or not. -/
def Resolves (w : Workspace) (t : Target) (r : Resolution) : Prop :=
  ∃ strict roots store store', w.resolve strict roots t store = (.ok r, store')

theorem Resolves.exists_resolved {w : Workspace} {t : Target} {r : Resolution} (h : w.Resolves t r) :
    ∃ roots d store, Resolved w t roots d r store := by
  obtain ⟨_, roots, _, store', h⟩ := h
  obtain ⟨d, hr⟩ := Workspace.exists_resolved h
  exact ⟨roots, d, store', hr⟩

/-- The ways in which the descriptor of a project on a target is handed out. It is compiled alone, or it is part of a plan
of a solution or of the whole workspace, or it is written for the executor after such a plan. -/
inductive Emits (w : Workspace) (t : Target) (project : String) : Descriptor → Prop
  | compiled {strict : Bool} {e : Descriptor} : w.compile strict project t = .ok e → Emits w t project e
  | planned {config : PlanConfig} {o : PlanOutcome} {r : Resolution} {e : Descriptor} : w.plan config = .ok o →
      r ∈ o.resolutions → r.target = t → e ∈ r.descriptors → e.project = project → Emits w t project e
  | written {config : PlanConfig} {o : PlanOutcome} {input : ExecutorInput} {p : TargetPlan} {e : Descriptor} :
      w.plan config = .ok o → ExecutorInput.ofOutcome o = .ok input → p ∈ input.targets → p.target = t →
      e ∈ p.descriptors → e.project = project → Emits w t project e

/-- Whatever the way, the descriptor is that of the project in some resolution of the target. -/
theorem Emits.exists_resolves {w : Workspace} {t : Target} {project : String} {e : Descriptor}
    (h : w.Emits t project e) : ∃ r, w.Resolves t r ∧ e ∈ r.descriptors ∧ e.project = project := by
  cases h with
  | @compiled strict _ hc =>
    obtain ⟨r, store, hr, he, hp⟩ := compile_eq_ok hc
    exact ⟨r, ⟨strict, [project], {}, store, hr⟩, he, hp⟩
  | @planned config o r _ hplan hr ht he hp =>
    obtain ⟨roots, store, store', hres⟩ := exists_resolve_of_plan hplan hr
    exact ⟨r, ⟨config.strict, roots, store, store', by rw [← ht]; exact hres⟩, he, hp⟩
  | @written config o input p _ hplan hinput hmem ht he hp =>
    obtain ⟨r, hr, hrt, her⟩ := ExecutorInput.mem_descriptors_of_written hinput hmem he
    obtain ⟨roots, store, store', hres⟩ := exists_resolve_of_plan hplan hr
    exact ⟨r, ⟨config.strict, roots, store, store', by rw [← ht, ← hrt]; exact hres⟩, her, hp⟩

end Workspace

/-- Two resolutions of one target, whatever their roots, agree on what they have in common. A project of both orders has
one descriptor, the same in every field, and the projects of both orders stand in one order. So there is at most one
descriptor of a project on a target, in whatever way it is handed out. -/
theorem descriptors_agree (w : Workspace) (t : Target) :
    (∀ r r', w.Resolves t r → w.Resolves t r' →
      (∀ x ∈ r.order, x ∈ r'.order → ∃ e, e.project = x ∧ e ∈ r.descriptors ∧ e ∈ r'.descriptors) ∧
      (∀ e ∈ r.descriptors, ∀ e' ∈ r'.descriptors, e.project = e'.project → e = e') ∧
      r.order.filter (fun x => decide (x ∈ r'.order)) = r'.order.filter (fun x => decide (x ∈ r.order))) ∧
    ∀ x e e', w.Emits t x e → w.Emits t x e' → e = e' := by
  constructor
  · intro r r' h h'
    obtain ⟨_, d, _, hr⟩ := h.exists_resolved
    obtain ⟨_, d', _, hr'⟩ := h'.exists_resolved
    have hsame : ∀ e ∈ r.descriptors, ∀ e' ∈ r'.descriptors, e.project = e'.project → e = e' :=
      fun e he e' he' hp => hr.eq_of_project_eq hr' he he' hp
    refine ⟨fun x hx hx' => ?_, hsame, hr.filter_order_eq hr'⟩
    rw [← hr.map_project_descriptors] at hx
    rw [← hr'.map_project_descriptors] at hx'
    obtain ⟨e, he, rfl⟩ := List.mem_map.mp hx
    obtain ⟨e', he', hp⟩ := List.mem_map.mp hx'
    rw [← hsame e he e' he' hp.symm] at he'
    exact ⟨e, rfl, he, he'⟩
  · intro x e e' h h'
    obtain ⟨r, hres, he, hp⟩ := h.exists_resolves
    obtain ⟨r', hres', he', hp'⟩ := h'.exists_resolves
    obtain ⟨_, d, _, hr⟩ := hres.exists_resolved
    obtain ⟨_, d', _, hr'⟩ := hres'.exists_resolved
    exact hr.eq_of_project_eq hr' he he' (hp.trans hp'.symm)

/-- The library of the three projects is compiled alone to the descriptor that the plan of all three has for it. -/
theorem descriptors_agree_threeProjects :
    ∃ o r e, Workspace.threeProjects.plan {} = .ok o ∧ r ∈ o.resolutions ∧ e ∈ r.descriptors ∧
      Workspace.threeProjects.compile true "Lib" {} = .ok e := by
  obtain ⟨r, store, h⟩ :=
    Workspace.threeProjects_resolved false (by decide : ∀ x ∈ ["App", "Lib", "Core"], x ∈ ["Core", "Lib", "App"])
  obtain ⟨r', store', h'⟩ := Workspace.threeProjects_resolved true (by decide : ∀ x ∈ ["Lib"], x ∈ ["Core", "Lib", "App"])
  obtain ⟨e, he⟩ := Workspace.exists_compile_eq_ok h'
  obtain ⟨rest, hplanned⟩ : ∃ rest,
      Workspace.threeProjects.plannedTargets {} = .ok (⟨{}, ["App", "Lib", "Core"]⟩ :: rest) := ⟨_, rfl⟩
  obtain ⟨o, ho, hres⟩ := Workspace.exists_plan_eq_ok hplanned
  have hr : r ∈ o.resolutions := by
    have hfirst : (({} : Target), (Workspace.threeProjects.resolve false ["App", "Lib", "Core"] {} {}).1) ∈
        Workspace.threeProjects.resolveAll false {} (⟨{}, ["App", "Lib", "Core"]⟩ :: rest) := List.mem_cons_self
    rw [h] at hfirst
    rw [hres, Workspace.mem_succeeded]
    exact ⟨{}, hfirst⟩
  obtain ⟨d, hresolved⟩ := Workspace.exists_resolved h
  have hlib : "Lib" ∈ r.descriptors.map Descriptor.project := by
    rw [hresolved.map_project_descriptors, hresolved.mem_order_iff]
    exact ⟨"Lib", by decide, ReflTransGen.refl⟩
  obtain ⟨e', he', hproj⟩ := List.mem_map.mp hlib
  have heq := (descriptors_agree Workspace.threeProjects {}).2 "Lib" e e' (.compiled he)
    (.planned ho hr hresolved.target he' hproj)
  exact ⟨o, r, e, ho, hr, by rw [heq]; exact he', he⟩

end BuildPlan
