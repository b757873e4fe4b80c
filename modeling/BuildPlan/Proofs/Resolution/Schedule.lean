import BuildPlan.Proofs.Graph.Waves
import BuildPlan.Proofs.Resolution.Assembly
import BuildPlan.Resolution

/-!
# When there is a schedule

A schedule exists exactly if every needed name is a declared project without a conflict, every dependency has a variant
and no needed project requires itself (`exists_schedule_eq_ok_iff`). Where one of these fails, the first of them decides
which error is reported (`schedule_eq_error`).
-/

namespace BuildPlan

open Relation

namespace Workspace

variable {w : Workspace} {t : Target} {roots : List String} {strict : Bool}

/-! ### When a target can be resolved -/

/-- Every needed name is a declared project. -/
def AllDeclared (w : Workspace) (t : Target) (roots : List String) : Prop :=
  ∀ x, w.Needed t roots x → x ∈ w.projects.names

/-- In strict mode no needed project has a conflict. -/
def AllAgreeing (w : Workspace) (strict : Bool) (t : Target) (roots : List String) : Prop :=
  ∀ x p, w.Needed t roots x → w.projects.get? x = some p → w.Agreeing strict p t

/-- Every dependency of a needed project has a variant. -/
def AllVariants (w : Workspace) (t : Target) (roots : List String) : Prop :=
  ∀ a b, w.Needed t roots a → w.Requires t a b → ∃ q, w.projects.get? b = some q ∧ w.HasVariant q t

/-- No needed project requires itself, directly or through others. -/
def Acyclic (w : Workspace) (t : Target) (roots : List String) : Prop :=
  ∀ a, w.Needed t roots a → ¬TransGen (w.Requires t) a a

theorem exists_ofRoots_iff_declared :
    (∃ d, Discovery.ofRoots w strict roots t = .ok d) ↔ w.AllDeclared t roots ∧ w.AllAgreeing strict t roots := by
  rw [Discovery.exists_ofRoots_eq_ok_iff]
  constructor
  · intro h
    refine ⟨fun x hx => ?_, fun x p hx hp => ?_⟩
    · obtain ⟨p, hp, -⟩ := h x hx
      exact Catalog.mem_names_of_get? hp
    · obtain ⟨q, hq, ha⟩ := h x hx
      rw [hp, Option.some.injEq] at hq
      exact hq ▸ ha
  · rintro ⟨hdecl, hagree⟩ x hx
    obtain ⟨p, hp⟩ := Catalog.mem_names_iff.mp (hdecl x hx)
    exact ⟨p, hp, hagree x p hx hp⟩

theorem needed_closed (w : Workspace) (t : Target) (roots : List String) :
    ∀ a b, w.Needed t roots a → w.Requires t a b → w.Needed t roots b := fun _ _ ha hab => ha.tail hab

/-- The graph of a discovery has no cycle exactly if the needed projects have none. -/
theorem acyclic_iff {d : Discovery} (hd : Discovered w t (w.Needed t roots) d) :
    w.Acyclic t roots ↔ ∀ a, ¬TransGen d.graph.Edge a a := by
  constructor
  · intro h a haa
    obtain ⟨b, hab, -⟩ := TransGen.head'_iff.mp haa
    have ha := (hd.edge_iff.mp hab).1
    exact h a ha ((hd.transGen_edge_iff (w.needed_closed t roots) ha).mp haa)
  · exact fun h a ha haa => h a ((hd.transGen_edge_iff (w.needed_closed t roots) ha).mpr haa)

/-- Where a list with dependencies first holds the roots, it holds every needed name, and no needed project requires
itself. -/
theorem needed_of_dependenciesFirst {order : List String} (h : DependenciesFirst (w.Requires t) order)
    (hr : ∀ x ∈ roots, x ∈ order) : (∀ x, w.Needed t roots x → x ∈ order) ∧ w.Acyclic t roots := by
  have hall : ∀ x, w.Needed t roots x → x ∈ order := by
    rintro x ⟨a, ha, hax⟩
    induction hax with
    | refl => exact hr a ha
    | tail _ hbc ih => exact h.mem ih hbc
  exact ⟨hall, fun a ha => h.irrefl a (hall a ha)⟩

/-! ### Schedules -/

theorem schedule_eq_ok_iff {s : Schedule} :
    w.schedule strict roots t = .ok s ↔ Discovery.ofRoots w strict roots t = .ok s.discovery ∧
      s.discovery.graph.validate = .ok () ∧
      s.discovery.checkVariants w s.discovery.graph.nodes.items = .ok () ∧
      s.discovery.graph.topologicalOrder = .ok s.order ∧ s.discovery.graph.parallelGroups = .ok s.waves := by
  unfold schedule
  simp only [bind_eq_ok_iff]
  constructor
  · rintro ⟨d, hd, _, hv, _, hc, order, ho, waves, hw, h⟩
    cases h
    exact ⟨hd, hv, hc, ho, hw⟩
  · rintro ⟨hd, hv, hc, ho, hw⟩
    exact ⟨_, hd, _, hv, _, hc, _, ho, _, hw, rfl⟩

/-- What comes of a schedule that fails: the discovery fails, or a dependency has no variant, or there is a cycle. Every
dependency of what was discovered is a node, so validation cannot fail. -/
theorem schedule_error_cases {e : BuildError} (h : w.schedule strict roots t = .error e) :
    Discovery.ofRoots w strict roots t = .error e ∨ ∃ d, Discovery.ofRoots w strict roots t = .ok d ∧
      (d.checkVariants w d.graph.nodes.items = .error e ∨
        d.checkVariants w d.graph.nodes.items = .ok () ∧ (∃ a, TransGen d.graph.Edge a a) ∧ e = d.graph.cyclic) := by
  unfold schedule at h
  rcases bind_eq_error_iff.mp h with h | ⟨d, hof, h⟩
  · exact Or.inl h
  have hclosed := (Discovery.discovered_of_ofRoots hof).closed (w.needed_closed t roots)
  refine Or.inr ⟨d, hof, ?_⟩
  rcases bind_eq_error_iff.mp h with h | ⟨_, -, h⟩
  · rw [hclosed.validate] at h
    cases h
  rcases bind_eq_error_iff.mp h with h | ⟨_, hcheck, h⟩
  · exact Or.inl h
  refine Or.inr ⟨hcheck, ?_, ?_⟩
  · by_contra hac
    rw [not_exists] at hac
    rw [TargetGraph.topologicalOrder_of_not_cycle hclosed hac, TargetGraph.parallelGroups_of_not_cycle hclosed hac] at h
    cases h
  · rcases bind_eq_error_iff.mp h with h | ⟨_, -, h⟩
    · exact TargetGraph.topologicalOrder_eq_error h
    · rcases bind_eq_error_iff.mp h with h | ⟨_, -, h⟩
      · exact TargetGraph.parallelGroups_eq_error h
      · cases h

/-- The variant check fails with a needed project and a dependency of it that has no variant. -/
theorem missing_of_checkVariants {d : Discovery} {e : BuildError} (hof : Discovery.ofRoots w strict roots t = .ok d)
    (h : d.checkVariants w d.graph.nodes.items = .error e) :
    ∃ a b q, w.Needed t roots a ∧ w.Requires t a b ∧ w.projects.get? b = some q ∧ ¬w.HasVariant q t ∧
      e = .missingVariant b a t := by
  have hfound := Discovery.discovered_of_ofRoots hof
  have hdecl : ∀ n ∈ d.graph.nodes.items, ∀ b ∈ n.dependencies.names, b ∈ w.projects.names := by
    intro n hn b hb
    obtain ⟨ha, hab⟩ := hfound.requires_of_mem hn hb
    exact (exists_ofRoots_iff_declared.mp ⟨d, hof⟩).1 b (ha.tail hab)
  obtain ⟨n, hn, b, hb, q, hq, hvariant, rfl⟩ := Discovery.checkVariants_eq_error hdecl h
  obtain ⟨ha, hab⟩ := hfound.requires_of_mem hn hb
  refine ⟨n.name, b, q, ha, hab, hq, fun hhas => ?_, by rw [hfound.target]⟩
  rw [(hfound.hasVariant_iff (ha.tail hab) hq).mpr hhas] at hvariant
  cases hvariant

/-- The three reasons for which there is no schedule, each of which excludes those before it. -/
theorem schedule_eq_error {e : BuildError} (h : w.schedule strict roots t = .error e) :
    (¬(w.AllDeclared t roots ∧ w.AllAgreeing strict t roots) ∧
      ((∃ name reference, e = .unknownProject name reference) ∨ ∃ project conflict, e = .scalarConflict project conflict)) ∨
    ((w.AllDeclared t roots ∧ w.AllAgreeing strict t roots) ∧ ¬w.AllVariants t roots ∧
      ∃ dependency dependent, e = .missingVariant dependency dependent t) ∨
    ((w.AllDeclared t roots ∧ w.AllAgreeing strict t roots) ∧ w.AllVariants t roots ∧ ¬w.Acyclic t roots ∧
      ∃ cycle, e = .cyclicDependency t cycle) := by
  rcases schedule_error_cases h with h | ⟨d, hof, h⟩
  · refine Or.inl ⟨fun hc => ?_, Discovery.ofRoots_eq_error h⟩
    obtain ⟨d, hd⟩ := exists_ofRoots_iff_declared.mpr hc
    rw [h] at hd
    cases hd
  have hfound := Discovery.discovered_of_ofRoots hof
  have hsound := exists_ofRoots_iff_declared.mp ⟨d, hof⟩
  rcases h with h | ⟨hcheck, ⟨a, haa⟩, rfl⟩
  · obtain ⟨a, b, q, ha, hab, hq, hvariant, rfl⟩ := missing_of_checkVariants hof h
    refine Or.inr (Or.inl ⟨hsound, fun hc => ?_, b, a, rfl⟩)
    obtain ⟨q', hq', hhas⟩ := hc a b ha hab
    rw [hq, Option.some.injEq] at hq'
    exact hvariant (hq' ▸ hhas)
  · refine Or.inr (Or.inr ⟨hsound, (hfound.checkVariants_eq_ok_iff (w.needed_closed t roots)).mp hcheck, fun hc => ?_, ?_⟩)
    · exact (acyclic_iff hfound).mp hc a haa
    · exact ⟨_, by rw [TargetGraph.cyclic, hfound.target]⟩

/-- There is a schedule exactly if every needed name is a declared project without a conflict, every dependency has a
variant and there is no cycle. -/
theorem exists_schedule_eq_ok_iff :
    (∃ s, w.schedule strict roots t = .ok s) ↔
      w.AllDeclared t roots ∧ w.AllAgreeing strict t roots ∧ w.AllVariants t roots ∧ w.Acyclic t roots := by
  constructor
  · rintro ⟨s, h⟩
    obtain ⟨hof, -, hcheck, horder, -⟩ := schedule_eq_ok_iff.mp h
    have hfound := Discovery.discovered_of_ofRoots hof
    obtain ⟨hdecl, hagree⟩ := exists_ofRoots_iff_declared.mp ⟨_, hof⟩
    exact ⟨hdecl, hagree, (hfound.checkVariants_eq_ok_iff (w.needed_closed t roots)).mp hcheck,
      (acyclic_iff hfound).mpr (TargetGraph.isOrder_of_topologicalOrder horder).not_cycle⟩
  · rintro ⟨hdecl, hagree, hvar, hac⟩
    cases h : w.schedule strict roots t with
    | ok s => exact ⟨s, rfl⟩
    | error e =>
      rcases schedule_eq_error h with ⟨hn, -⟩ | ⟨-, hn, -⟩ | ⟨-, -, hn, -⟩
      · exact (hn ⟨hdecl, hagree⟩).elim
      · exact (hn hvar).elim
      · exact (hn hac).elim

end Workspace

end BuildPlan
