import BuildPlan.Proofs.Resolution.Outcome

/-!
# The order of a resolution

The order holds the needed names once, every project after all that it depends on, and there is one descriptor for each of
them in its place. The dependencies that a descriptor lists are the part of the order that its project requires, directly
or through others.
-/

namespace BuildPlan

open Relation

namespace Resolved

variable {w : Workspace} {t : Target} {roots : List String} {d : Discovery} {r : Resolution} {store : DescriptorStore}
  {e : Descriptor}

/-- A descriptor lists exactly what its project requires, directly or through others. -/
theorem mem_dependencies_iff (h : Resolved w t roots d r store) (he : e ∈ r.descriptors) {x : String} :
    x ∈ e.dependencies ↔ TransGen (w.Requires t) e.project x := by
  have hmem := (h.of_mem_descriptors he).1
  rw [h.dependencies_eq he, List.mem_filter, List.contains_iff_mem, h.mem_transitiveDependencies_iff hmem]
  exact and_iff_right_of_imp (h.dependenciesFirst.transGen.mem hmem)

/-- The dependencies of a descriptor stand in the order of the resolution. -/
theorem dependencies_sublist (h : Resolved w t roots d r store) (he : e ∈ r.descriptors) :
    e.dependencies.Sublist r.order := by
  rw [h.dependencies_eq he]
  exact List.filter_sublist

/-- Every listed dependency comes after all that it requires. -/
theorem dependenciesFirst_dependencies (h : Resolved w t roots d r store) (he : e ∈ r.descriptors) :
    DependenciesFirst (w.Requires t) e.dependencies := by
  have hmem := (h.of_mem_descriptors he).1
  rw [h.dependencies_eq he]
  refine h.dependenciesFirst.filter ?_
  intro a b ha hab
  rw [List.contains_iff_mem, h.mem_transitiveDependencies_iff hmem] at ha ⊢
  exact ha.tail hab

end Resolved

/-- The order of a resolution is the needed names, each once and after everything it requires, directly or through others,
and the descriptors stand in their places. A descriptor lists exactly the part of the order that its project requires,
directly or through others. So it lists no name twice, not its own project, and a dependency after the dependencies of
this one. -/
theorem order_and_dependencies {w : Workspace} {strict : Bool} {roots : List String} {t : Target}
    {store store' : DescriptorStore} {r : Resolution} (h : w.resolve strict roots t store = (.ok r, store')) :
    (r.order.Nodup ∧ (∀ x, x ∈ r.order ↔ w.Needed t roots x) ∧ DependenciesFirst (TransGen (w.Requires t)) r.order) ∧
    r.descriptors.map Descriptor.project = r.order ∧
    ∀ e ∈ r.descriptors,
      (e.dependencies.Sublist r.order ∧ ∀ x, x ∈ e.dependencies ↔ TransGen (w.Requires t) e.project x) ∧
      e.dependencies.Nodup ∧ e.project ∉ e.dependencies ∧ DependenciesFirst (w.Requires t) e.dependencies := by
  obtain ⟨d, hr⟩ := Workspace.exists_resolved h
  refine ⟨⟨hr.isOrder.nodup, fun x => hr.mem_order_iff, hr.dependenciesFirst.transGen⟩, hr.map_project_descriptors, ?_⟩
  intro e he
  have hsub := hr.dependencies_sublist he
  refine ⟨⟨hsub, fun x => hr.mem_dependencies_iff he⟩, hsub.nodup hr.isOrder.nodup, ?_,
    hr.dependenciesFirst_dependencies he⟩
  rw [hr.mem_dependencies_iff he]
  exact hr.dependenciesFirst.irrefl _ (hr.of_mem_descriptors he).1

theorem order_and_dependencies_threeProjects :
    ∃ r store', Workspace.threeProjects.resolve true ["App"] {} {} = (.ok r, store') ∧ r.order.Nodup ∧
      (∀ x, x ∈ r.order ↔ Workspace.threeProjects.Needed {} ["App"] x) ∧
      r.descriptors.map Descriptor.project = r.order := by
  obtain ⟨r, store', h⟩ := Workspace.threeProjects_resolved true (by decide : ∀ x ∈ ["App"], x ∈ ["Core", "Lib", "App"])
  obtain ⟨⟨hnodup, hmem, -⟩, hproj, -⟩ := order_and_dependencies h
  exact ⟨r, store', h, hnodup, hmem, hproj⟩

end BuildPlan
