import BuildPlan.Proofs.Plan
import BuildPlan.Proofs.Resolution.Order
import BuildPlan.Proofs.Resolution.Publication

/-!
# What is emitted

A resolution can always be emitted: its descriptors stand in dependency order already, each for the target of the
resolution, so they are found again under the same names, and every dependency is emitted before the descriptor that lists
it (`Resolved.ofOrder_eq`). So every plan can be emitted, and the input of the executor is made of its
resolutions, one after the other (`ExecutorInput.ofOutcome_eq_ok`).
-/

namespace BuildPlan

namespace TargetPlan

/-- The plan of a resolution as it is. -/
def ofResolution (r : Resolution) : TargetPlan where
  key := r.target.key
  target := r.target
  order := r.order
  fingerprint := fingerprintOf r.descriptors
  descriptors := r.descriptors

/-- A target plan as the executor wants it: the descriptors stand in the places of their projects in the order, all of them
for the target of the plan, and every dependency of a descriptor is the project of an earlier one. -/
structure ProducersFirst (p : TargetPlan) : Prop where
  inOrder : p.descriptors.map Descriptor.project = p.order
  forTarget : ∀ e ∈ p.descriptors, e.target = p.key
  producers : ∀ (i : Nat) (hi : i < p.descriptors.length), ∀ dep ∈ p.descriptors[i].dependencies,
    ∃ (j : Nat) (hj : j < i), p.descriptors[j].project = dep

end TargetPlan

namespace Resolved

variable {w : Workspace} {t : Target} {roots : List String} {d : Discovery} {r : Resolution} {store : DescriptorStore}

/-- The descriptors of a resolution are for its target. -/
theorem target_of_mem_descriptors (h : Resolved w t roots d r store) {e : Descriptor} (he : e ∈ r.descriptors) :
    e.target = r.target.key := by
  obtain ⟨-, p, inherited, -, -, heq⟩ := h.found.describe_eq_ok_iff.mp (h.of_mem_descriptors he).2.2
  rw [h.target]
  exact (congrArg Descriptor.target heq).trans (congrArg Target.key (w.localConfiguration_frame p t).2.1)

/-- What a descriptor lists as its dependencies are projects of descriptors before it. -/
theorem mem_projects_before (h : Resolved w t roots d r store) {before after : List Descriptor} {e : Descriptor}
    (heq : r.descriptors = before ++ e :: after) : ∀ dep ∈ e.dependencies, dep ∈ before.map Descriptor.project := by
  intro dep hdep
  have he : e ∈ r.descriptors := by rw [heq]; exact List.mem_append_right _ List.mem_cons_self
  have horder : r.order = before.map Descriptor.project ++ e.project :: after.map Descriptor.project := by
    rw [← h.map_project_descriptors, heq, List.map_append, List.map_cons]
  exact h.dependenciesFirst.transGen _ _ _ horder dep ((h.mem_dependencies_iff he).mp hdep)

/-- Every descriptor of a resolution is the first one for its project. -/
theorem supplies (h : Resolved w t roots d r store) {e : Descriptor} (he : e ∈ r.descriptors) :
    TargetPlan.Supplies r.target r.descriptors e.project e := by
  obtain ⟨before, after, heq⟩ := List.append_of_mem he
  have hnodup : (r.descriptors.map Descriptor.project).Nodup := h.nodup_descriptors
  rw [heq, List.map_append, List.map_cons, List.nodup_append] at hnodup
  refine ⟨before, after, heq, ⟨rfl, h.target_of_mem_descriptors he⟩, ?_⟩
  rintro e' he' ⟨hproject, -⟩
  exact hnodup.2.2 _ (List.mem_map_of_mem he') _ List.mem_cons_self hproject

theorem grounded (h : Resolved w t roots d r store) :
    Throughout (TargetPlan.Grounded r.target r.descriptors) r.order := by
  intro before name after heq e he dep hdep
  obtain rfl := he.project
  exact h.dependenciesFirst.transGen _ _ _ heq dep ((h.mem_dependencies_iff he.mem).mp hdep)

/-- A resolution is emitted as it is. -/
theorem ofOrder_eq (h : Resolved w t roots d r store) :
    TargetPlan.ofOrder r.target r.order r.descriptors = .ok (TargetPlan.ofResolution r) := by
  have hselect : List.Forall₂ (TargetPlan.Supplies r.target r.descriptors) r.order r.descriptors := by
    rw [← h.map_project_descriptors, List.forall₂_map_left_iff, List.forall₂_same]
    exact fun e he => h.supplies he
  exact TargetPlan.ofOrder_eq_ok_iff.mpr ⟨h.grounded, r.descriptors, hselect, rfl⟩

/-- In the plan of a resolution the producers come first. -/
theorem producersFirst (h : Resolved w t roots d r store) : (TargetPlan.ofResolution r).ProducersFirst where
  inOrder := h.map_project_descriptors
  forTarget := fun e he => h.target_of_mem_descriptors he
  producers := by
    intro i hi dep hdep
    have hlt : i < r.descriptors.length := hi
    have heq : r.descriptors = r.descriptors.take i ++ r.descriptors[i] :: r.descriptors.drop (i + 1) := by
      rw [List.getElem_cons_drop, List.take_append_drop]
    obtain ⟨e, he, rfl⟩ := List.mem_map.mp (h.mem_projects_before heq dep hdep)
    obtain ⟨j, hj, rfl⟩ := List.mem_take_iff_getElem.mp he
    exact ⟨j, by omega, rfl⟩

end Resolved

namespace ExecutorInput

theorem plansOf_eq_ok {resolutions : List Resolution}
    (h : ∀ r ∈ resolutions, TargetPlan.ofOrder r.target r.order r.descriptors = .ok (TargetPlan.ofResolution r)) :
    plansOf resolutions = .ok (resolutions.map TargetPlan.ofResolution) := by
  induction resolutions with
  | nil => rfl
  | cons r resolutions ih =>
    unfold plansOf
    rw [h r List.mem_cons_self, ih (fun r' hr' => h r' (List.mem_cons_of_mem _ hr'))]
    rfl

/-- The input that is made of the resolutions of a plan as they are. -/
def ofResolutions (o : PlanOutcome) : ExecutorInput where
  formatVersion := currentVersion
  solution := o.solution
  startupProject := o.startupProject
  targets := o.resolutions.map TargetPlan.ofResolution

/-- Every plan can be emitted. -/
theorem ofOutcome_eq_ok {w : Workspace} {config : PlanConfig} {o : PlanOutcome} (h : w.plan config = .ok o) :
    ofOutcome o = .ok (ofResolutions o) := by
  have hplans : plansOf o.resolutions = .ok (o.resolutions.map TargetPlan.ofResolution) := by
    refine plansOf_eq_ok (fun r hr => ?_)
    obtain ⟨roots, store, store', hresolve⟩ := Workspace.exists_resolve_of_plan h hr
    obtain ⟨d, hresolved⟩ := Workspace.exists_resolved hresolve
    exact hresolved.ofOrder_eq
  unfold ofOutcome
  exact bind_eq_ok_iff.mpr ⟨_, hplans, rfl⟩

/-- In every target that is emitted the producers come first. -/
theorem producersFirst_of_plan {w : Workspace} {config : PlanConfig} {o : PlanOutcome} (h : w.plan config = .ok o) :
    ∀ p ∈ (ofResolutions o).targets, p.ProducersFirst := by
  intro p hp
  obtain ⟨r, hr, rfl⟩ := List.mem_map.mp hp
  obtain ⟨roots, store, store', hresolve⟩ := Workspace.exists_resolve_of_plan h hr
  obtain ⟨d, hresolved⟩ := Workspace.exists_resolved hresolve
  exact hresolved.producersFirst

end ExecutorInput

end BuildPlan
