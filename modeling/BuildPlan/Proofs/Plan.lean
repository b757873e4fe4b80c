import BuildPlan.Proofs.Emission.Check
import BuildPlan.Proofs.Resolution.Outcome

/-!
# What a plan is made of

Every resolution of a plan is the outcome of resolving one of the planned targets on some store
(`exists_resolve_of_plan`), every descriptor that is written for the executor is one of these resolutions
(`mem_descriptors_of_written`), and a project is compiled exactly if it can be resolved alone
(`exists_compile_eq_ok`).
-/

namespace BuildPlan

namespace Workspace

variable {w : Workspace} {strict : Bool}

/-- A resolution of some targets one after the other resolves one of them, on the store that those before it leave. -/
theorem exists_resolve_of_resolveAll {planned : List PlannedTarget} {store : DescriptorStore} {t : Target}
    {result : Except BuildError Resolution} (h : (t, result) ∈ w.resolveAll strict store planned) :
    ∃ p ∈ planned, p.target = t ∧ ∃ s, (w.resolve strict p.roots p.target s).1 = result := by
  induction planned generalizing store with
  | nil => cases h
  | cons p planned ih =>
    rcases List.mem_cons.mp h with h | h
    · rw [Prod.mk.injEq] at h
      exact ⟨p, by simp, h.1.symm, store, h.2.symm⟩
    · obtain ⟨q, hq, hqt, s, hs⟩ := ih h
      exact ⟨q, by simp [hq], hqt, s, hs⟩

theorem mem_succeeded {results : List (Target × Except BuildError Resolution)} {r : Resolution} :
    r ∈ succeeded results ↔ ∃ t, (t, .ok r) ∈ results := by
  unfold succeeded
  rw [List.mem_filterMap]
  constructor
  · rintro ⟨⟨t, result⟩, hmem, h⟩
    cases result with
    | error e => cases h
    | ok r' =>
      cases h
      exact ⟨t, hmem⟩
  · rintro ⟨t, hmem⟩
    exact ⟨(t, .ok r), hmem, rfl⟩

theorem plan_eq_ok {config : PlanConfig} {o : PlanOutcome} (h : w.plan config = .ok o) :
    ∃ planned, w.plannedTargets config = .ok planned ∧
      o.resolutions = succeeded (w.resolveAll config.strict {} planned) := by
  unfold plan at h
  obtain ⟨planned, hp, h⟩ := bind_eq_ok_iff.mp h
  cases h
  exact ⟨planned, hp, rfl⟩

theorem exists_plan_eq_ok {config : PlanConfig} {planned : List PlannedTarget} (h : w.plannedTargets config = .ok planned) :
    ∃ o, w.plan config = .ok o ∧ o.resolutions = succeeded (w.resolveAll config.strict {} planned) := by
  unfold plan
  rw [h]
  exact ⟨_, rfl, rfl⟩

/-- Every resolution of a plan comes from resolving a planned target on some store. -/
theorem exists_resolve_of_plan {config : PlanConfig} {o : PlanOutcome} (h : w.plan config = .ok o) {r : Resolution}
    (hr : r ∈ o.resolutions) : ∃ roots store store', w.resolve config.strict roots r.target store = (.ok r, store') := by
  obtain ⟨planned, -, ho⟩ := plan_eq_ok h
  rw [ho, mem_succeeded] at hr
  obtain ⟨t, ht⟩ := hr
  obtain ⟨p, -, -, s, hs⟩ := exists_resolve_of_resolveAll ht
  obtain ⟨result, store', heq⟩ : ∃ result store', w.resolve config.strict p.roots p.target s = (result, store') :=
    ⟨_, _, rfl⟩
  rw [heq] at hs
  cases hs
  obtain ⟨d, hres⟩ := exists_resolved heq
  exact ⟨p.roots, s, store', by rw [hres.target]; exact heq⟩

/-! ### Compiling one project -/

/-- What is compiled is the descriptor of the project in a resolution with the project as its root. -/
theorem compile_eq_ok {name : String} {t : Target} {e : Descriptor} (h : w.compile strict name t = .ok e) :
    ∃ r store, w.resolve strict [name] t {} = (.ok r, store) ∧ e ∈ r.descriptors ∧ e.project = name := by
  unfold compile at h
  obtain ⟨r, hr, h⟩ := bind_eq_ok_iff.mp h
  split at h
  · rename_i e' hfind
    cases h
    exact ⟨r, _, Prod.ext hr rfl, List.mem_of_find?_eq_some hfind, by simpa using List.find?_some hfind⟩
  · cases h

/-- A project that can be resolved alone is compiled. -/
theorem exists_compile_eq_ok {name : String} {t : Target} {r : Resolution} {store : DescriptorStore}
    (h : w.resolve strict [name] t {} = (.ok r, store)) : ∃ e, w.compile strict name t = .ok e := by
  obtain ⟨d, hr⟩ := exists_resolved h
  have hname : name ∈ r.descriptors.map Descriptor.project := by
    rw [hr.map_project_descriptors, hr.mem_order_iff]
    exact ⟨name, by simp, Relation.ReflTransGen.refl⟩
  obtain ⟨e, he, hproj⟩ := List.mem_map.mp hname
  unfold compile
  rw [h]
  dsimp only [bind, Except.bind]
  cases hfind : r.descriptors.find? (fun d => d.project == name) with
  | none => exact absurd (List.find?_eq_none.mp hfind e he) (by simp [hproj])
  | some e' => exact ⟨e', rfl⟩

end Workspace

/-! ### What is written -/

namespace TargetPlan

/-- A target plan is made of descriptors that it was given. -/
theorem ofOrder_eq_ok {t : Target} {order : List String} {descriptors : List Descriptor} {p : TargetPlan}
    (h : ofOrder t order descriptors = .ok p) : p.target = t ∧ ∀ e ∈ p.descriptors, e ∈ descriptors := by
  obtain ⟨-, selected, hselect, rfl⟩ := ofOrder_eq_ok_iff.mp h
  refine ⟨rfl, fun e he => ?_⟩
  obtain ⟨name, -, hsupplies⟩ := exists_of_mem_forall₂ hselect he
  exact hsupplies.mem

end TargetPlan

namespace ExecutorInput

theorem exists_of_mem_plansOf {resolutions : List Resolution} {plans : List TargetPlan} (h : plansOf resolutions = .ok plans)
    {p : TargetPlan} (hp : p ∈ plans) :
    ∃ r ∈ resolutions, TargetPlan.ofOrder r.target r.order r.descriptors = .ok p := by
  induction resolutions generalizing plans with
  | nil =>
    cases h
    exact absurd hp List.not_mem_nil
  | cons r resolutions ih =>
    unfold plansOf at h
    obtain ⟨plan, hplan, h⟩ := bind_eq_ok_iff.mp h
    obtain ⟨more, hmore, h⟩ := bind_eq_ok_iff.mp h
    cases h
    rcases List.mem_cons.mp hp with rfl | hp
    · exact ⟨r, by simp, hplan⟩
    · obtain ⟨r', hr', h'⟩ := ih hmore hp
      exact ⟨r', by simp [hr'], h'⟩

/-- Every descriptor that is written is one of a resolution of the plan, for the same target. -/
theorem mem_descriptors_of_written {o : PlanOutcome} {input : ExecutorInput} (h : ofOutcome o = .ok input)
    {p : TargetPlan} (hp : p ∈ input.targets) {e : Descriptor} (he : e ∈ p.descriptors) :
    ∃ r ∈ o.resolutions, r.target = p.target ∧ e ∈ r.descriptors := by
  unfold ofOutcome at h
  obtain ⟨targets, htargets, h⟩ := bind_eq_ok_iff.mp h
  cases h
  obtain ⟨r, hr, hofOrder⟩ := exists_of_mem_plansOf htargets hp
  obtain ⟨ht, hsub⟩ := TargetPlan.ofOrder_eq_ok hofOrder
  exact ⟨r, hr, ht.symm, hsub e he⟩

end ExecutorInput

end BuildPlan
