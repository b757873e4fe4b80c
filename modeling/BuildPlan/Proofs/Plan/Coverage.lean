import BuildPlan.Proofs.Plan.Isolation
import BuildPlan.Proofs.Resolution.Extension

/-!
# What a plan covers

The targets of a plan are those that are asked for, each once, with the projects that ask for it as its roots: over all
projects of the workspace (`Workspace.Finished.plannedTargets_of_workspace`) or over the members of one solution
(`Workspace.Finished.plannedTargets_of_solution`). So every project has a descriptor or a failure for each of its targets,
and a resolution holds no project that is not built for its target (`plan_covers`).
-/

namespace BuildPlan

open Relation

namespace Workspace

variable {w : Workspace} {t : Target}

/-! ### The projects that are built for a target -/

/-- The projects that are built for a target, in the order of declaration. -/
def builtFor (w : Workspace) (t : Target) : List String :=
  (w.projects.items.filter (fun p => p.axes.contains t)).map Project.name

/-- The members of a solution that are built for a target, in their order. -/
def membersBuiltFor (w : Workspace) (s : Solution) (t : Target) : List String :=
  s.projects.filter (fun n => (w.projects.get? n).any (fun p => p.axes.contains t))

/-- The targets of all projects, in the order in which they first occur, with the projects that are built for them. -/
def declaredTargets (w : Workspace) : List PlannedTarget :=
  (w.projects.items.flatMap fun p => p.axes.combinations).eraseDups.map fun t => ⟨t, w.builtFor t⟩

/-- The targets of a solution that some member is built for, with these members. -/
def declaredTargetsOf (w : Workspace) (s : Solution) : List PlannedTarget :=
  (s.axes.combinations.filter fun t => !(w.membersBuiltFor s t).isEmpty).map fun t => ⟨t, w.membersBuiltFor s t⟩

/-- A project is built for a target exactly if it is declared and its axes contain the target. -/
theorem mem_builtFor {n : String} :
    n ∈ w.builtFor t ↔ ∃ p, w.projects.get? n = some p ∧ p.axes.contains t = true := by
  unfold builtFor
  rw [List.mem_map]
  constructor
  · rintro ⟨p, hp, rfl⟩
    obtain ⟨hp, ht⟩ := List.mem_filter.mp hp
    exact ⟨p, Catalog.get?_name hp, ht⟩
  · rintro ⟨p, hp, ht⟩
    exact ⟨p, List.mem_filter.mpr ⟨Catalog.mem_of_get? hp, ht⟩, Catalog.name_of_get? hp⟩

/-- The members built for a target are those that are declared and whose axes contain it. -/
theorem mem_membersBuiltFor {s : Solution} {n : String} :
    n ∈ w.membersBuiltFor s t ↔ n ∈ s.projects ∧ ∃ p, w.projects.get? n = some p ∧ p.axes.contains t = true := by
  unfold membersBuiltFor
  rw [List.mem_filter, Option.any_eq_true]

/-- A target of a list with the roots that it is given. -/
theorem mem_map_plannedTarget {l : List Target} {roots : Target → List String} {x : PlannedTarget} :
    x ∈ l.map (fun t => ⟨t, roots t⟩) ↔ x.target ∈ l ∧ x.roots = roots x.target := by
  rw [List.mem_map]
  constructor
  · rintro ⟨t, ht, rfl⟩
    exact ⟨ht, rfl⟩
  · rintro ⟨ht, hroots⟩
    exact ⟨x.target, ht, by rw [← hroots]⟩

/-- The declared targets are those of some project, each with all the projects built for it. -/
theorem mem_declaredTargets {x : PlannedTarget} :
    x ∈ w.declaredTargets ↔
      (∃ p ∈ w.projects.items, p.axes.contains x.target = true) ∧ x.roots = w.builtFor x.target := by
  simp only [declaredTargets, mem_map_plannedTarget, List.mem_eraseDups, List.mem_flatMap, TargetAxes.mem_combinations]

/-- The declared targets of a solution are those of its axes and of some member, each with all the members built for it. -/
theorem mem_declaredTargetsOf {s : Solution} {x : PlannedTarget} :
    x ∈ w.declaredTargetsOf s ↔
      s.axes.contains x.target = true ∧
        (∃ n ∈ s.projects, ∃ p, w.projects.get? n = some p ∧ p.axes.contains x.target = true) ∧
        x.roots = w.membersBuiltFor s x.target := by
  simp only [declaredTargetsOf, mem_map_plannedTarget, List.mem_filter, TargetAxes.mem_combinations, Bool.not_eq_true',
    List.isEmpty_eq_false_iff_exists_mem, mem_membersBuiltFor, and_assoc]

/-- No target is declared without a project that is built for it. -/
theorem roots_declaredTargets_ne_nil {x : PlannedTarget} (hx : x ∈ w.declaredTargets) : x.roots ≠ [] := by
  obtain ⟨⟨p, hp, ht⟩, hroots⟩ := mem_declaredTargets.mp hx
  rw [hroots]
  exact List.ne_nil_of_mem (mem_builtFor.mpr ⟨p, Catalog.get?_name hp, ht⟩)

/-- Every declared target of a solution has a root. -/
theorem roots_declaredTargetsOf_ne_nil {s : Solution} {x : PlannedTarget} (hx : x ∈ w.declaredTargetsOf s) :
    x.roots ≠ [] := by
  obtain ⟨-, ⟨n, hn, hbuilt⟩, hroots⟩ := mem_declaredTargetsOf.mp hx
  rw [hroots]
  exact List.ne_nil_of_mem (mem_membersBuiltFor.mpr ⟨hn, hbuilt⟩)

/-- In a finished workspace the targets of a project are the combinations of its axes. -/
theorem Finished.targets_eq (h : w.Finished) {p : Project} (hp : p ∈ w.projects.items) :
    p.targets = .ok p.axes.combinations := TargetAxes.expand_eq_ok (h.axes p hp)

/-- In a finished workspace the targets of projects are found without failure. -/
theorem Finished.targetLists_eq (h : w.Finished) {l : List Project} (hl : ∀ p ∈ l, p ∈ w.projects.items) :
    targetLists l = .ok (l.map fun p => p.axes.combinations) := by
  induction l with
  | nil => rfl
  | cons p l ih =>
    unfold targetLists
    rw [h.targets_eq (hl p List.mem_cons_self), ih (fun q hq => hl q (List.mem_cons_of_mem _ hq))]
    rfl

/-- In a finished workspace the projects that support a target are those whose axes contain it. -/
theorem Finished.supporting_eq (h : w.Finished) {l : List Project} (hl : ∀ p ∈ l, p ∈ w.projects.items) :
    supporting t l = .ok (l.filter fun p => p.axes.contains t) := by
  induction l with
  | nil => rfl
  | cons p l ih =>
    unfold supporting
    rw [h.targets_eq (hl p List.mem_cons_self), ih (fun q hq => hl q (List.mem_cons_of_mem _ hq)), List.filter_cons]
    dsimp only [bind, Except.bind, pure, Except.pure]
    rw [TargetAxes.contains_combinations]

/-- In a finished workspace the members for a target are those whose axes contain it. -/
theorem Finished.membersFor_eq (h : w.Finished) {l : List String} (hl : ∀ n ∈ l, n ∈ w.projects.names) :
    w.membersFor t l = .ok (l.filter fun n => (w.projects.get? n).any fun p => p.axes.contains t) := by
  induction l with
  | nil => rfl
  | cons n l ih =>
    obtain ⟨p, hp⟩ := Catalog.mem_names_iff.mp (hl n List.mem_cons_self)
    unfold membersFor
    rw [Discovery.project_eq_ok_iff.mpr hp, ih (fun m hm => hl m (List.mem_cons_of_mem _ hm)), List.filter_cons, hp]
    dsimp only [bind, Except.bind, pure, Except.pure]
    rw [h.targets_eq (Catalog.mem_of_get? hp)]
    dsimp only
    rw [TargetAxes.contains_combinations]
    rfl

/-! ### The planned targets -/

/-- In a finished workspace each target gets as roots all the projects built for it. -/
theorem Finished.workspaceTargets_eq (h : w.Finished) (ts : List Target) :
    w.workspaceTargets ts = .ok (ts.map fun t => ⟨t, w.builtFor t⟩) := by
  induction ts with
  | nil => rfl
  | cons t ts ih =>
    unfold workspaceTargets projectsFor
    rw [h.supporting_eq (fun _ hp => hp), ih]
    rfl

/-- Without a solution the declared targets are planned. -/
theorem Finished.allPlanned_none (h : w.Finished) : w.allPlanned none = .ok w.declaredTargets := by
  unfold allPlanned targets
  rw [h.targetLists_eq (fun _ hp => hp)]
  dsimp only [bind, Except.bind, pure, Except.pure]
  rw [unionTargets, distinct_eq_eraseDups, h.workspaceTargets_eq, declaredTargets, List.flatMap]

/-- For a solution each target gets as roots the members built for it, and a target without such members is left out. -/
theorem Finished.solutionTargets_eq (h : w.Finished) {s : Solution} (hs : s ∈ w.solutions.items) (ts : List Target) :
    w.solutionTargets s ts =
      .ok ((ts.filter fun t => !(w.membersBuiltFor s t).isEmpty).map fun t => ⟨t, w.membersBuiltFor s t⟩) := by
  induction ts with
  | nil => rfl
  | cons t ts ih =>
    have hmembers : w.membersFor t s.projects = .ok (w.membersBuiltFor s t) :=
      h.membersFor_eq (fun n hn => h.members s hs n (List.mem_append_left _ hn))
    unfold solutionTargets
    rw [hmembers, ih, List.filter_cons]
    dsimp only [bind, Except.bind, pure, Except.pure]
    cases (w.membersBuiltFor s t).isEmpty <;> rfl

/-- With a solution its declared targets are planned. -/
theorem Finished.allPlanned_some (h : w.Finished) {s : Solution} (hs : s ∈ w.solutions.items) :
    w.allPlanned (some s.name) = .ok (w.declaredTargetsOf s) := by
  have hget : w.solutions.get? s.name = some s := Catalog.get?_name hs
  unfold allPlanned
  dsimp only
  rw [hget]
  dsimp only
  rw [TargetAxes.expand_eq_ok (h.solutionAxes s hs)]
  exact h.solutionTargets_eq hs _

/-- Without keys everything is planned. -/
theorem plannedTargets_of_no_keys {config : PlanConfig} (h : config.targets = []) :
    w.plannedTargets config = w.allPlanned config.solution := by
  unfold plannedTargets
  rw [h]
  cases w.allPlanned config.solution <;> rfl

/-- Without a solution, a plan is made for every target of every project, each one once in the order in which they first occur,
with the projects that are built for it. -/
theorem Finished.plannedTargets_of_workspace (h : w.Finished) {config : PlanConfig} (hkeys : config.targets = [])
    (hsolution : config.solution = none) : w.plannedTargets config = .ok w.declaredTargets := by
  rw [plannedTargets_of_no_keys hkeys, hsolution, h.allPlanned_none]

/-- With a solution, a plan is made for the targets of the solution that some member is built for, with these members. -/
theorem Finished.plannedTargets_of_solution (h : w.Finished) {s : Solution} (hs : s ∈ w.solutions.items)
    {config : PlanConfig} (hkeys : config.targets = []) (hsolution : config.solution = some s.name) :
    w.plannedTargets config = .ok (w.declaredTargetsOf s) := by
  rw [plannedTargets_of_no_keys hkeys, hsolution, h.allPlanned_some hs]

/-- A choice of keys leaves some of the planned targets. -/
theorem exists_allPlanned {config : PlanConfig} {planned : List PlannedTarget} (h : w.plannedTargets config = .ok planned) :
    ∃ all, w.allPlanned config.solution = .ok all ∧ ∀ x ∈ planned, x ∈ all := by
  unfold plannedTargets at h
  obtain ⟨all, hall, h⟩ := bind_eq_ok_iff.mp h
  refine ⟨all, hall, ?_⟩
  split at h
  · cases h
    exact fun _ hx => hx
  · obtain ⟨-, h⟩ := check_bind_eq_ok_iff.mp h
    cases h
    exact fun _ hx => (List.mem_filter.mp hx).1

/-- A planned target is one of all projects or one of a solution. -/
theorem Finished.mem_planned (h : w.Finished) {config : PlanConfig} {planned : List PlannedTarget}
    (hplanned : w.plannedTargets config = .ok planned) {x : PlannedTarget} (hx : x ∈ planned) :
    x ∈ w.declaredTargets ∨ ∃ s ∈ w.solutions.items, x ∈ w.declaredTargetsOf s := by
  obtain ⟨all, hall, hsub⟩ := exists_allPlanned hplanned
  have hmem := hsub x hx
  cases hsolution : config.solution with
  | none =>
    rw [hsolution, h.allPlanned_none, Except.ok.injEq] at hall
    exact Or.inl (hall ▸ hmem)
  | some name =>
    rw [hsolution] at hall
    cases hs : w.solutions.get? name with
    | none =>
      unfold allPlanned at hall
      dsimp only at hall
      rw [hs] at hall
      cases hall
    | some s =>
      have hname : s.name = name := Catalog.name_of_get? hs
      rw [← hname, h.allPlanned_some (Catalog.mem_of_get? hs), Except.ok.injEq] at hall
      exact Or.inr ⟨s, Catalog.mem_of_get? hs, hall ▸ hmem⟩

/-- The roots of a planned target are built for it. -/
theorem Finished.root_built (h : w.Finished) {config : PlanConfig} {planned : List PlannedTarget}
    (hplanned : w.plannedTargets config = .ok planned) {x : PlannedTarget} (hx : x ∈ planned) {n : String} (hn : n ∈ x.roots) :
    ∃ p, w.projects.get? n = some p ∧ p.axes.contains x.target = true := by
  rcases h.mem_planned hplanned hx with hmem | ⟨s, -, hmem⟩
  · rw [(mem_declaredTargets.mp hmem).2] at hn
    exact mem_builtFor.mp hn
  · rw [(mem_declaredTargetsOf.mp hmem).2.2] at hn
    exact (mem_membersBuiltFor.mp hn).2

/-- Some project is built for a planned target. -/
theorem Finished.exists_built (h : w.Finished) {config : PlanConfig} {planned : List PlannedTarget}
    (hplanned : w.plannedTargets config = .ok planned) {x : PlannedTarget} (hx : x ∈ planned) :
    ∃ p ∈ w.projects.items, p.axes.contains x.target = true := by
  rcases h.mem_planned hplanned hx with hmem | ⟨s, -, hmem⟩
  · exact (mem_declaredTargets.mp hmem).1
  · obtain ⟨-, ⟨n, -, p, hp, ht⟩, -⟩ := mem_declaredTargetsOf.mp hmem
    exact ⟨p, Catalog.mem_of_get? hp, ht⟩

/-! ### What becomes of the planned targets -/

/-- A plan has for each planned target what becomes of it alone. -/
theorem exists_outcome {config : PlanConfig} {planned : List PlannedTarget} (h : w.plannedTargets config = .ok planned) :
    ∃ o, w.plan config = .ok o ∧
      o.resolutions = planned.filterMap (fun x => (w.resolveAlone config.strict x).toOption) ∧
      o.failures = planned.filterMap (w.failureAlone? config.strict) := by
  have hall : w.resolveAll config.strict {} planned = planned.map fun x => (x.target, w.resolveAlone config.strict x) :=
    resolveAll_eq_map (nodup_plannedTargets h) (fun _ _ _ => rfl)
  unfold plan
  rw [h]
  refine ⟨_, rfl, ?_, ?_⟩
  · dsimp only
    rw [hall, succeeded_map_resolveAlone]
  · dsimp only
    rw [hall, failed_map_resolveAlone]

/-- A resolution that succeeds holds no project that is not built for the target, if its roots are built for it: a
dependency would have no variant. -/
theorem built_of_resolve {strict : Bool} {roots : List String} {store store' : DescriptorStore} {r : Resolution}
    (h : w.resolve strict roots t store = (.ok r, store'))
    (hroots : ∀ n ∈ roots, ∃ p, w.projects.get? n = some p ∧ p.axes.contains t = true) :
    ∀ x ∈ r.order, ∃ p, w.projects.get? x = some p ∧ p.axes.contains t = true := by
  obtain ⟨s, hs, hrun⟩ := resolve_eq_ok_iff.mp h
  obtain ⟨-, -, hvariants, -⟩ := exists_schedule_eq_ok_iff.mp ⟨s, hs⟩
  intro x hx
  obtain ⟨a, ha, hax⟩ := (resolved_of_run hs hrun).mem_order_iff.mp hx
  rcases ReflTransGen.cases_tail hax with rfl | ⟨b, hab, hbx⟩
  · exact hroots _ ha
  · obtain ⟨p, hp, hvariant⟩ := hvariants b x ⟨a, ha, hab⟩ hbx
    exact ⟨p, hp, hvariant.1⟩

/-- A plan answers for a project on a planned target: the target fails and the failure is reported, or there is a resolution of
the target with a descriptor of the project. -/
def Answers (w : Workspace) (strict : Bool) (o : PlanOutcome) (x : PlannedTarget) (project : String) : Prop :=
  (∃ e, w.resolveAlone strict x = .error e ∧ Failure.ofError x.target e ∈ o.failures) ∨
    ∃ r ∈ o.resolutions, r.target = x.target ∧ ∃ e ∈ r.descriptors, e.project = project

/-- A plan answers for the roots of every planned target. -/
theorem exists_answers {config : PlanConfig} {planned : List PlannedTarget} (h : w.plannedTargets config = .ok planned) :
    ∃ o, w.plan config = .ok o ∧ ∀ x ∈ planned, ∀ n ∈ x.roots, w.Answers config.strict o x n := by
  obtain ⟨o, ho, hresolutions, hfailures⟩ := exists_outcome h
  refine ⟨o, ho, fun x hx n hn => ?_⟩
  cases halone : w.resolveAlone config.strict x with
  | error e =>
    refine Or.inl ⟨e, halone, ?_⟩
    rw [hfailures, List.mem_filterMap]
    refine ⟨x, hx, ?_⟩
    rw [failureAlone?, halone]
  | ok r =>
    obtain ⟨d, hr⟩ := exists_resolved (Prod.ext halone rfl : w.resolve config.strict x.roots x.target {} = (.ok r, _))
    have hproject : n ∈ r.descriptors.map Descriptor.project := by
      rw [hr.map_project_descriptors, hr.mem_order_iff]
      exact ⟨n, hn, ReflTransGen.refl⟩
    obtain ⟨e, he, hen⟩ := List.mem_map.mp hproject
    refine Or.inr ⟨r, ?_, hr.target, e, he, hen⟩
    rw [hresolutions, List.mem_filterMap]
    exact ⟨x, hx, congrArg Except.toOption halone⟩

/-- The descriptors of a resolution of a plan are those of its projects, and every one of them is built for the target. -/
theorem Finished.built_of_plan (h : w.Finished) {config : PlanConfig} {o : PlanOutcome} (ho : w.plan config = .ok o)
    {r : Resolution} (hr : r ∈ o.resolutions) :
    r.descriptors.map Descriptor.project = r.order ∧
      ∀ x ∈ r.order, ∃ p, w.projects.get? x = some p ∧ p.axes.contains r.target = true := by
  obtain ⟨planned, hplanned, -⟩ := plan_eq_ok ho
  obtain ⟨o', ho', hresolutions, -⟩ := exists_outcome hplanned
  rw [ho, Except.ok.injEq] at ho'
  subst ho'
  rw [hresolutions, List.mem_filterMap] at hr
  obtain ⟨x, hx, halone⟩ := hr
  cases hres : w.resolveAlone config.strict x with
  | error e =>
    rw [hres] at halone
    cases halone
  | ok r' =>
    rw [hres] at halone
    cases halone
    have hresolve : w.resolve config.strict x.roots x.target {} = (.ok r, _) := Prod.ext hres rfl
    obtain ⟨d, hresolved⟩ := exists_resolved hresolve
    refine ⟨hresolved.map_project_descriptors, ?_⟩
    rw [hresolved.target]
    exact built_of_resolve hresolve (fun n hn => h.root_built hplanned hx hn)

end Workspace

/-- A plan covers what is declared. The targets of a project are those that its axes contain. Without a solution, the planned
targets are those of some project, in the order in which they first occur, each once and with the projects that are built for
it as roots. With a solution, they are the targets of the solution that some member is built for, with these members as
roots. So a plan answers for every project, or every member of the solution, on each of its targets. And whatever is asked
for, a resolution of a plan holds descriptors of projects that are built for its target only. -/
theorem plan_covers {d : Declarations} {w : Workspace} (hw : d.finish = .ok w) :
    (∀ p ∈ w.projects.items, p.targets = .ok p.axes.combinations ∧
      ∀ t, t ∈ p.axes.combinations ↔ p.axes.contains t = true) ∧
    (∀ config : PlanConfig, config.targets = [] → config.solution = none →
      w.plannedTargets config = .ok w.declaredTargets ∧
      (w.declaredTargets.map PlannedTarget.target).Nodup ∧
      (∀ x, x ∈ w.declaredTargets ↔
        (∃ p ∈ w.projects.items, p.axes.contains x.target = true) ∧ x.roots = w.builtFor x.target) ∧
      (∀ x ∈ w.declaredTargets, x.roots ≠ []) ∧
      ∃ o, w.plan config = .ok o ∧ ∀ p ∈ w.projects.items, ∀ t, p.axes.contains t = true →
        w.Answers config.strict o ⟨t, w.builtFor t⟩ p.name) ∧
    (∀ s ∈ w.solutions.items, ∀ config : PlanConfig, config.targets = [] → config.solution = some s.name →
      w.plannedTargets config = .ok (w.declaredTargetsOf s) ∧
      ((w.declaredTargetsOf s).map PlannedTarget.target).Nodup ∧
      (∀ x, x ∈ w.declaredTargetsOf s ↔ s.axes.contains x.target = true ∧
        (∃ n ∈ s.projects, ∃ p, w.projects.get? n = some p ∧ p.axes.contains x.target = true) ∧
        x.roots = w.membersBuiltFor s x.target) ∧
      (∀ x ∈ w.declaredTargetsOf s, x.roots ≠ []) ∧
      ∃ o, w.plan config = .ok o ∧ ∀ n ∈ s.projects, ∀ p, w.projects.get? n = some p → ∀ t, p.axes.contains t = true →
        s.axes.contains t = true → w.Answers config.strict o ⟨t, w.membersBuiltFor s t⟩ n) ∧
    ∀ (config : PlanConfig) (o : PlanOutcome), w.plan config = .ok o → ∀ r ∈ o.resolutions,
      r.descriptors.map Descriptor.project = r.order ∧
        ∀ x ∈ r.order, ∃ p, w.projects.get? x = some p ∧ p.axes.contains r.target = true := by
  have h := (Declarations.finish_eq_ok_iff.mp hw).2
  refine ⟨fun p hp => ⟨h.targets_eq hp, fun t => TargetAxes.mem_combinations⟩, ?_, ?_, fun config o ho r hr => h.built_of_plan ho hr⟩
  · intro config hkeys hsolution
    have hplanned := h.plannedTargets_of_workspace hkeys hsolution
    refine ⟨hplanned, Workspace.nodup_plannedTargets hplanned, fun x => Workspace.mem_declaredTargets,
      fun x hx => Workspace.roots_declaredTargets_ne_nil hx, ?_⟩
    obtain ⟨o, ho, hanswers⟩ := Workspace.exists_answers hplanned
    refine ⟨o, ho, fun p hp t ht => ?_⟩
    exact hanswers _ (Workspace.mem_declaredTargets.mpr ⟨⟨p, hp, ht⟩, rfl⟩) p.name
      (Workspace.mem_builtFor.mpr ⟨p, Catalog.get?_name hp, ht⟩)
  · intro s hs config hkeys hsolution
    have hplanned := h.plannedTargets_of_solution hs hkeys hsolution
    refine ⟨hplanned, Workspace.nodup_plannedTargets hplanned, fun x => Workspace.mem_declaredTargetsOf,
      fun x hx => Workspace.roots_declaredTargetsOf_ne_nil hx, ?_⟩
    obtain ⟨o, ho, hanswers⟩ := Workspace.exists_answers hplanned
    refine ⟨o, ho, fun n hn p hp t ht hst => ?_⟩
    exact hanswers _ (Workspace.mem_declaredTargetsOf.mpr ⟨hst, ⟨n, hn, p, hp, ht⟩, rfl⟩) n
      (Workspace.mem_membersBuiltFor.mpr ⟨hn, p, hp, ht⟩)

/-- The plan of a program and the project that it depends on answers for both. -/
theorem plan_covers_appWorkspace :
    ∃ o, (appWorkspace [outputRule "output" 0 "bin"]).plan {} = .ok o ∧
      (appWorkspace [outputRule "output" 0 "bin"]).Answers false o ⟨{}, ["App", "Core"]⟩ "App" ∧
      (appWorkspace [outputRule "output" 0 "bin"]).Answers false o ⟨{}, ["App", "Core"]⟩ "Core" := by
  obtain ⟨-, hall, -⟩ := plan_covers (finish_appWorkspace [outputRule "output" 0 "bin"])
  obtain ⟨-, -, -, -, o, ho, hanswers⟩ := hall {} rfl rfl
  have hroots : (appWorkspace [outputRule "output" 0 "bin"]).builtFor {} = ["App", "Core"] := rfl
  rw [← hroots]
  exact ⟨o, ho, hanswers appProject (mem_appWorkspace.mpr (Or.inl rfl)) {} rfl,
    hanswers coreProject (mem_appWorkspace.mpr (Or.inr rfl)) {} rfl⟩

end BuildPlan
