import BuildPlan.Proofs.Plan.Coverage

/-!
# Why a planned target fails

Declarations that pass every check leave few reasons for a failure. The targets to plan are always found, unless a key or a
solution is asked for that is not there (`Workspace.Finished.exists_plannedTargets`). A planned target fails because its
projects require each other in a cycle, because a dependency has no variant, because rules are in conflict in strict mode,
or because a rule declares a dependency on what is not a project (`Workspace.FailsWith`): every other name that is looked up
is there, and every descriptor that is read or written is where it should be (`planning_safe`).
-/

namespace BuildPlan

namespace Workspace

/-- The reasons for which a planned target fails once the declarations are checked. -/
inductive FailsWith (w : Workspace) (strict : Bool) (x : PlannedTarget) : BuildError → Prop
  /-- A needed project requires itself, directly or through others. -/
  | cycle {names : List String} (hcycle : ¬w.Acyclic x.target x.roots) :
    FailsWith w strict x (.cyclicDependency x.target names)
  /-- A dependency of a needed project has no variant. -/
  | noVariant {dependency dependent : String} (hvariant : ¬w.AllVariants x.target x.roots) :
    FailsWith w strict x (.missingVariant dependency dependent x.target)
  /-- In strict mode, the rules of a needed project are in conflict. -/
  | conflict {p : Project} {c : ScalarConflict} (hstrict : strict = true) (hp : p ∈ w.projects.items)
    (hneeded : w.Needed x.target x.roots p.name) (hc : c ∈ (w.chainConfiguration p x.target).conflicts) :
    FailsWith w strict x (.scalarConflict p.name c)
  /-- A rule of a needed project declares a dependency on what is not a project. -/
  | undeclared {p : Project} {name : String} (hp : p ∈ w.projects.items) (hneeded : w.Needed x.target x.roots p.name)
    (hdeclares : w.DeclaresDependency p x.target name) (hname : name ∉ w.projects.names) :
    FailsWith w strict x (.unknownProject name (.dependencyOf p.name))

variable {w : Workspace} {strict : Bool} {x : PlannedTarget} {e : BuildError}

/-- The categories that the reasons belong to. -/
theorem FailsWith.kind_mem (h : w.FailsWith strict x e) :
    e.kind ∈ [ErrorKind.cyclicDependency, .missingTargetVariant, .conflictingScalarOverride, .declaration] := by
  cases h <;> simp [BuildError.kind]

/-! ### One target -/

/-- A name that is required but not declared is declared as a dependency by a rule: the registered edges lead to projects. -/
theorem Finished.declaresDependency_of_requires (h : w.Finished) {p : Project} {t : Target} {b : String}
    (hp : w.projects.get? p.name = some p) (hb : w.Requires t p.name b) (hname : b ∉ w.projects.names) :
    w.DeclaresDependency p t b := by
  obtain ⟨q, hq, ⟨edge, hedge, -, rfl, -⟩ | hdeclares⟩ := hb
  · exact absurd (h.edges edge hedge).2 hname
  · rw [hp, Option.some.injEq] at hq
    exact hq ▸ hdeclares

/-- Only strict mode refuses the rules of a project, and only for a conflict. -/
theorem conflict_of_compileLocal {p : Project} {t : Target} (he : w.compileLocal strict p t = .error e) :
    strict = true ∧ ∃ c ∈ (w.chainConfiguration p t).conflicts, e = .scalarConflict p.name c := by
  unfold compileLocal at he
  split at he
  · rename_i c rest hconflicts
    cases he
    exact ⟨rfl, c, by rw [hconflicts]; exact List.mem_cons_self, rfl⟩
  · cases he

/-- A project that is needed is visited without an error, or the error is one of the reasons. -/
theorem Finished.failsWith_of_visit (h : w.Finished) {d : Discovery} {p : Project} (hp : p ∈ w.projects.items)
    (hneeded : w.Needed x.target x.roots p.name) (he : Discovery.visit w strict x.target d p.name = .error e) :
    w.FailsWith strict x e := by
  have hget : w.projects.get? p.name = some p := Catalog.get?_name hp
  unfold Discovery.visit at he
  rw [Discovery.project_eq_ok_iff.mpr hget] at he
  rcases bind_eq_error_iff.mp he with hproject | ⟨q, hq, he⟩
  · cases hproject
  cases hq
  rcases bind_eq_error_iff.mp he with hlocal | ⟨l, -, he⟩
  · obtain ⟨hstrict, c, hc, rfl⟩ := conflict_of_compileLocal hlocal
    exact .conflict hstrict hp hneeded hc
  · dsimp only at he
    split at he
    · rename_i b hfind
      cases he
      have hname : b ∉ w.projects.names := by simpa [Catalog.contains] using List.find?_some hfind
      have hb : w.Requires x.target p.name b := (requires_iff hget).mpr (List.mem_of_find?_eq_some hfind)
      exact .undeclared hp hneeded (h.declaresDependency_of_requires hget hb hname) hname
    · cases he

/-- The names that a discovery visits from declared roots are declared. -/
theorem mem_names_of_mem_needed {roots : List String} {t : Target} (hroots : ∀ n ∈ roots, n ∈ w.projects.names) {y : String}
    (hy : y ∈ w.needed roots t) : y ∈ w.projects.names := by
  obtain ⟨r, hr, hry⟩ := Reach.mem_closure.mp hy
  rcases Relation.ReflTransGen.cases_tail hry with rfl | ⟨z, -, hzy⟩
  · exact hroots _ hr
  · exact hzy.2

/-- A planned target with declared roots has a schedule, or the error is one of the reasons. -/
theorem Finished.failsWith_of_schedule (h : w.Finished) (hroots : ∀ n ∈ x.roots, n ∈ w.projects.names)
    (he : w.schedule strict x.roots x.target = .error e) : w.FailsWith strict x e := by
  rcases schedule_eq_error he with ⟨hn, -⟩ | ⟨-, hn, dependency, dependent, rfl⟩ | ⟨-, -, hn, cycle, rfl⟩
  · have hdiscovery : Discovery.ofRoots w strict x.roots x.target = .error e := by
      unfold schedule at he
      rcases bind_eq_error_iff.mp he with he | ⟨d, hd, -⟩
      · exact he
      · exact absurd (exists_ofRoots_iff_declared.mp ⟨d, hd⟩) hn
    obtain ⟨y, hy, d, hvisit⟩ := exists_step_of_foldlM_error hdiscovery
    obtain ⟨p, hp⟩ := Catalog.mem_names_iff.mp (mem_names_of_mem_needed hroots hy)
    have hname : p.name = y := Catalog.name_of_get? hp
    subst hname
    exact h.failsWith_of_visit (Catalog.mem_of_get? hp) (needed_of_mem hy) hvisit
  · exact .noVariant hn
  · exact .cycle hn

/-! ### All targets -/

/-- The targets to plan are found, whether for all projects or for a solution that is declared. -/
theorem Finished.exists_plannedTargets (h : w.Finished) {config : PlanConfig} (hkeys : config.targets = [])
    (hsolution : ∀ name, config.solution = some name → name ∈ w.solutions.names) :
    ∃ planned, w.plannedTargets config = .ok planned := by
  cases hname : config.solution with
  | none => exact ⟨_, h.plannedTargets_of_workspace hkeys hname⟩
  | some name =>
    obtain ⟨s, hs⟩ := Catalog.mem_names_iff.mp (hsolution name hname)
    have hsname : s.name = name := Catalog.name_of_get? hs
    exact ⟨_, h.plannedTargets_of_solution (Catalog.mem_of_get? hs) hkeys (hname.trans (congrArg some hsname.symm))⟩

/-- A planned target that fails on the shared store has no schedule, for the same error. -/
theorem exists_schedule_error_of_resolveAll {config : PlanConfig} {planned : List PlannedTarget}
    (hplanned : w.plannedTargets config = .ok planned) {t : Target}
    (he : (t, .error e) ∈ w.resolveAll config.strict {} planned) :
    ∃ x ∈ planned, x.target = t ∧ w.schedule config.strict x.roots x.target = .error e := by
  rw [resolveAll_eq_map (nodup_plannedTargets hplanned) (fun _ _ _ => rfl), List.mem_map] at he
  obtain ⟨x, hx, heq⟩ := he
  rw [Prod.mk.injEq] at heq
  obtain ⟨rfl, halone⟩ := heq
  exact ⟨x, hx, rfl, (resolve_eq_error (fun _ => rfl) (Prod.ext halone rfl)).1⟩

/-- A planned target that fails on the shared store fails for one of the reasons. -/
theorem Finished.failsWith_of_resolveAll (h : w.Finished) {config : PlanConfig} {planned : List PlannedTarget}
    (hplanned : w.plannedTargets config = .ok planned) {t : Target}
    (he : (t, .error e) ∈ w.resolveAll config.strict {} planned) :
    ∃ x ∈ planned, x.target = t ∧ w.FailsWith config.strict x e := by
  obtain ⟨x, hx, rfl, hschedule⟩ := exists_schedule_error_of_resolveAll hplanned he
  refine ⟨x, hx, rfl, h.failsWith_of_schedule (fun n hn => ?_) hschedule⟩
  obtain ⟨p, hp, -⟩ := h.root_built hplanned hx hn
  exact Catalog.mem_names_of_get? hp

theorem mem_failed {results : List (Target × Except BuildError Resolution)} {f : Failure} :
    f ∈ failed results ↔ ∃ t e, (t, .error e) ∈ results ∧ f = Failure.ofError t e := by
  unfold failed
  rw [List.mem_filterMap]
  constructor
  · rintro ⟨⟨t, result⟩, hmem, hf⟩
    cases result with
    | error e =>
      cases hf
      exact ⟨t, e, hmem, rfl⟩
    | ok r => cases hf
  · rintro ⟨t, e, hmem, rfl⟩
    exact ⟨(t, .error e), hmem, rfl⟩

end Workspace

/-- Planning is safe once the declarations are checked, however they came about. Without a choice of keys, the targets to
plan are found for all projects and for every declared solution. And every failure of a plan is that of a planned target
which failed for one of the four reasons: a cycle, a dependency without a variant, a conflict in strict mode, or a dependency
that a rule declares on what is not a project. So no failure is due to invalid axes, an unknown rule set, a descriptor that is
missing or written twice, or a name of an edge, a root or a member that is not a project. -/
theorem planning_safe {d : Declarations} {w : Workspace} (hw : d.finish = .ok w) :
    (∀ config : PlanConfig, config.targets = [] →
      (∀ name, config.solution = some name → name ∈ w.solutions.names) →
      ∃ planned, w.plannedTargets config = .ok planned) ∧
    ∀ (config : PlanConfig) (o : PlanOutcome), w.plan config = .ok o → ∃ planned, w.plannedTargets config = .ok planned ∧
      ∀ f ∈ o.failures, ∃ x ∈ planned, ∃ e, (x.target, .error e) ∈ w.resolveAll config.strict {} planned ∧
        f = Failure.ofError x.target e ∧ w.FailsWith config.strict x e ∧
        f.kind ∈ [ErrorKind.cyclicDependency, .missingTargetVariant, .conflictingScalarOverride, .declaration] := by
  have h := (Declarations.finish_eq_ok_iff.mp hw).2
  refine ⟨fun config hkeys hsolution => h.exists_plannedTargets hkeys hsolution, fun config o ho => ?_⟩
  unfold Workspace.plan at ho
  obtain ⟨planned, hplanned, ho⟩ := bind_eq_ok_iff.mp ho
  cases ho
  refine ⟨planned, hplanned, fun f hf => ?_⟩
  obtain ⟨t, e, hmem, rfl⟩ := Workspace.mem_failed.mp hf
  obtain ⟨x, hx, rfl, hfails⟩ := h.failsWith_of_resolveAll hplanned hmem
  exact ⟨x, hx, e, hmem, rfl, hfails, hfails.kind_mem⟩

/-- A rule that declares a dependency on a name without a project. -/
def ghostRule : Rule where
  name := "ghost"
  writes := .always [.dependency "Ghost" .pub]

theorem appliedRules_ghost :
    (coreWorkspace [ghostRule]).appliedRules coreProject {} =
      [(⟨"Core", "ghost", 0⟩, fun _ => [.dependency "Ghost" .pub])] := by
  rw [Workspace.appliedRules, chainOf_core]
  rfl

/-- A project with such a rule cannot be resolved. -/
theorem resolveAlone_ghost :
    ∃ e, (coreWorkspace [ghostRule]).resolveAlone false ⟨{}, ["Core"]⟩ = .error e := by
  have hrequires : (coreWorkspace [ghostRule]).Requires {} "Core" "Ghost" :=
    ⟨coreProject, rfl, Or.inr ⟨[], _, [], .pub, appliedRules_ghost, List.mem_cons_self⟩⟩
  cases h : (coreWorkspace [ghostRule]).resolveAlone false ⟨{}, ["Core"]⟩ with
  | error e => exact ⟨e, rfl⟩
  | ok r =>
    obtain ⟨d, hr⟩ := Workspace.exists_resolved (Prod.ext h rfl)
    have hneeded : (coreWorkspace [ghostRule]).Needed {} ["Core"] "Ghost" :=
      ⟨"Core", List.mem_cons_self, Relation.ReflTransGen.single hrequires⟩
    obtain ⟨p, hp⟩ := hr.found.declared "Ghost" hneeded
    cases hp

/-- The plan of this project reports a failure, and it is one for a reason. -/
theorem planning_safe_ghost :
    ∃ o f x e, (coreWorkspace [ghostRule]).plan {} = .ok o ∧ f ∈ o.failures ∧ f = Failure.ofError x.target e ∧
      (coreWorkspace [ghostRule]).FailsWith false x e := by
  obtain ⟨hplanned, hfailures⟩ := planning_safe (finish_coreDeclarations [ghostRule])
  obtain ⟨planned, hplanned⟩ := hplanned {} rfl (fun name hname => nomatch hname)
  obtain ⟨o, ho, -, hreported⟩ := Workspace.exists_outcome hplanned
  obtain ⟨e, he⟩ := resolveAlone_ghost
  have hf : Failure.ofError {} e ∈ o.failures := by
    have hx : (⟨{}, ["Core"]⟩ : PlannedTarget) ∈ planned := by
      cases hplanned
      exact List.mem_cons_self
    rw [hreported, List.mem_filterMap]
    exact ⟨_, hx, by rw [Workspace.failureAlone?, he]⟩
  obtain ⟨planned, -, hreasons⟩ := hfailures {} o ho
  obtain ⟨x, -, e', -, heq, hfails, -⟩ := hreasons _ hf
  exact ⟨o, _, x, e', ho, hf, heq, hfails⟩

end BuildPlan
