import BuildPlan.Proofs.Command
import BuildPlan.Proofs.Emission.Dot
import BuildPlan.Proofs.Plan.Selection
import BuildPlan.Proofs.Resolution.Dependencies

/-!
# Commands for one target

`order` and `graph` plan for one key. What they print of a target is what the whole plan holds of it under the same settings,
and they fail for the targets that fail in it and for the keys that belong to none (`Session.resolveOne_of_resolution`,
`Session.resolveOne_of_failure`, `Session.resolveOne_of_unknown`). The lines that `graph` prints are those of the projects in
order and of the dependencies that are declared for them. The keys that `targets` prints are those that a plan accepts
(`selection_commutes`).
-/

namespace BuildPlan

namespace Resolved

variable {w : Workspace} {t : Target} {roots : List String} {d : Discovery} {r : Resolution} {store : DescriptorStore}
  {a b : String}

/-- The dependencies in the graph are those that are declared for the projects of the order. -/
theorem exists_mem_dependenciesOf_iff (h : Resolved w t roots d r store) :
    (∃ v, (b, v) ∈ r.graph.dependenciesOf a) ↔ a ∈ r.order ∧ ∃ v, w.Declares t a b v := by
  rw [h.mem_order_iff, ← h.edge_iff, TargetGraph.edge_iff_visibility]
  exact exists_congr (fun v => TargetGraph.mem_dependenciesOf_iff)

/-- A dependency in the graph is public exactly if it is declared public once. -/
theorem pub_mem_dependenciesOf_iff (h : Resolved w t roots d r store) :
    (b, .pub) ∈ r.graph.dependenciesOf a ↔ a ∈ r.order ∧ w.Declares t a b .pub := by
  rw [h.mem_order_iff, ← h.publicEdge_iff]
  exact TargetGraph.mem_dependenciesOf_iff

end Resolved

namespace Session

/-- What `order` and `graph` plan, apart from their key. -/
def inspection (s : Session) (solution : Option String) : PlanConfig :=
  ({ solution } : PlanFlags).planConfig s.loaded.settings

variable {s : Session} {solution : Option String} {planned : List PlannedTarget} {o : PlanOutcome} {key : String}

/-! ### One target -/

/-- The resolution of one target, from the plan for its key. -/
theorem resolveOne_of_plan (h : s.workspace.plan { s.inspection solution with targets := [key] } = .ok o) :
    s.resolveOne key solution =
      match o.error, o.resolutions with
      | some e, _ => .error e
      | none, r :: _ => .ok r
      | none, [] => .error (.nothingBuilt key) := by
  have hplan : s.plan { targets := [key], solution } = .ok o := plan_eq_ok_iff.mpr h
  unfold resolveOne
  rw [hplan]
  dsimp only [bind, Except.bind, pure, Except.pure]
  cases o.error with
  | some e => rfl
  | none => cases o.resolutions <;> rfl

/-- A target that the whole plan resolves has this resolution. -/
theorem resolveOne_of_resolution (hplanned : s.workspace.plannedTargets (s.inspection solution) = .ok planned)
    (hnodup : (Workspace.keysOf planned).Nodup) (ho : s.workspace.plan (s.inspection solution) = .ok o) {r : Resolution}
    (hr : r ∈ o.resolutions) : s.resolveOne r.target.key solution = .ok r := by
  obtain ⟨x, hx, halone⟩ := ((Workspace.mem_outcome_iff hplanned ho).1 r).mp hr
  obtain ⟨o', ho', hok, -⟩ := Workspace.exists_plan_of_key rfl hplanned hnodup hx
  obtain ⟨hresolutions, hfailures⟩ := hok r halone
  rw [Workspace.target_of_resolveAlone halone, resolveOne_of_plan ho', o'.error_eq_none_iff.mpr hfailures, hresolutions]

/-- A target that fails in the whole plan fails in the same way. -/
theorem resolveOne_of_failure (hplanned : s.workspace.plannedTargets (s.inspection solution) = .ok planned)
    (hnodup : (Workspace.keysOf planned).Nodup) (ho : s.workspace.plan (s.inspection solution) = .ok o) {f : Failure}
    (hf : f ∈ o.failures) : s.resolveOne f.target solution = .error (.failures [f]) := by
  obtain ⟨x, hx, e, halone, rfl⟩ := ((Workspace.mem_outcome_iff hplanned ho).2 f).mp hf
  obtain ⟨o', ho', -, herror⟩ := Workspace.exists_plan_of_key rfl hplanned hnodup hx
  have hfailed : o'.error = some (.failures [Failure.ofError x.target e]) := by
    rw [PlanOutcome.error, PlanOutcome.isSuccess, herror e halone]
    rfl
  have htarget : (Failure.ofError x.target e).target = x.target.key := rfl
  rw [htarget, resolveOne_of_plan ho', hfailed]

/-- A key that belongs to no planned target is refused. -/
theorem resolveOne_of_unknown (hplanned : s.workspace.plannedTargets (s.inspection solution) = .ok planned)
    (hkey : key ∉ Workspace.keysOf planned) :
    s.resolveOne key solution = .error (.build (.invalidAxis .target (.notPlanned key))) := by
  obtain ⟨first, hfirst, -, hplan⟩ := Workspace.plan_of_unknown_key rfl hplanned (List.mem_singleton.mpr rfl) hkey
  rw [List.mem_singleton.mp hfirst] at hplan
  have herror : s.plan { targets := [key], solution } = .error (.build (.invalidAxis .target (.notPlanned key))) := by
    unfold plan
    rw [show ({ targets := [key], solution } : PlanFlags).planConfig s.loaded.settings =
      { s.inspection solution with targets := [key] } from rfl, hplan]
  unfold resolveOne
  rw [herror]
  rfl

/-- A resolution of the whole plan is one of its target in the workspace. -/
theorem exists_resolved_of_mem (hplanned : s.workspace.plannedTargets (s.inspection solution) = .ok planned)
    (ho : s.workspace.plan (s.inspection solution) = .ok o) {r : Resolution} (hr : r ∈ o.resolutions) :
    ∃ roots d store, Resolved s.workspace r.target roots d r store := by
  obtain ⟨x, -, halone⟩ := ((Workspace.mem_outcome_iff hplanned ho).1 r).mp hr
  obtain ⟨d, hresolved⟩ := Workspace.exists_resolved
    (Prod.ext halone rfl : s.workspace.resolve (s.inspection solution).strict x.roots x.target {} = (.ok r, _))
  exact ⟨x.roots, d, _, hresolved.target ▸ hresolved⟩

/-! ### What is printed -/

/-- If the target is resolved, `order` prints its order. -/
theorem run_order_of_ok {r : Resolution} (h : s.resolveOne key solution = .ok r) :
    s.run (.order key solution) = { output := .text (Text.join "" (r.order.map (· ++ "\n"))) } :=
  congrArg CommandResult.ofExcept (bind_eq_ok_iff.mpr ⟨r, h, rfl⟩)

/-- If the target is resolved, `graph` prints its drawing. -/
theorem run_graph_of_ok {r : Resolution} (h : s.resolveOne key solution = .ok r) :
    s.run (.graph key solution) = { output := .text r.dot } :=
  congrArg CommandResult.ofExcept (bind_eq_ok_iff.mpr ⟨r, h, rfl⟩)

/-- If the target is not resolved, `order` leaves the error only. -/
theorem run_order_of_error {e : CommandError} (h : s.resolveOne key solution = .error e) :
    s.run (.order key solution) = .failed e :=
  congrArg CommandResult.ofExcept (bind_eq_error_iff.mpr (Or.inl h))

/-- If the target is not resolved, `graph` leaves the error only. -/
theorem run_graph_of_error {e : CommandError} (h : s.resolveOne key solution = .error e) :
    s.run (.graph key solution) = .failed e :=
  congrArg CommandResult.ofExcept (bind_eq_error_iff.mpr (Or.inl h))

/-- One target is resolved unless it fails in the whole plan or its key belongs to no planned target. -/
theorem exists_resolveOne_eq_error_iff (hplanned : s.workspace.plannedTargets (s.inspection solution) = .ok planned)
    (hnodup : (Workspace.keysOf planned).Nodup) (ho : s.workspace.plan (s.inspection solution) = .ok o) (key : String) :
    (∃ e, s.resolveOne key solution = .error e) ↔ (∃ f ∈ o.failures, f.target = key) ∨ key ∉ Workspace.keysOf planned := by
  constructor
  · rintro ⟨e, he⟩
    refine or_iff_not_imp_right.mpr (fun hknown => ?_)
    obtain ⟨x, hx, rfl⟩ := List.mem_map.mp (not_not.mp hknown)
    cases halone : s.workspace.resolveAlone (s.inspection solution).strict x with
    | error e' => exact ⟨_, ((Workspace.mem_outcome_iff hplanned ho).2 _).mpr ⟨x, hx, e', halone, rfl⟩, rfl⟩
    | ok r =>
      have hr : r ∈ o.resolutions := ((Workspace.mem_outcome_iff hplanned ho).1 r).mpr ⟨x, hx, halone⟩
      have hok := resolveOne_of_resolution hplanned hnodup ho hr
      rw [Workspace.target_of_resolveAlone halone, he] at hok
      cases hok
  · rintro (⟨f, hf, rfl⟩ | hunknown)
    · exact ⟨_, resolveOne_of_failure hplanned hnodup ho hf⟩
    · exact ⟨_, resolveOne_of_unknown hplanned hunknown⟩

/-- The two commands fail exactly if the target is not resolved. -/
theorem run_error_ne_none_iff (c : Command) (hc : c = .order key solution ∨ c = .graph key solution) :
    (s.run c).error ≠ none ↔ ∃ e, s.resolveOne key solution = .error e := by
  cases h : s.resolveOne key solution with
  | ok r =>
    rcases hc with rfl | rfl
    · rw [run_order_of_ok h]
      exact iff_of_false (fun hne => hne rfl) (fun ⟨e, he⟩ => nomatch he)
    · rw [run_graph_of_ok h]
      exact iff_of_false (fun hne => hne rfl) (fun ⟨e, he⟩ => nomatch he)
  | error e =>
    rcases hc with rfl | rfl
    · rw [run_order_of_error h]
      exact iff_of_true (fun hnone => nomatch hnone) ⟨e, rfl⟩
    · rw [run_graph_of_error h]
      exact iff_of_true (fun hnone => nomatch hnone) ⟨e, rfl⟩

/-! ### The targets that are listed -/

/-- `targets` prints what a plan of the workspace is made for, in the same order. -/
theorem run_targets_none (hplanned : s.workspace.allPlanned none = .ok planned) :
    s.run (.targets none) = {
      output := .text (Text.join "" ((planned.map PlannedTarget.target).map fun t =>
        t.key ++ "\t" ++ t.configurationName ++ "\n")) } := by
  obtain ⟨ts, hts, hroots⟩ := bind_eq_ok_iff.mp hplanned
  have hrun : s.runTargets none = .ok { output := .text (Text.join "" (ts.map fun t =>
      t.key ++ "\t" ++ t.configurationName ++ "\n")) } := by
    unfold runTargets listTargets
    dsimp only
    rw [hts]
  rw [Workspace.map_target_workspaceTargets hroots]
  exact congrArg CommandResult.ofExcept hrun

/-- Planning for the keys of some flags works out exactly if all of them belong to planned targets. -/
theorem exists_plan_iff_of_flags {flags : PlanFlags} (hplanned : s.workspace.allPlanned flags.solution = .ok planned) :
    (∃ o, s.plan flags = .ok o) ↔ ∀ key ∈ flags.targets, key ∈ Workspace.keysOf planned := by
  have hwhole : s.workspace.plannedTargets { flags.planConfig s.loaded.settings with targets := [] } = .ok planned :=
    (Workspace.plannedTargets_of_no_keys rfl).trans hplanned
  have hkeys : (∃ o, s.workspace.plan (flags.planConfig s.loaded.settings) = .ok o) ↔
      ∀ key ∈ flags.targets, key ∈ Workspace.keysOf planned := Workspace.exists_plan_of_keys_iff rfl hwhole
  exact (exists_congr (fun o => plan_eq_ok_iff)).trans hkeys

end Session

/-- A choice of keys commutes with planning. In a finished workspace whose platforms and environments come from names, for no
solution or one that is declared, no two planned targets have one key. Planning for some keys, whatever their order and
however often they are repeated, is refused with an invalid axis exactly if one of them belongs to no planned target, and
otherwise gives the resolutions and the failures of the whole plan that have these keys, in the same order and unchanged. So
`order` and `graph` print for a key the order and the drawing of this one target of the whole plan under the same settings: the
drawing has one line for each project of the order, and for each of them one line for every dependency that is declared for it,
solid exactly if it is declared public. They fail exactly if this target fails or the key belongs to none. And the keys that
`targets` prints are those that a plan without a solution accepts. -/
theorem selection_commutes {d : Declarations} {w : Workspace} (hw : d.finish = .ok w) (hnamed : w.NamedAxes)
    {solution : Option String} (hsolution : ∀ name, solution = some name → name ∈ w.solutions.names) :
    (∀ config : PlanConfig, config.targets = [] → config.solution = solution →
      ∃ planned o, w.plannedTargets config = .ok planned ∧ w.plan config = .ok o ∧ (Workspace.keysOf planned).Nodup ∧
        ∀ keys : List String, keys ≠ [] →
          ((∃ axis fault, w.plan { config with targets := keys } = .error (.invalidAxis axis fault)) ↔
            ∃ key ∈ keys, key ∉ Workspace.keysOf planned) ∧
          ((∀ key ∈ keys, key ∈ Workspace.keysOf planned) →
            ∃ o', w.plan { config with targets := keys } = .ok o' ∧
              o'.resolutions = o.resolutions.filter (fun r => keys.contains r.target.key) ∧
              o'.failures = o.failures.filter (fun f => keys.contains f.target))) ∧
    (∀ s : Session, s.workspace = w →
      ∃ planned o, w.plannedTargets (s.inspection solution) = .ok planned ∧ s.plan { solution } = .ok o ∧
        (∀ r ∈ o.resolutions,
          s.run (.order r.target.key solution) = { output := .text (Text.join "" (r.order.map (· ++ "\n"))) } ∧
          s.run (.graph r.target.key solution) = { output := .text r.dot } ∧
          r.dot = Text.join "" (r.drawing.map (· ++ "\n")) ∧
          (∀ a, ((r.graph.dependenciesOf a).map Prod.fst).Nodup) ∧
          (∀ a b, (∃ v, (b, v) ∈ r.graph.dependenciesOf a) ↔ a ∈ r.order ∧ ∃ v, w.Declares r.target a b v) ∧
          ∀ a b, (b, .pub) ∈ r.graph.dependenciesOf a ↔ a ∈ r.order ∧ w.Declares r.target a b .pub) ∧
        ∀ key,
          ((s.run (.order key solution)).error ≠ none ↔
            (∃ f ∈ o.failures, f.target = key) ∨ key ∉ Workspace.keysOf planned) ∧
          ((s.run (.graph key solution)).error ≠ none ↔
            (∃ f ∈ o.failures, f.target = key) ∨ key ∉ Workspace.keysOf planned)) ∧
    ∀ s : Session, s.workspace = w →
      ∃ ts : List Target,
        s.run (.targets none) = {
          output := .text (Text.join "" (ts.map fun t => t.key ++ "\t" ++ t.configurationName ++ "\n")) } ∧
        (ts.map Target.key).Nodup ∧
        ∀ flags : PlanFlags, flags.solution = none →
          ((∃ o, s.plan flags = .ok o) ↔ ∀ key ∈ flags.targets, key ∈ ts.map Target.key) := by
  have h := (Declarations.finish_eq_ok_iff.mp hw).2
  refine ⟨fun config hkeys hconfig => ?_, ?_, ?_⟩
  · obtain ⟨planned, hplanned⟩ := h.exists_plannedTargets hkeys (hconfig ▸ hsolution)
    obtain ⟨o, ho, -⟩ := Workspace.exists_outcome hplanned
    refine ⟨planned, o, hplanned, ho, h.nodup_keysOf hnamed hplanned, fun keys hne => ⟨?_, fun hknown => ?_⟩⟩
    · exact Workspace.plan_of_keys_invalidAxis_iff hkeys hplanned
    · exact Workspace.exists_plan_of_keys hkeys hplanned ho hne hknown
  · rintro s rfl
    obtain ⟨planned, hplanned⟩ : ∃ planned, s.workspace.plannedTargets (s.inspection solution) = .ok planned :=
      h.exists_plannedTargets rfl hsolution
    obtain ⟨o, ho, -⟩ := Workspace.exists_outcome hplanned
    have hnodup := h.nodup_keysOf hnamed hplanned
    refine ⟨planned, o, hplanned, Session.plan_eq_ok_iff.mpr ho, fun r hr => ?_, fun key => ?_⟩
    · have hone := Session.resolveOne_of_resolution hplanned hnodup ho hr
      obtain ⟨roots, d, store, hresolved⟩ := Session.exists_resolved_of_mem hplanned ho hr
      exact ⟨Session.run_order_of_ok hone, Session.run_graph_of_ok hone, r.dot_eq_join_drawing,
        TargetGraph.nodup_dependenciesOf r.graph, fun a b => hresolved.exists_mem_dependenciesOf_iff,
        fun a b => hresolved.pub_mem_dependenciesOf_iff⟩
    · have hfails := Session.exists_resolveOne_eq_error_iff hplanned hnodup ho key
      exact ⟨(Session.run_error_ne_none_iff _ (Or.inl rfl)).trans hfails,
        (Session.run_error_ne_none_iff _ (Or.inr rfl)).trans hfails⟩
  · rintro s rfl
    have hplanned := h.allPlanned_none
    have hkeys : (s.workspace.declaredTargets.map PlannedTarget.target).map Target.key =
        Workspace.keysOf s.workspace.declaredTargets := by
      rw [List.map_map]
      rfl
    refine ⟨s.workspace.declaredTargets.map PlannedTarget.target, Session.run_targets_none hplanned, ?_, fun flags hnone => ?_⟩
    · have hwhole : s.workspace.plannedTargets {} = .ok s.workspace.declaredTargets := h.plannedTargets_of_workspace rfl rfl
      rw [hkeys]
      exact h.nodup_keysOf hnamed hwhole
    · rw [hkeys]
      exact Session.exists_plan_iff_of_flags (hnone ▸ hplanned)

/-- The declarations of a program that depends on a library privately. -/
def appDeclarations : Declarations where
  projects := Catalog.ofList [{ name := "App", sourceRoot := "app" }, { name := "Lib", sourceRoot := "lib" }]
  edges := [{ source := "App", dependency := "Lib", visibility := .priv }]

/-- The session of these projects, with the settings that hold by default. -/
def appSession : Session where
  loaded := threeProjectsSession.loaded
  workspace := { projects := appDeclarations.projects, edges := appDeclarations.edges }

/-- The sample finishes. -/
theorem finish_appDeclarations : appDeclarations.finish = .ok appSession.workspace := by
  rfl

/-- The target of the sample, its order, and for each project in order its dependencies. -/
theorem scheduled_app : (appSession.workspace.schedule false ["App", "Lib"] {}).toOption.map
    (fun s => (s.discovery.graph.target, s.order, s.order.map s.discovery.graph.dependenciesOf)) =
      some ({}, ["Lib", "App"], [[], [("Lib", .priv)]]) := by
  cbv

/-- The order and the drawing of the target of the sample. -/
theorem drawn_app : (appSession.workspace.schedule false ["App", "Lib"] {}).toOption.map Schedule.drawn =
    some (["Lib", "App"],
      "digraph \"win64-vs2022-debug-lib-editor-fastbuild\" \x7b\n  rankdir=LR;\n  \"Lib\";\n  \"App\";\n" ++
        "  \"App\" -> \"Lib\" [style=dashed];\n\x7d\n") := by
  obtain ⟨s, hs, hscheduled⟩ := Option.map_eq_some_iff.mp scheduled_app
  simp only [Prod.mk.injEq] at hscheduled
  obtain ⟨htarget, horder, hdependencies⟩ := hscheduled
  rw [horder] at hdependencies
  obtain ⟨hlib, happ⟩ : s.discovery.graph.dependenciesOf "Lib" = [] ∧
      s.discovery.graph.dependenciesOf "App" = [("Lib", .priv)] := by simpa using hdependencies
  rw [hs, Option.map_some, Schedule.drawn, Resolution.dot_eq_join_drawing, Resolution.drawing, horder, htarget]
  simp only [List.flatMap_cons, List.flatMap_nil, hlib, happ]
  rfl

/-- In this session a key may be given twice, a key that no project is built for is refused, the order and the drawing of a
target are printed for its key, and a single key is accepted exactly if it is listed. -/
theorem selection_commutes_appSession :
    ∃ o o', appSession.workspace.plan {} = .ok o ∧
      appSession.workspace.plan { targets := [({} : Target).key, ({} : Target).key] } = .ok o' ∧
      o'.resolutions = o.resolutions.filter (fun r => r.target.key == ({} : Target).key) ∧
      (∃ axis fault, appSession.workspace.plan { targets := ["win64"] } = .error (.invalidAxis axis fault)) ∧
      (appSession.run (.order "win64" none)).error ≠ none ∧
      appSession.run (.order ({} : Target).key none) = { output := .text "Lib\nApp\n" } ∧
      appSession.run (.graph ({} : Target).key none) = {
        output := .text ("digraph \"win64-vs2022-debug-lib-editor-fastbuild\" \x7b\n  rankdir=LR;\n  \"Lib\";\n  \"App\";\n" ++
          "  \"App\" -> \"Lib\" [style=dashed];\n\x7d\n") } ∧
      ∃ ts : List Target, (ts.map Target.key).Nodup ∧
        ∀ key, (∃ plan, appSession.plan { targets := [key] } = .ok plan) ↔ key ∈ ts.map Target.key := by
  have hnamed : appSession.workspace.NamedAxes := by
    intro p hp
    rcases List.mem_pair.mp (show p ∈ [_, _] from hp) with rfl | rfl
    · exact TargetAxes.named_default
    · exact TargetAxes.named_default
  have hknown : ({} : Target).key ∈ Workspace.keysOf appSession.workspace.declaredTargets := by decide
  have hunknown : "win64" ∉ Workspace.keysOf appSession.workspace.declaredTargets := by decide
  have hdeclared : ⟨{}, ["App", "Lib"]⟩ ∈ appSession.workspace.declaredTargets := by decide
  have hall : appSession.workspace.plannedTargets {} = .ok appSession.workspace.declaredTargets :=
    (Declarations.finish_eq_ok_iff.mp finish_appDeclarations).2.plannedTargets_of_workspace rfl rfl
  obtain ⟨hplan, hinspect, htargets⟩ :=
    selection_commutes finish_appDeclarations hnamed (fun name (hname : none = some name) => nomatch hname)
  obtain ⟨planned, o, hplanned, ho, -, hkeys⟩ := hplan {} rfl rfl
  obtain rfl := Except.ok.inj (hplanned.symm.trans hall)
  obtain ⟨-, hchosen⟩ := hkeys [({} : Target).key, ({} : Target).key] (List.cons_ne_nil _ _)
  obtain ⟨o', ho', hresolutions, -⟩ := hchosen (fun key hkey => by
    rw [show key = ({} : Target).key by simpa using hkey]
    exact hknown)
  obtain ⟨hrefused, -⟩ := hkeys ["win64"] (List.cons_ne_nil _ _)
  obtain ⟨planned', o'', hplanned', ho'', hprinted, herrors⟩ := hinspect appSession rfl
  obtain rfl := Except.ok.inj (hplanned'.symm.trans hall)
  obtain ⟨r, after, hresolve, horder, hdot⟩ := exists_drawn drawn_app
  have hr : r ∈ o''.resolutions :=
    ((Workspace.mem_outcome_iff hplanned' (Session.plan_eq_ok_iff.mp ho'')).1 r).mpr
      ⟨_, hdeclared, congrArg Prod.fst hresolve⟩
  obtain ⟨d, hresolved⟩ := Workspace.exists_resolved hresolve
  obtain ⟨hrunOrder, hrunGraph, -⟩ := hprinted r hr
  rw [hresolved.target] at hrunOrder hrunGraph
  refine ⟨o, o', ho, ho', ?_, hrefused.mpr ⟨"win64", List.mem_singleton.mpr rfl, hunknown⟩,
    (herrors "win64").1.mpr (Or.inr hunknown), ?_, ?_, ?_⟩
  · rw [hresolutions]
    refine List.filter_congr (fun r _ => ?_)
    rw [Bool.eq_iff_iff]
    simp
  · rw [hrunOrder, horder]
    rfl
  · rw [hrunGraph, hdot]
  · obtain ⟨ts, -, hnodup, haccepted⟩ := htargets appSession rfl
    refine ⟨ts, hnodup, fun key => (haccepted { targets := [key] } rfl).trans ?_⟩
    simp

end BuildPlan
