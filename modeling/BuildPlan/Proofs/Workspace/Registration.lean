import BuildPlan.Proofs.Axes
import BuildPlan.Proofs.Rule.Registry
import BuildPlan.Proofs.Workspace.Steps

/-!
# Registered rule sets

A rule set that is registered stays and keeps its base in whatever is declared after it, with one exception: a replacement of
the project of its name takes it away if the project was declared to use it (`Step.Drops`). For then nothing tells it from a
rule set that the project got with its first rule. What decides is the declaration alone: while the rule set is registered, no
rule can give the project another one (`RegisteredBy.concat`). `registered_rule_sets_kept` says this of any run, and
`registered_rule_set_dropped` shows the exception.
-/

namespace BuildPlan

/-! ### What is reported as unknown -/

/-- An error is truthful about registered rule sets if it reports none of them as unknown. -/
def BuildError.Truthful (sets : Catalog RuleSet) (e : BuildError) : Prop :=
  ∀ id reference, e = .unknownRuleSet id reference → id ∉ sets.names

/-- The check of base chains reports a rule set as unknown only if it is not registered. -/
theorem RuleRegistry.truthful_of_ofSets {sets : Catalog RuleSet} : ∀ e, ofSets sets = .error e → e.Truthful sets := by
  rintro e h id reference rfl
  obtain ⟨-, s, -, -, -, hwalk⟩ := exists_walk_of_ofSets_error h
  exact RuleSet.not_mem_of_walk hwalk

/-- The check of axes reports no rule set. -/
theorem TargetAxes.truthful_of_validate {sets : Catalog RuleSet} {a : TargetAxes} :
    ∀ e, a.validate = .error e → e.Truthful sets := by
  rintro e h id reference rfl
  obtain ⟨axis, fault, he⟩ := exists_fault_of_validate _ h
  cases he

namespace Declarations

variable {d : Declarations} {n : String} {step : Step} {steps : List Step} {s s' : RuleSet}

/-- The check of edges reports no rule set. -/
theorem truthful_of_checkEdges {sets : Catalog RuleSet} {l : List DependencyEdge} :
    ∀ e, d.checkEdges l = .error e → e.Truthful sets := by
  rintro e h id reference rfl
  induction l with
  | nil => cases h
  | cons edge l ih =>
    unfold checkEdges at h
    split at h
    · cases h
    · split at h
      · cases h
      · exact ih h

/-- The check of projects reports a rule set as unknown only if it is not registered. -/
theorem truthful_of_checkProjects {rules : RuleRegistry} {l : List Project} :
    ∀ e, checkProjects rules l = .error e → e.Truthful rules.sets := by
  induction l with
  | nil => exact fun e h => nomatch h
  | cons p l ih =>
    have hrest := error_of_bind (x := p.axes.validate) TargetAxes.truthful_of_validate (fun _ _ => ih)
    have hcontains : ∀ id, rules.contains id = true ↔ id ∈ rules.sets.names := fun id => Catalog.contains_iff_mem
    intro e h
    unfold checkProjects at h
    cases hset : p.ruleSet with
    | none =>
      rw [hset] at h
      exact hrest e h
    | some id =>
      rw [hset] at h
      cases hknown : rules.contains id with
      | true =>
        simp only [hknown, if_true] at h
        exact hrest e h
      | false =>
        simp only [hknown, Bool.false_eq_true, if_false] at h
        cases h
        rintro id' reference he
        cases he
        rw [← hcontains, hknown]
        exact Bool.false_ne_true

/-- The check of solutions reports no rule set. -/
theorem truthful_of_checkSolutions {sets : Catalog RuleSet} {l : List Solution} :
    ∀ e, d.checkSolutions l = .error e → e.Truthful sets := by
  induction l with
  | nil => exact fun e h => nomatch h
  | cons s l ih =>
    have hrest := error_of_bind (x := s.axes.validate) TargetAxes.truthful_of_validate (fun _ _ => ih)
    intro e h
    unfold checkSolutions at h
    cases hfind : (s.projects ++ s.startupProject.toList).find? (fun n => !d.projects.contains n) with
    | none =>
      rw [hfind] at h
      exact hrest e h
    | some n =>
      rw [hfind] at h
      cases h
      exact fun _ _ => nofun

/-- The checks report a rule set as unknown only if it is not registered. -/
theorem truthful_of_finish : ∀ e, d.finish = .error e → e.Truthful d.ruleSets := by
  unfold finish
  refine error_of_bind truthful_of_checkEdges (fun _ _ => ?_)
  refine error_of_bind RuleRegistry.truthful_of_ofSets (fun rules hrules => ?_)
  obtain ⟨rfl, -⟩ := RuleRegistry.ofSets_eq_ok_iff.mp hrules
  refine error_of_bind truthful_of_checkProjects (fun _ _ => ?_)
  refine error_of_bind truthful_of_checkSolutions (fun _ _ => ?_)
  exact fun e h => nomatch h

/-! ### The declaration in force -/

/-- The declaration of the project of a name that is in force after some steps. -/
def declared? (steps : List Step) (n : String) : Option Project := steps.foldl (Step.declare n) none

/-- The declaration in force after one more step. -/
theorem declared?_concat (steps : List Step) (step : Step) (n : String) :
    declared? (steps ++ [step]) n = step.declare n (declared? steps n) := List.foldl_append

/-- Where no rule set has the name of a project, the project is as it was declared: a step that takes a rule set of its name
away replaces the project. -/
theorem get?_projects_ofSteps (h : n ∉ (ofSteps steps).ruleSets.names) :
    (ofSteps steps).projects.get? n = declared? steps n := by
  induction steps using List.reverseRecOn with
  | nil => rfl
  | append_singleton steps step ih =>
    rw [ofSteps_concat] at h
    rw [ofSteps_concat, declared?_concat, get?_projects_next (fun _ _ hmem => absurd hmem h)]
    by_cases hold : n ∈ (ofSteps steps).ruleSets.names
    · obtain ⟨s, hs⟩ := Catalog.mem_names_iff.mp hold
      have htakes : step.Takes (ofSteps steps) n := by
        by_contra hnot
        obtain ⟨s', hs', -⟩ := exists_grown_next hs hnot
        exact h (Catalog.mem_names_of_get? hs')
      cases step with
      | replaceProject p => rw [Step.declare, Step.declare, if_pos htakes.1, if_pos htakes.1]
      | _ => exact htakes.elim
    · rw [ih hold]

/-! ### Registered rule sets in a run -/

/-- A step takes away the rule set of an id that is registered, as far as the steps before it tell: it replaces the project of
this name, which was declared to use the rule set. -/
def Step.Drops (steps : List Step) (id : String) : Step → Prop
  | .replaceProject p => p.name = id ∧ (declared? steps id).bind Project.ruleSet = some id
  | _ => False

/-- After some steps a rule set that was registered in one of them is there, and the project of its name, if there is one, is
as it was declared. -/
structure RegisteredBy (steps : List Step) (s s' : RuleSet) : Prop where
  get? : (ofSteps steps).ruleSets.get? s.id = some s'
  grows : s.Grows s'
  declared : (ofSteps steps).projects.get? s.id = declared? steps s.id

namespace RegisteredBy

/-- Whether a step takes a registered rule set away can be read off the steps before it. -/
theorem takes_iff (h : RegisteredBy steps s s') : step.Takes (ofSteps steps) s.id ↔ step.Drops steps s.id := by
  cases step with
  | replaceProject p => rw [Step.Takes, Step.Drops, h.declared]
  | _ => exact Iff.rfl

/-- The step that registers a rule set. -/
theorem ruleSet (h : ((ofSteps steps).ruleSet s).1 = none) : RegisteredBy (steps ++ [.ruleSet s]) s s := by
  have hnew : s.id ∉ (ofSteps steps).ruleSets.names := by
    intro hmem
    rw [Declarations.ruleSet, if_pos (Catalog.contains_iff_mem.mpr hmem)] at h
    cases h
  refine ⟨?_, .refl s, ?_⟩
  · rw [ofSteps_concat, next_ruleSet, if_neg hnew]
    exact Catalog.get?_put_of_name rfl
  · have hdeclared := get?_projects_ofSteps hnew
    rw [ofSteps_concat, declared?_concat, next_ruleSet, if_neg hnew]
    exact hdeclared

/-- Any other step keeps it, unless it is dropped. -/
theorem concat (h : RegisteredBy steps s s') (hspared : ¬step.Drops steps s.id) :
    ∃ s'', RegisteredBy (steps ++ [step]) s s'' := by
  obtain ⟨s'', hs'', hgrows⟩ := exists_grown_next h.get? (fun htakes => hspared (h.takes_iff.mp htakes))
  refine ⟨s'', ?_, h.grows.trans hgrows, ?_⟩
  · rw [ofSteps_concat, hs'']
  · rw [ofSteps_concat, declared?_concat, get?_projects_next (fun _ _ _ => Catalog.mem_names_of_get? h.get?), h.declared]

/-- In a run after which each step spares the rule set, it is kept. -/
theorem run {before : List Step} (h : ((ofSteps before).ruleSet s).1 = none) {after : List Step}
    (hspared : ∀ mid step, mid ++ [step] <+: after → ¬step.Drops (before ++ .ruleSet s :: mid) s.id) :
    ∃ s', RegisteredBy (before ++ .ruleSet s :: after) s s' := by
  induction after using List.reverseRecOn with
  | nil => exact ⟨s, ruleSet h⟩
  | append_singleton after step ih =>
    obtain ⟨s', hs'⟩ := ih (fun mid step hmid => hspared mid step (hmid.trans (List.prefix_append _ _)))
    have hconcat : before ++ .ruleSet s :: (after ++ [step]) = before ++ .ruleSet s :: after ++ [step] := by simp
    rw [hconcat]
    exact hs'.concat (hspared after step (List.prefix_refl _))

end RegisteredBy

/-- Registered rule sets are kept. A rule set is registered in a run, and no step after it drops it: no replacement of the
project of its name finds this project declared to use it. Then it is still registered at the end, with its base and its rules
in front of those added since; the checks do not report it as unknown, whatever refers to it; and the replacement of a project
that comes next takes it away exactly if the project has its name and was declared to use it. -/
theorem registered_rule_sets_kept {before after : List Step} {s : RuleSet}
    (hnew : ((ofSteps before).ruleSet s).1 = none)
    (hspared : ∀ mid step, mid ++ [step] <+: after → ¬step.Drops (before ++ .ruleSet s :: mid) s.id) :
    ∃ s', (ofSteps (before ++ .ruleSet s :: after)).ruleSets.get? s.id = some s' ∧
      s'.base = s.base ∧ s.rules <+: s'.rules ∧
      (∀ reference, (ofSteps (before ++ .ruleSet s :: after)).finish ≠ .error (.unknownRuleSet s.id reference)) ∧
      ∀ p, (ofSteps (before ++ .ruleSet s :: after ++ [.replaceProject p])).ruleSets.get? s.id =
        if p.name = s.id ∧ (declared? (before ++ .ruleSet s :: after) s.id).bind Project.ruleSet = some s.id
        then none else some s' := by
  obtain ⟨s', h⟩ := RegisteredBy.run hnew hspared
  refine ⟨s', h.get?, h.grows.base, h.grows.rules, fun reference hfinish => ?_, fun p => ?_⟩
  · exact truthful_of_finish _ hfinish s.id reference rfl (Catalog.mem_names_of_get? h.get?)
  · rw [ofSteps_concat, get?_ruleSets_replaceProject, h.declared, h.get?]

/-- A project that has the name of a rule set and uses another one, and a rule of this project, which is refused. -/
def namesakeSteps : List Step := [
  .project { name := "Core", sourceRoot := "Core", ruleSet := some "Common" },
  .projectRule "Core" { name := "all" }]

/-- If this project is replaced, the rule set of its name stays. -/
theorem registered_rule_sets_kept_namesake :
    ((ofSteps [.ruleSet { id := "Common" }]).ruleSet { id := "Core", base := some "Common" }).1 = none ∧
      ∃ s', (ofSteps ([.ruleSet { id := "Common" }] ++ .ruleSet { id := "Core", base := some "Common" } ::
        namesakeSteps ++ [.replaceProject { name := "Core", sourceRoot := "New" }])).ruleSets.get? "Core" = some s' ∧
        s'.base = some "Common" := by
  have hspared : ∀ (mid : List Step) (step : Step), mid ++ [step] <+: namesakeSteps →
      ¬step.Drops ([.ruleSet { id := "Common" }] ++ .ruleSet { id := "Core", base := some "Common" } :: mid) "Core" := by
    intro mid step hmid
    have hmem := hmid.subset (List.mem_append_right mid (List.mem_singleton.mpr rfl))
    rcases List.mem_pair.mp hmem with rfl | rfl <;> exact id
  obtain ⟨s', -, hbase, -, -, hnext⟩ :=
    registered_rule_sets_kept (s := { id := "Core", base := some "Common" }) rfl hspared
  exact ⟨rfl, s', (hnext { name := "Core", sourceRoot := "New" }).trans (if_neg (by decide)), hbase⟩

/-- A registered rule set that two projects use, one of them of its name. -/
def sharedSteps : List Step := [
  .ruleSet { id := "Core" },
  .project { name := "Core", sourceRoot := "Core", ruleSet := some "Core" },
  .project { name := "App", sourceRoot := "App", ruleSet := some "Core" }]

/-- If the project of this name is replaced, the rule set is gone, and the other project uses one that is not registered. -/
theorem registered_rule_set_dropped :
    (ofSteps sharedSteps).ruleSets.names = ["Core"] ∧ (∃ w, (ofSteps sharedSteps).finish = .ok w) ∧
      (ofSteps (sharedSteps ++ [.replaceProject { name := "Core", sourceRoot := "New" }])).ruleSets.get? "Core" = none ∧
      (ofSteps (sharedSteps ++ [.replaceProject { name := "Core", sourceRoot := "New" }])).finish =
        .error (.unknownRuleSet "Core" (.project "App")) := by
  have hrules : RuleRegistry.ofSets (ofSteps sharedSteps).ruleSets = .ok ⟨(ofSteps sharedSteps).ruleSets⟩ :=
    RuleRegistry.ofSets_eq_ok_iff.mpr ⟨rfl, List.forall_mem_singleton.mpr ⟨_, .root rfl rfl⟩⟩
  exact ⟨rfl, ⟨_, bind_eq_ok_iff.mpr ⟨(), rfl, bind_eq_ok_iff.mpr ⟨_, hrules, rfl⟩⟩⟩, rfl, rfl⟩

end Declarations

end BuildPlan
