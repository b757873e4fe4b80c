import BuildPlan.Manifest.Registration
import BuildPlan.Proofs.Manifest.Validation
import BuildPlan.Proofs.Workspace
import BuildPlan.Proofs.Workspace.Steps

/-!
# Registering a manifest is a run of declarations

Registering a manifest makes one declaration after the other and stops at the first that is refused. So all that it leaves
comes from a run of steps (`Manifest.runs_of_declarations`), and these steps declare no rule but those of the entries. What
every rule that is declared satisfies, every registered rule does (`Declarations.Runs.rulesHold`), whatever is replaced in
between.
-/

namespace BuildPlan

namespace Declarations

variable {φ : Step → Prop} {ψ : Rule → Prop} {d d' d'' : Declarations} {step : Step}

/-! ### Runs -/

/-- `d'` is what is collected from `d` on after some steps that satisfy `φ`. -/
inductive Runs (φ : Step → Prop) (d : Declarations) : Declarations → Prop
  | refl : Runs φ d d
  | next {d' : Declarations} (step : Step) : Runs φ d d' → φ step → Runs φ d (d'.next step)

/-- One run after the other is a run. -/
theorem Runs.trans (h : Runs φ d d') (h' : Runs φ d' d'') : Runs φ d d'' := by
  induction h' with
  | refl => exact h
  | next step _ hstep ih => exact ih.next step hstep

/-- One step is a run. -/
theorem Runs.single (step : Step) (hstep : φ step) : Runs φ d (d.next step) := Runs.refl.next step hstep

/-- A step that is not refused. -/
theorem Runs.of_accepted (step : Step) (h : (d.perform step).accepted = .ok d') (hstep : φ step) : Runs φ d d' := by
  have hnext : d.next step = d' := by
    rw [Declarations.next]
    unfold Outcome.accepted at h
    split at h
    · rename_i heq
      rw [heq]
      exact Except.ok.inj h
    · cases h
  exact hnext ▸ Runs.single step hstep

/-! ### Rules of a run -/

/-- All rules that a step declares satisfy `ψ`. -/
def Step.RulesHold (ψ : Rule → Prop) : Step → Prop
  | .ruleSet s => ∀ r ∈ s.rules, ψ r
  | .rule _ r => ψ r
  | .projectRule _ r => ψ r
  | _ => True

/-- All registered rules satisfy `ψ`. -/
def RulesHold (ψ : Rule → Prop) (d : Declarations) : Prop :=
  ∀ id s, d.ruleSets.get? id = some s → ∀ r ∈ s.rules, ψ r

/-- Rule sets that are registered in addition, or in the place of others, may have only such rules. -/
theorem RulesHold.put {s : RuleSet} (h : d.RulesHold ψ) (hs : ∀ r ∈ s.rules, ψ r) :
    ∀ id s', (d.ruleSets.put s).get? id = some s' → ∀ r ∈ s'.rules, ψ r := by
  intro id s' hget
  rw [Catalog.get?_put] at hget
  split at hget
  · exact Option.some.inj hget ▸ hs
  · exact h id s' hget

/-- What holds of all rules holds still after a rule of which it holds was added. -/
theorem RulesHold.next_rule {r : Rule} (h : d.RulesHold ψ) (id : String) (hr : ψ r) : (d.next (.rule id r)).RulesHold ψ := by
  rw [Declarations.next_rule]
  split
  · exact h
  · rename_i s hs
    refine h.put (fun r' hr' => ?_)
    rcases List.mem_append.mp hr' with hr' | hr'
    · exact h id s hs r' hr'
    · exact List.mem_singleton.mp hr' ▸ hr

/-- What holds of all rules holds still after a step that brings only rules of which it holds. -/
theorem RulesHold.next (h : d.RulesHold ψ) (hstep : step.RulesHold ψ) : (d.next step).RulesHold ψ := by
  cases step with
  | project p =>
    rw [next_project]
    split <;> exact h
  | replaceProject p =>
    intro id s hget
    rw [get?_ruleSets_replaceProject] at hget
    split at hget
    · cases hget
    · exact h id s hget
  | ruleSet s =>
    rw [next_ruleSet]
    split
    · exact h
    · exact h.put hstep
  | rule id r => exact h.next_rule id hstep
  | projectRule name r =>
    rw [next_projectRule]
    split
    · exact h
    · split
      · exact h.next_rule name hstep
      · split
        · exact h
        · exact h.put (fun r' hr' => List.mem_singleton.mp hr' ▸ hstep)
  | dependency e => exact h
  | solution s =>
    rw [next_solution]
    split <;> exact h
  | context c => exact h

/-- What holds of all rules holds still after a run of steps that bring only rules of which it holds. -/
theorem Runs.rulesHold (h : Runs (Step.RulesHold ψ) d d') (hd : d.RulesHold ψ) : d'.RulesHold ψ := by
  induction h with
  | refl => exact hd
  | next step _ hstep ih => exact ih.next hstep

end Declarations

/-! ### The run of a manifest -/

namespace Manifest

open Declarations

variable {m : Manifest} {root : String} {d d' : Declarations} {ψ : Rule → Prop}

/-- A rule is the one of an entry of a manifest. -/
def Declares (m : Manifest) (r : Rule) : Prop := ∃ entry ∈ m.rules, entry.rule = .ok r

/-- Every rule that is read from entries is that of one of them. -/
theorem exists_of_mem_rulesOf {entries : List RuleEntry} {rules : List Rule} (h : rulesOf entries = .ok rules) {r : Rule}
    (hr : r ∈ rules) : ∃ entry ∈ entries, entry.rule = .ok r := by
  induction entries generalizing rules with
  | nil =>
    cases h
    exact absurd hr List.not_mem_nil
  | cons entry entries ih =>
    obtain ⟨first, hfirst, h⟩ := bind_eq_ok_iff.mp h
    obtain ⟨rest, hrest, h⟩ := bind_eq_ok_iff.mp h
    cases h
    rcases List.mem_cons.mp hr with rfl | hr
    · exact ⟨entry, List.mem_cons_self, hfirst⟩
    · obtain ⟨entry', hentry', hrule⟩ := ih hrest hr
      exact ⟨entry', List.mem_cons_of_mem _ hentry', hrule⟩

/-- Going through a list is a run if every item starts with one. -/
theorem runs_of_loop {α : Type} {φ : Step → Prop} {loop : Declarations → List α → Except BuildError Declarations} {l : List α}
    (hnil : ∀ d, loop d [] = .ok d)
    (hcons : ∀ a ∈ l, ∀ d rest, loop d (a :: rest) = .ok d' → ∃ d₁, Runs φ d d₁ ∧ loop d₁ rest = .ok d')
    (h : loop d l = .ok d') : Runs φ d d' := by
  induction l generalizing d with
  | nil =>
    rw [hnil] at h
    exact Except.ok.inj h ▸ Runs.refl
  | cons a l ih =>
    rw [List.forall_mem_cons] at hcons
    obtain ⟨d₁, hfirst, hrest⟩ := hcons.1 d l h
    exact hfirst.trans (ih hcons.2 hrest)

/-- Registering the rule sets of a manifest is a run of steps. -/
theorem runs_registerRuleSets {sets : List RuleSetEntry} (h : registerRuleSets d sets = .ok d')
    (hsets : ∀ s ∈ sets, ∀ entry ∈ s.rules, ∀ r, entry.rule = .ok r → ψ r) : Runs (Step.RulesHold ψ) d d' := by
  refine runs_of_loop (fun _ => rfl) (fun s hs d rest h => ?_) h
  obtain ⟨set, hset, h⟩ := bind_eq_ok_iff.mp h
  obtain ⟨d₁, hd₁, h⟩ := bind_eq_ok_iff.mp h
  refine ⟨d₁, Runs.of_accepted (.ruleSet set) hd₁ ?_, h⟩
  obtain ⟨rules, hrules, hset⟩ := bind_eq_ok_iff.mp hset
  cases hset
  intro r hr
  obtain ⟨entry, hentry, hrule⟩ := exists_of_mem_rulesOf hrules hr
  exact hsets s hs entry hentry r hrule

/-- Registering the dependencies of one edge entry is a run of steps. -/
theorem runs_registerDependencies (source : String) (visibility : Visibility) (dependencies : List String) :
    Runs (Step.RulesHold ψ) d (dependencies.foldl (registerDependency source visibility) d) := by
  induction dependencies generalizing d with
  | nil => exact Runs.refl
  | cons dependency dependencies ih =>
    exact (Runs.single (.dependency { source, dependency, visibility }) trivial).trans ih

/-- Registering the edges of a project is a run of steps. -/
theorem runs_registerEdges {source : String} {edges : List EdgeEntry} (h : registerEdges source d edges = .ok d') :
    Runs (Step.RulesHold ψ) d d' := by
  refine runs_of_loop (fun _ => rfl) (fun e _ d rest h => ?_) h
  obtain ⟨filter, -, h⟩ := bind_eq_ok_iff.mp h
  exact ⟨_, Runs.single (.dependency ⟨source, e.project, e.visibility, filter⟩) trivial, h⟩

/-- Registering the rules of a project is a run of steps. -/
theorem runs_registerRules {project : String} {entries : List RuleEntry} (h : registerRules project d entries = .ok d')
    (hentries : ∀ entry ∈ entries, ∀ r, entry.rule = .ok r → ψ r) : Runs (Step.RulesHold ψ) d d' := by
  refine runs_of_loop (fun _ => rfl) (fun entry hentry d rest h => ?_) h
  obtain ⟨r, hr, h⟩ := bind_eq_ok_iff.mp h
  obtain ⟨d₁, hd₁, h⟩ := bind_eq_ok_iff.mp h
  exact ⟨d₁, Runs.of_accepted (.projectRule project r) hd₁ (hentries entry hentry r hr), h⟩

/-- What is registered of a project once it is declared: its dependencies, its edges and its rules. -/
theorem runs_registerParts {p : ProjectEntry}
    (h : (do
      let d ← registerEdges p.name
        (p.privateDependencies.foldl (registerDependency p.name .priv)
          (p.publicDependencies.foldl (registerDependency p.name .pub) d)) p.edges
      registerRules p.name d p.rules) = .ok d')
    (hp : ∀ entry ∈ p.rules, ∀ r, entry.rule = .ok r → ψ r) : Runs (Step.RulesHold ψ) d d' := by
  obtain ⟨d₁, hd₁, h⟩ := bind_eq_ok_iff.mp h
  have hdependencies := (runs_registerDependencies (d := d) (ψ := ψ) p.name .pub p.publicDependencies).trans
    (runs_registerDependencies p.name .priv p.privateDependencies)
  exact (hdependencies.trans (runs_registerEdges hd₁)).trans (runs_registerRules h hp)

/-- Registering a project with its edges and rules is a run of steps. -/
theorem runs_registerProject {p : ProjectEntry} (h : m.registerProject root d p = .ok d')
    (hp : ∀ entry ∈ p.rules, ∀ r, entry.rule = .ok r → ψ r) : Runs (Step.RulesHold ψ) d d' := by
  obtain ⟨project, -, h⟩ := bind_eq_ok_iff.mp h
  dsimp only at h
  split at h
  · obtain ⟨d₁, hd₁, h⟩ := bind_eq_ok_iff.mp h
    cases hd₁
    exact (Runs.single (.replaceProject project) trivial).trans (runs_registerParts h hp)
  · obtain ⟨d₁, hd₁, h⟩ := bind_eq_ok_iff.mp h
    exact (Runs.of_accepted (.project project) hd₁ trivial).trans (runs_registerParts h hp)

/-- Registering the projects of a manifest is a run of steps. -/
theorem runs_registerProjects {projects : List ProjectEntry} (h : m.registerProjects root d projects = .ok d')
    (hprojects : ∀ p ∈ projects, ∀ entry ∈ p.rules, ∀ r, entry.rule = .ok r → ψ r) : Runs (Step.RulesHold ψ) d d' := by
  refine runs_of_loop (fun _ => rfl) (fun p hp d rest h => ?_) h
  obtain ⟨d₁, hd₁, h⟩ := bind_eq_ok_iff.mp h
  exact ⟨d₁, runs_registerProject hd₁ (hprojects p hp), h⟩

/-- Registering the solutions of a manifest is a run of steps. -/
theorem runs_registerSolutions {solutions : List SolutionEntry} (h : m.registerSolutions d solutions = .ok d') :
    Runs (Step.RulesHold ψ) d d' := by
  refine runs_of_loop (fun _ => rfl) (fun s _ d rest h => ?_) h
  obtain ⟨solution, -, h⟩ := bind_eq_ok_iff.mp h
  obtain ⟨d₁, hd₁, h⟩ := bind_eq_ok_iff.mp h
  exact ⟨d₁, Runs.of_accepted (.solution solution) hd₁ trivial, h⟩

/-- The declarations of a manifest come from a run in which every rule is the one of an entry. -/
theorem runs_of_declarations (h : m.declarations root = .ok d) : Runs (Step.RulesHold m.Declares) {} d := by
  obtain ⟨d₁, hd₁, h⟩ := bind_eq_ok_iff.mp h
  obtain ⟨d₂, hd₂, h⟩ := bind_eq_ok_iff.mp h
  have hcontext : Runs (Step.RulesHold m.Declares) {} (({} : Declarations).withContext (m.context root)) :=
    Runs.single (.context (m.context root)) trivial
  have hsets := runs_registerRuleSets (ψ := m.Declares) hd₁ (fun s hs entry hentry r hr =>
    ⟨entry, List.mem_append_left _ (List.mem_flatMap.mpr ⟨s, hs, hentry⟩), hr⟩)
  have hprojects := runs_registerProjects (ψ := m.Declares) hd₂ (fun p hp entry hentry r hr =>
    ⟨entry, List.mem_append_right _ (List.mem_flatMap.mpr ⟨p, hp, hentry⟩), hr⟩)
  exact ((hcontext.trans hsets).trans hprojects).trans (runs_registerSolutions h)

/-- Every rule of the workspace of a manifest is the one of an entry. -/
theorem declares_of_registered {w : Workspace} (h : m.registered root = .ok w) {p : Project} {s : RuleSet}
    (hs : s ∈ w.chainOf p) {r : Rule} (hr : r ∈ s.rules) : m.Declares r := by
  obtain ⟨d, hd, hw⟩ := bind_eq_ok_iff.mp h
  obtain ⟨rfl, -⟩ := Declarations.finish_eq_ok_iff.mp hw
  have hempty : ({} : Declarations).RulesHold m.Declares := fun id s hget => nomatch hget
  exact (runs_of_declarations hd).rulesHold hempty s.id s (Workspace.get?_of_mem_chainOf hs) r hr

end Manifest

end BuildPlan
