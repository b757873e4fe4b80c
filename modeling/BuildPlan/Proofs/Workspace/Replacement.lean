import BuildPlan.Proofs.Workspace.Steps

/-!
# What a replacement leaves

A project that is replaced leaves its name, its place among the projects and the edges that lead to it (`Forgets`). The run
that ends with the replacement is compared with one in which the new declaration stands in the place of the old one, and the
steps that made rules and edges of the old one are missing: after each step the collected declarations of the second run are
those of the first one without what belongs to the project (`Mirrors`, kept by `Mirrors.run`), and the replacement makes them
equal (`replacement_forgets`).
-/

namespace BuildPlan.Declarations

variable {d d' : Declarations} {n : String} {step : Step} {steps : List Step} {declared : Option Project}

/-- Declarations without what was made for the project of a name: no edge leaves the project and no rule set has its name. The
names of the projects, the other projects, the other edges and rule sets and their order, and all else are the same. -/
structure Forgets (n : String) (d d' : Declarations) : Prop where
  names : d'.projects.names = d.projects.names
  others : ∀ m, m ≠ n → d'.projects.get? m = d.projects.get? m
  edges : d'.edges = d.edges.filter (fun e => e.source != n)
  ruleSets : d'.ruleSets = d.ruleSets.erase n
  solutions : d'.solutions = d.solutions
  context : d'.context = d.context

/-- A step that makes a rule of the project of a name or an edge that leaves it. -/
def Step.belongsTo (n : String) : Step → Bool
  | .projectRule name _ => name == n
  | .rule id _ => id == n
  | .dependency e => e.source == n
  | _ => false

/-- A step that replaces the project of a name or registers a rule set of this name. -/
def Step.Redeclares (n : String) : Step → Prop
  | .replaceProject p => p.name = n
  | .ruleSet s => s.id = n
  | _ => False

namespace Forgets

theorem get?_ruleSets (h : Forgets n d d') {id : String} (hid : id ≠ n) : d'.ruleSets.get? id = d.ruleSets.get? id := by
  rw [h.ruleSets, Catalog.get?_erase, if_neg hid]

theorem mem_ruleSets (h : Forgets n d d') {id : String} (hid : id ≠ n) :
    id ∈ d'.ruleSets.names ↔ id ∈ d.ruleSets.names := by
  rw [h.ruleSets, Catalog.mem_names_erase]
  exact and_iff_left hid

/-- A project is put in both. -/
theorem putProject (h : Forgets n d d') (p : Project) :
    Forgets n { d with projects := d.projects.put p } { d' with projects := d'.projects.put p } where
  names := by
    dsimp only
    rw [Catalog.names_put, Catalog.names_put, h.names]
  others m hm := by
    dsimp only
    rw [Catalog.get?_put, Catalog.get?_put, h.others m hm]
  edges := h.edges
  ruleSets := h.ruleSets
  solutions := h.solutions
  context := h.context

/-- Another rule set is put in both. -/
theorem putRuleSet (h : Forgets n d d') {s : RuleSet} (hs : s.id ≠ n) :
    Forgets n { d with ruleSets := d.ruleSets.put s } { d' with ruleSets := d'.ruleSets.put s } :=
  { h with
    ruleSets := by
      dsimp only
      rw [h.ruleSets, Catalog.erase_put_of_ne hs] }

/-- What is put for the project of the name makes no difference. -/
theorem putOwnProject (h : Forgets n d d') {p : Project} (hp : p.name = n) (hmem : n ∈ d.projects.names) :
    Forgets n { d with projects := d.projects.put p } d' :=
  { h with
    names := by
      have htaken : p.name ∈ d.projects.names := by rwa [hp]
      exact h.names.trans (Catalog.names_put_of_taken htaken).symm
    others := fun m hm => by
      have hne : p.name ≠ m := fun he => hm (he.symm.trans hp)
      exact (h.others m hm).trans (Catalog.get?_put_of_ne hne).symm }

/-- Nor does a rule set of the name. -/
theorem putOwnRuleSet (h : Forgets n d d') {s : RuleSet} (hs : s.id = n) :
    Forgets n { d with ruleSets := d.ruleSets.put s } d' :=
  { h with
    ruleSets := by
      dsimp only
      rw [h.ruleSets, Catalog.erase_put_self hs] }

theorem next_rule (h : Forgets n d d') {id : String} (hid : id ≠ n) (r : Rule) :
    Forgets n (d.next (.rule id r)) (d'.next (.rule id r)) := by
  rw [Declarations.next_rule, Declarations.next_rule, h.get?_ruleSets hid]
  split
  · exact h
  · rename_i s hs
    have hname : s.id = id := Catalog.name_of_get? hs
    exact h.putRuleSet (fun he => hid (hname.symm.trans he))

/-- A step that does not belong to the project is made in both. -/
theorem next (h : Forgets n d d') (hother : step.belongsTo n = false) (hnot : ¬step.Redeclares n) :
    Forgets n (d.next step) (d'.next step) := by
  cases step with
  | project p =>
    rw [next_project, next_project, h.names]
    split
    · exact h
    · exact h.putProject p
  | replaceProject p =>
    have hne : p.name ≠ n := hnot
    rw [next_replaceProject, next_replaceProject, h.names, h.others p.name hne]
    refine { h.putProject p with edges := ?_, ruleSets := ?_ }
    · dsimp only
      rw [h.edges]
      split
      · exact List.filter_comm _ _ _
      · rfl
    · dsimp only
      rw [h.ruleSets]
      split
      · exact Catalog.erase_comm _ _ _
      · rfl
  | ruleSet s =>
    have hne : s.id ≠ n := hnot
    rw [next_ruleSet, next_ruleSet]
    simp only [h.mem_ruleSets hne]
    split
    · exact h
    · exact h.putRuleSet hne
  | rule id r => exact h.next_rule (ne_of_beq_false hother) r
  | projectRule name r =>
    have hne : name ≠ n := ne_of_beq_false hother
    rw [next_projectRule, next_projectRule, h.others name hne]
    simp only [h.mem_ruleSets hne]
    split
    · exact h
    · rename_i p hp
      split
      · exact h.next_rule hne r
      · split
        · exact h
        · exact (h.putRuleSet (s := { id := name, base := p.ruleSet, rules := [r] }) hne).putProject _
  | dependency e =>
    have hne : (e.source != n) = true := bne_iff_ne.mpr (ne_of_beq_false hother)
    refine { h with edges := ?_ }
    rw [next_dependency, next_dependency]
    dsimp only
    rw [h.edges, List.filter_append, List.filter_singleton, hne]
    rfl
  | solution s =>
    rw [next_solution, next_solution, h.solutions]
    split
    · exact h
    · exact { h with solutions := rfl }
  | context c =>
    rw [next_context, next_context]
    exact { h with context := rfl }

/-- A step that belongs to the project is made in the first one only. -/
theorem next_of_belongsTo (h : Forgets n d d') (hown : step.belongsTo n = true) : Forgets n (d.next step) d' := by
  have hrule : ∀ r, Forgets n (d.next (.rule n r)) d' := by
    intro r
    rw [Declarations.next_rule]
    split
    · exact h
    · rename_i s hs
      exact h.putOwnRuleSet (Catalog.name_of_get? hs)
  cases step with
  | rule id r =>
    have hid : id = n := eq_of_beq hown
    exact hid ▸ hrule r
  | projectRule name r =>
    have hname : name = n := eq_of_beq hown
    subst hname
    rw [next_projectRule]
    split
    · exact h
    · rename_i p hp
      split
      · exact hrule r
      · split
        · exact h
        · have hput := h.putOwnRuleSet (s := { id := name, base := p.ruleSet, rules := [r] }) rfl
          exact hput.putOwnProject (Catalog.name_of_get? hp) (Catalog.mem_names_of_get? hp)
  | dependency e =>
    have hsource : (e.source != n) = false := by rw [bne, show (e.source == n) = true from hown]; rfl
    refine { h with edges := ?_ }
    rw [next_dependency]
    dsimp only
    rw [h.edges, List.filter_append, List.filter_singleton, hsource]
    simp
  | project p => cases hown
  | replaceProject p => cases hown
  | ruleSet s => cases hown
  | solution s => cases hown
  | context c => cases hown

end Forgets

/-! ### Two runs side by side -/

/-- A rule set of the name of a project is used by this project. -/
def OwnsRuleSet (n : String) (d : Declarations) : Prop :=
  n ∈ d.ruleSets.names → (d.projects.get? n).bind Project.ruleSet = some n

/-- As long as no rule set is registered under the name, only the project itself has one of it. -/
theorem OwnsRuleSet.next (h : OwnsRuleSet n d) (hnot : ¬step.Redeclares n) : OwnsRuleSet n (d.next step) := by
  intro hmem
  rcases mem_ruleSets_next hmem with hold | ⟨s, rfl, hs⟩ | ⟨q, hq, hset⟩
  · have hset := h hold
    rw [get?_projects_next (fun _ _ _ => hold)]
    cases hget : d.projects.get? n with
    | none => simp [hget] at hset
    | some q =>
      rw [hget] at hset
      cases step with
      | project p =>
        rw [Step.declare, Option.some_or, ite_self]
        exact hset
      | replaceProject p =>
        have hne : p.name ≠ n := hnot
        rw [Step.declare, if_neg hne]
        exact hset
      | _ => exact hset
  · exact absurd hs hnot
  · rw [hq]
    exact hset

/-- Two runs side by side: the second one has what the first one has without what belongs to the project, and the project
itself as it is declared there. -/
structure Mirrors (n : String) (declared : Option Project) (d d' : Declarations) : Prop extends Forgets n d d' where
  own : OwnsRuleSet n d
  declared : d'.projects.get? n = declared

namespace Mirrors

/-- A step is made in both runs, or in the first one only if it belongs to the project. -/
theorem next (h : Mirrors n declared d d') (hnot : ¬step.Redeclares n)
    (hdeclared : ∀ p, step = .project p → p.name = n → declared.isSome) :
    Mirrors n declared (d.next step) (if step.belongsTo n then d' else d'.next step) := by
  have hown := h.own.next hnot
  split
  · rename_i hbelongs
    exact ⟨h.next_of_belongsTo hbelongs, hown, h.declared⟩
  · rename_i hbelongs
    have hother := eq_false_of_ne_true hbelongs
    refine ⟨h.toForgets.next hother hnot, hown, ?_⟩
    rw [get?_projects_next (fun r hr => by rw [hr] at hbelongs; exact absurd (beq_self_eq_true n) hbelongs),
      h.declared]
    cases step with
    | project p =>
      rw [Step.declare]
      split
      · rename_i hp
        obtain ⟨q, hq⟩ := Option.isSome_iff_exists.mp (hdeclared p rfl hp)
        rw [hq, Option.some_or]
      · rfl
    | replaceProject p => exact if_neg hnot
    | _ => rfl

/-- The runs stay side by side. -/
theorem run (h : Mirrors n declared d d') (hnot : ∀ step ∈ steps, ¬step.Redeclares n)
    (hdeclared : ∀ p, .project p ∈ steps → p.name = n → declared.isSome) :
    Mirrors n declared (steps.foldl Declarations.next d)
      ((steps.filter (fun step => !step.belongsTo n)).foldl Declarations.next d') := by
  induction steps generalizing d d' with
  | nil => exact h
  | cons step steps ih =>
    obtain ⟨hstep, hrest⟩ := List.forall_mem_cons.mp hnot
    have hnext := h.next hstep (fun p hp => hdeclared p (hp ▸ List.mem_cons_self))
    have hsteps := ih hnext hrest (fun p hp => hdeclared p (List.mem_cons_of_mem _ hp))
    rw [List.foldl_cons, List.filter_cons]
    cases hbelongs : step.belongsTo n with
    | true => simpa [hbelongs] using hsteps
    | false => simpa [hbelongs] using hsteps

/-- The project is declared, in the second run as it will be. Before that there was no rule set of its name. -/
theorem declare (h : Mirrors n none d d') {p p' : Project} (hp : p.name = n) (hp' : p'.name = n) :
    Mirrors n (some p') (d.next (.project p)) (d'.next (.project p')) := by
  have hnew' : p'.name ∉ d'.projects.names := hp' ▸ Catalog.get?_eq_none_iff.mp h.declared
  have hnew : p.name ∉ d.projects.names := by rwa [hp, ← hp', ← h.names]
  rw [next_project, if_neg hnew, next_project, if_neg hnew']
  refine ⟨{ h.toForgets with names := ?_, others := fun m hm => ?_ }, fun hmem => ?_, ?_⟩
  · have hsame : Named.name p' = Named.name p := hp'.trans hp.symm
    dsimp only
    rw [Catalog.names_put, Catalog.names_put, h.names, hsame]
  · have hne : p.name ≠ m := fun he => hm (he.symm.trans hp)
    have hne' : p'.name ≠ m := fun he => hm (he.symm.trans hp')
    exact (Catalog.get?_put_of_ne hne').trans ((h.others m hm).trans (Catalog.get?_put_of_ne hne).symm)
  · rw [hp, ← Catalog.get?_eq_none_iff] at hnew
    have hset := h.own hmem
    rw [hnew] at hset
    cases hset
  · exact Catalog.get?_put_of_name hp'

/-- The replacement makes the first run equal to the second one. -/
theorem replace {p' : Project} (h : Mirrors n (some p') d d') (hp' : p'.name = n) : d.next (.replaceProject p') = d' := by
  have hmem : p'.name ∈ d.projects.names := by
    rw [hp', ← h.names]
    exact Catalog.mem_names_of_get? h.declared
  have hprojects : d.projects.put p' = d'.projects := by
    refine Catalog.ext_get? ((Catalog.names_put_of_taken hmem).trans h.names.symm) (fun m => ?_)
    by_cases hm : m = n
    · rw [hm, h.declared]
      exact Catalog.get?_put_of_name hp'
    · have hne : p'.name ≠ m := fun he => hm (he.symm.trans hp')
      exact (Catalog.get?_put_of_ne hne).trans (h.others m hm).symm
  have hruleSets : (if (d.projects.get? p'.name).bind Project.ruleSet = some p'.name then d.ruleSets.erase p'.name
      else d.ruleSets) = d'.ruleSets := by
    rw [hp', h.ruleSets]
    split
    · rfl
    · rename_i hnot
      exact (Catalog.erase_of_not_mem (fun hmem => hnot (h.own hmem))).symm
  have hedges : d.edges.filter (fun e => e.source != p'.name) = d'.edges := by rw [h.edges, hp']
  rw [next_replaceProject, if_pos hmem, hprojects, hruleSets, hedges, ← h.solutions, ← h.context]

end Mirrors

theorem mirrors_empty (n : String) : Mirrors n none {} {} where
  names := rfl
  others _ _ := rfl
  edges := rfl
  ruleSets := rfl
  solutions := rfl
  context := rfl
  own hmem := nomatch hmem
  declared := rfl

/-- Replacing a project forgets its earlier declaration. A project is declared once, where no rule set is registered under its
name and it is not replaced before; then it is replaced. What is collected is what would be if the new declaration stood in
the place of the old one, and all steps that made rules of the project or edges that leave it were missing. So no such edge
and no rule set of its name is left, and the place of the project, the edges that lead to it and everything of other projects
are as they were before the replacement. -/
theorem replacement_forgets {before after : List Step} {p p' : Project} (hp : p.name = n) (hp' : p'.name = n)
    (hbefore : ∀ step ∈ before, ¬step.Redeclares n ∧ ∀ q, step = .project q → q.name ≠ n)
    (hafter : ∀ step ∈ after, ¬step.Redeclares n) :
    ofSteps (before ++ .project p :: after ++ [.replaceProject p']) =
        ofSteps (before.filter (fun step => !step.belongsTo n) ++
          .project p' :: after.filter (fun step => !step.belongsTo n)) ∧
      Forgets n (ofSteps (before ++ .project p :: after))
        (ofSteps (before ++ .project p :: after ++ [.replaceProject p'])) ∧
      (ofSteps (before ++ .project p :: after ++ [.replaceProject p'])).projects.get? n = some p' := by
  have hstart := (mirrors_empty n).run (fun step hstep => (hbefore step hstep).1)
    (fun q hq hn => absurd hn ((hbefore _ hq).2 q rfl))
  have hend := (hstart.declare hp hp').run hafter (fun _ _ _ => rfl)
  have heq := hend.replace hp'
  rw [ofSteps_concat, ofSteps_append, ofSteps_append]
  exact ⟨heq, heq ▸ hend.toForgets, heq ▸ hend.declared⟩

/-- A project with a rule and an edge, on which another project depends, is replaced by one that has neither. -/
theorem replacement_forgets_legacy :
    let core : Project := { name := "Core", sourceRoot := "Core" }
    let old : Project := { name := "Old", sourceRoot := "Old" }
    let new : Project := { name := "Old", sourceRoot := "New" }
    let uses : DependencyEdge := { source := "Core", dependency := "Old" }
    ofSteps ([.project core, .dependency { source := "Old", dependency := "Core" }] ++ .project old ::
        [.projectRule "Old" { name := "legacy" }, .dependency uses] ++ [.replaceProject new]) =
      ofSteps [.project core, .project new, .dependency uses] := by
  refine (replacement_forgets (n := "Old") rfl rfl ?_ ?_).1
  · simp [Step.Redeclares]
  · simp [Step.Redeclares]

end BuildPlan.Declarations
