import BuildPlan.Proofs.Resolution.Merging
import BuildPlan.Proofs.Resolution.Outcome

/-!
# Effective dependencies

A dependency can be declared more than once: by registered edges, each for some targets, and by the rules that hold for a
target. `Workspace.declarations` lists the declarations of a project in order. The graph of a resolution has one edge for all
declarations of a dependency. It is public if one of them is, and stands where the first of them stands (`effective_edges`).
-/

namespace BuildPlan

/-- A dependency that is declared twice is public if it is declared public once. -/
theorem Visibility.union_eq_pub_iff {v v' : Visibility} : v.union v' = .pub ↔ v = .pub ∨ v' = .pub := by
  cases v <;> cases v' <;> simp [union]

namespace TargetNode

/-- A node with a dependency added has it with the visibilities together, and the others as before. -/
theorem lookup_addDependency (n : TargetNode) (dep : String) (v : Visibility) (b : String) :
    (n.addDependency dep v).dependencies.lookup b =
      if b = dep then some (((n.dependencies.lookup dep).map (fun old => old.union v)).getD v)
      else n.dependencies.lookup b := by
  unfold addDependency
  dsimp only
  rw [Keyed.lookup_set]
  cases n.dependencies.lookup dep with
  | none => rfl
  | some old => rfl

/-- A dependency of a node is public if it was before or is added as a public one. -/
theorem lookup_addDependencies_eq_pub_iff {n : TargetNode} {deps : List (String × Visibility)} {b : String} :
    (n.addDependencies deps).dependencies.lookup b = some .pub ↔
      n.dependencies.lookup b = some .pub ∨ (b, Visibility.pub) ∈ deps := by
  unfold addDependencies
  induction deps generalizing n with
  | nil => simp
  | cons d deps ih =>
    obtain ⟨dep, v⟩ := d
    rw [List.foldl_cons, ih, lookup_addDependency, List.mem_cons, ← or_assoc, Prod.mk.injEq]
    refine or_congr_left ?_
    by_cases hb : b = dep
    · subst hb
      rw [if_pos rfl]
      cases n.dependencies.lookup b with
      | none => simp [eq_comm]
      | some old => simp [Visibility.union_eq_pub_iff, eq_comm (a := Visibility.pub)]
    · simp [hb]

/-- The dependencies of a node come before those that are added, and every name comes once. -/
theorem names_addDependencies (n : TargetNode) (deps : List (String × Visibility)) :
    (n.addDependencies deps).dependencies.names = addAll n.dependencies.names (deps.map Prod.fst) := by
  unfold addDependencies
  induction deps generalizing n with
  | nil => rfl
  | cons d deps ih =>
    rw [List.foldl_cons, ih]
    unfold addDependency Keyed.set
    rw [Catalog.names_put]
    rfl

end TargetNode

/-! ### Declarations -/

/-- The dependency that a write declares, if it declares one. -/
def Write.dependency? : Write → Option (String × Visibility)
  | .dependency b v => some (b, v)
  | _ => none

namespace Workspace

variable {w : Workspace} {p : Project} {t : Target}

/-- The dependencies that the rules of a project declare on a target, in order: the rules that hold for the target are applied
one after the other, and each declares what it writes given the configuration it finds. -/
def ruleDeclarations (w : Workspace) (p : Project) (t : Target) : List (String × Visibility) :=
  (((Configuration.initial p.name t).ruleLog (w.appliedRules p t)).map Prod.snd).filterMap Write.dependency?

/-- The dependencies that are declared for a project on a target, in order: first those of the registered edges that exist for
the target, then those of the rules. -/
def declarations (w : Workspace) (p : Project) (t : Target) : List (String × Visibility) :=
  (w.edges.filter (fun e => e.source == p.name && e.filter.admits t)).map (fun e => (e.dependency, e.visibility)) ++
    w.ruleDeclarations p t

/-- A dependency of `a` on `b` is declared with a visibility: by a registered edge that exists for the target, or by a rule that
holds for it, given the configuration that the rules before it leave. -/
def Declares (w : Workspace) (t : Target) (a b : String) (v : Visibility) : Prop :=
  ∃ p, w.projects.get? a = some p ∧
    ((∃ e ∈ w.edges, e.source = a ∧ e.dependency = b ∧ e.visibility = v ∧ e.filter.admits t = true) ∨
      ∃ before x after, w.appliedRules p t = before ++ x :: after ∧
        Write.dependency b v ∈ x.2 (((Configuration.initial p.name t).applyRules before).beginRule x.1))

/-- What the rules of a project declare is what its configuration collects. -/
theorem declared_chainConfiguration (w : Workspace) (p : Project) (t : Target) :
    (w.chainConfiguration p t).declared = w.ruleDeclarations p t := by
  have hholds := (Configuration.holds_initial p.name t).applyRules (w.appliedRules p t)
  have hone : ∀ e : String × Write,
      (e.2.dependencies e.1).map (fun d => (d.project, d.visibility)) = e.2.dependency?.toList := by
    rintro ⟨label, x⟩
    cases x <;> rfl
  rw [chainConfiguration, Configuration.declared, hholds.dependencies, List.nil_append, List.map_flatMap, ruleDeclarations,
    List.filterMap_map, List.filterMap_eq_flatMap_toList]
  exact List.flatMap_congr (fun e _ => hone e)

/-- A node is made of the declarations of its project. -/
theorem declaredEdges_eq (w : Workspace) (p : Project) (t : Target) : w.declaredEdges p t = w.declarations p t := by
  rw [declarations, ← declared_chainConfiguration]
  rfl

/-- The rules declare what one of them writes as a dependency. -/
theorem mem_ruleDeclarations_iff {b : String} {v : Visibility} :
    (b, v) ∈ w.ruleDeclarations p t ↔ ∃ before x after, w.appliedRules p t = before ++ x :: after ∧
      Write.dependency b v ∈ x.2 (((Configuration.initial p.name t).applyRules before).beginRule x.1) := by
  rw [← declared_chainConfiguration, chainConfiguration, Configuration.mem_declared_applyRules]
  exact or_iff_right List.not_mem_nil

/-- A project declares what is among its declarations. -/
theorem declares_iff {a b : String} {v : Visibility} (hp : w.projects.get? a = some p) :
    w.Declares t a b v ↔ (b, v) ∈ w.declarations p t := by
  have hname : p.name = a := Catalog.name_of_get? hp
  have hregistered : (b, v) ∈ (w.edges.filter (fun e => e.source == p.name && e.filter.admits t)).map
      (fun e => (e.dependency, e.visibility)) ↔
        ∃ e ∈ w.edges, e.source = a ∧ e.dependency = b ∧ e.visibility = v ∧ e.filter.admits t = true := by
    simp only [List.mem_map, List.mem_filter, Bool.and_eq_true, beq_iff_eq, Prod.mk.injEq, hname]
    constructor
    · rintro ⟨e, ⟨he, hs, ha⟩, hb, hv⟩
      exact ⟨e, he, hs, hb, hv, ha⟩
    · rintro ⟨e, he, hs, hb, hv, ha⟩
      exact ⟨e, ⟨he, hs, ha⟩, hb, hv⟩
  rw [declarations, List.mem_append, hregistered, mem_ruleDeclarations_iff]
  constructor
  · rintro ⟨q, hq, h⟩
    rw [hp, Option.some.injEq] at hq
    subst hq
    exact h
  · exact fun h => ⟨p, hp, h⟩

/-- What a project requires is what is declared for it. -/
theorem requires_iff_exists_declares {a b : String} : w.Requires t a b ↔ ∃ v, w.Declares t a b v := by
  constructor
  · rintro ⟨p, hp, ⟨e, he, hs, hb, ha⟩ | ⟨before, x, after, v, hrules, hx⟩⟩
    · exact ⟨e.visibility, p, hp, Or.inl ⟨e, he, hs, hb, rfl, ha⟩⟩
    · exact ⟨v, p, hp, Or.inr ⟨before, x, after, hrules, hx⟩⟩
  · rintro ⟨v, p, hp, ⟨e, he, hs, hb, -, ha⟩ | ⟨before, x, after, hrules, hx⟩⟩
    · exact ⟨p, hp, Or.inl ⟨e, he, hs, hb, ha⟩⟩
    · exact ⟨p, hp, Or.inr ⟨before, x, after, v, hrules, hx⟩⟩

/-! ### The node of a project -/

/-- The dependencies of a node stand where they are declared first. -/
theorem names_dependencies_node (w : Workspace) (p : Project) (t : Target) :
    (w.node p t).dependencies.names = ((w.declarations p t).map Prod.fst).eraseDups := by
  rw [node, TargetNode.names_addDependencies, declaredEdges_eq, ← distinct_eq_eraseDups]
  rfl

/-- A dependency of a node is public if one of its declarations is. -/
theorem lookup_dependencies_node_eq_pub_iff {b : String} :
    (w.node p t).dependencies.lookup b = some .pub ↔ (b, Visibility.pub) ∈ w.declarations p t := by
  rw [node, TargetNode.lookup_addDependencies_eq_pub_iff, declaredEdges_eq]
  exact or_iff_right (fun h => nomatch h)

end Workspace

/-! ### A dependency that is declared often -/

namespace Workspace

/-- A project with a rule set of its own. -/
def loggingProject : Project := { name := "App", sourceRoot := "app", ruleSet := some "logging" }

/-- A project that depends on two others: on the first one by three edges, one of them public, and by a rule, on the second one
by the rule alone. -/
def declaredOften : Workspace where
  projects := Catalog.ofList [loggingProject, { name := "Core", sourceRoot := "core" }, { name := "Log", sourceRoot := "log" }]
  edges := [
    { source := "App", dependency := "Core", visibility := .priv },
    { source := "App", dependency := "Core", visibility := .pub },
    { source := "App", dependency := "Core", visibility := .priv }]
  rules := ⟨Catalog.ofList [{
    id := "logging"
    rules := [{ name := "log", writes := .always [.dependency "Log" .priv, .dependency "Core" .priv] }] }]⟩

/-- The chain of the project of the sample has all rule sets. -/
theorem chainOf_loggingProject : declaredOften.chainOf loggingProject = declaredOften.rules.sets.items := by
  simp only [chainOf, loggingProject, RuleRegistry.chain]
  rw [RuleSet.walk]
  rfl

/-- The project of the sample declares one dependency several times, by edges and by rules. -/
theorem declarations_loggingProject : declaredOften.declarations loggingProject {} =
    [("Core", .priv), ("Core", .pub), ("Core", .priv), ("Log", .priv), ("Core", .priv)] := by
  rw [declarations, ruleDeclarations, appliedRules, chainOf_loggingProject]
  rfl

/-- In the sample only the program requires anything. -/
theorem requires_declaredOften {a b : String} (h : declaredOften.Requires {} a b) :
    a = "App" ∧ (b = "Core" ∨ b = "Log") := by
  obtain ⟨v, hv⟩ := requires_iff_exists_declares.mp h
  obtain ⟨p, hp, -⟩ := id hv
  have hname : p.name = a := Catalog.name_of_get? hp
  have hdeclared : (b, v) ∈ declaredOften.declarations p {} := (declares_iff hp).mp hv
  have hcases : p = loggingProject ∨ declaredOften.declarations p {} = [] := by
    rcases Catalog.mem_of_get? hp with _ | ⟨_, _ | ⟨_, _ | ⟨_, hp⟩⟩⟩
    · exact Or.inl rfl
    · exact Or.inr rfl
    · exact Or.inr rfl
    · cases hp
  rcases hcases with rfl | hnone
  · rw [declarations_loggingProject] at hdeclared
    refine ⟨hname.symm, ?_⟩
    simp only [List.mem_cons, Prod.mk.injEq, List.not_mem_nil] at hdeclared
    tauto
  · rw [hnone] at hdeclared
    cases hdeclared

/-- The sample has an order with dependencies first. -/
theorem dependenciesFirst_declaredOften : DependenciesFirst (declaredOften.Requires {}) ["Core", "Log", "App"] := by
  refine ((DependenciesFirst.nil.concat ?_).concat ?_).concat ?_
  · intro b hb
    simpa using requires_declaredOften hb
  · intro b hb
    simpa using requires_declaredOften hb
  · intro b hb
    simpa using (requires_declaredOften hb).2

/-- The sample is resolved. -/
theorem declaredOften_resolved : ∃ r store, declaredOften.resolve false ["App"] {} {} = (.ok r, store) := by
  obtain ⟨hneeded, hacyclic⟩ := needed_of_dependenciesFirst dependenciesFirst_declaredOften
    (by decide : ∀ x ∈ ["App"], x ∈ ["Core", "Log", "App"])
  have hnames : ∀ x ∈ ["Core", "Log", "App"], x ∈ declaredOften.projects.names := by decide
  have hagreeing : declaredOften.AllAgreeing false {} ["App"] := by
    intro x p _ _ hstrict
    cases hstrict
  have hvariants : declaredOften.AllVariants {} ["App"] := by
    intro a b _ hab
    rcases (requires_declaredOften hab).2 with rfl | rfl
    · exact ⟨_, rfl, rfl, Or.inl nofun⟩
    · exact ⟨_, rfl, rfl, Or.inl nofun⟩
  obtain ⟨s, hs⟩ := exists_schedule_eq_ok_iff.mpr ⟨fun x hx => hnames x (hneeded x hx), hagreeing, hvariants, hacyclic⟩
  exact exists_resolve_of_schedule (fun _ => rfl) hs

end Workspace

/-! ### The edges of a resolution -/

namespace Resolved

variable {w : Workspace} {t : Target} {roots : List String} {d : Discovery} {r : Resolution} {store : DescriptorStore}
  {a b : String}

/-- The nodes of a resolution are made of the needed projects. -/
theorem node?_eq_some_iff (h : Resolved w t roots d r store) {n : TargetNode} :
    r.graph.node? a = some n ↔ w.Needed t roots a ∧ ∃ p, w.projects.get? a = some p ∧ n = w.node p t := by
  rw [h.graph]
  exact h.found.node? a n

/-- An edge of a resolution is a declared dependency of a needed project. -/
theorem edge_iff (h : Resolved w t roots d r store) :
    r.graph.Edge a b ↔ w.Needed t roots a ∧ ∃ v, w.Declares t a b v := by
  rw [h.graph, h.found.edge_iff, Workspace.requires_iff_exists_declares]

/-- A public edge of a resolution is a dependency of a needed project that is declared public. -/
theorem publicEdge_iff (h : Resolved w t roots d r store) :
    r.graph.PublicEdge a b ↔ w.Needed t roots a ∧ w.Declares t a b .pub := by
  unfold TargetGraph.PublicEdge TargetGraph.visibility?
  rw [Option.bind_eq_some_iff]
  constructor
  · rintro ⟨n, hn, hb⟩
    obtain ⟨ha, p, hp, rfl⟩ := h.node?_eq_some_iff.mp hn
    exact ⟨ha, (Workspace.declares_iff hp).mpr (Workspace.lookup_dependencies_node_eq_pub_iff.mp hb)⟩
  · rintro ⟨ha, hv⟩
    obtain ⟨p, hp⟩ := h.found.declared a ha
    exact ⟨w.node p t, h.node?_eq_some_iff.mpr ⟨ha, p, hp, rfl⟩,
      Workspace.lookup_dependencies_node_eq_pub_iff.mpr ((Workspace.declares_iff hp).mp hv)⟩

end Resolved

/-- The edges of a resolution. A project of the graph depends on a name exactly if a registered edge that exists for the target
or a rule that holds for it declares the dependency. The edge is there once, and it is public exactly if one of the declarations
is. The dependencies of a project stand in the order in which they are declared first, by the registered edges in their order
and then by the rules. -/
theorem effective_edges {w : Workspace} {strict : Bool} {roots : List String} {t : Target} {store store' : DescriptorStore}
    {r : Resolution} (h : w.resolve strict roots t store = (.ok r, store')) :
    (∀ a b, r.graph.Edge a b ↔ w.Needed t roots a ∧ ∃ v, w.Declares t a b v) ∧
    (∀ a, (r.graph.successors a).Nodup) ∧
    (∀ a b, r.graph.PublicEdge a b ↔ w.Needed t roots a ∧ w.Declares t a b .pub) ∧
    ∀ a p, w.Needed t roots a → w.projects.get? a = some p →
      r.graph.successors a = ((w.declarations p t).map Prod.fst).eraseDups := by
  obtain ⟨d, hr⟩ := Workspace.exists_resolved h
  refine ⟨fun a b => hr.edge_iff, fun a => ?_, fun a b => hr.publicEdge_iff, fun a p ha hp => ?_⟩
  · unfold TargetGraph.successors
    cases r.graph.node? a with
    | none => exact List.nodup_nil
    | some n => exact n.dependencies.nodup
  · unfold TargetGraph.successors
    rw [hr.node?_eq_some_iff.mpr ⟨ha, p, hp, rfl⟩]
    exact w.names_dependencies_node p t

/-- Both dependencies are there once, and the one that is declared public once is public. -/
theorem effective_edges_declaredOften :
    ∃ r store', Workspace.declaredOften.resolve false ["App"] {} {} = (.ok r, store') ∧
      r.graph.successors "App" = ["Core", "Log"] ∧ r.graph.PublicEdge "App" "Core" ∧ ¬r.graph.PublicEdge "App" "Log" := by
  obtain ⟨r, store', h⟩ := Workspace.declaredOften_resolved
  obtain ⟨-, -, hpublic, horder⟩ := effective_edges h
  have hneeded : Workspace.declaredOften.Needed {} ["App"] "App" := ⟨"App", List.mem_singleton.mpr rfl, .refl⟩
  have hget : Workspace.declaredOften.projects.get? "App" = some Workspace.loggingProject := rfl
  refine ⟨r, store', h, ?_, ?_, ?_⟩
  · rw [horder "App" _ hneeded hget, Workspace.declarations_loggingProject]
    decide
  · rw [hpublic, Workspace.declares_iff hget, Workspace.declarations_loggingProject]
    exact ⟨hneeded, by decide⟩
  · rw [hpublic, Workspace.declares_iff hget, Workspace.declarations_loggingProject]
    rintro ⟨-, hlog⟩
    exact absurd hlog (by decide)

end BuildPlan
