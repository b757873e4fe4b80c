import BuildPlan.Proofs.Graph.Edges
import BuildPlan.Proofs.Resolution.Local
import BuildPlan.Resolution.Discovery

/-!
# What a discovery finds

`Workspace.Requires` is the dependency relation of a target as it is declared, and `Workspace.Needed` is the least set of
names that holds some roots and all that its members require. A discovery that succeeds is the graph of this relation on
these names, with their local configurations (`discovered_of_ofRoots`). It succeeds exactly if every such name is declared
and, in strict mode, has no conflict (`exists_ofRoots_eq_ok_iff`).
-/

namespace BuildPlan

open Relation

namespace TargetNode

/-- Adding dependencies to a node leaves its name and its index. -/
theorem addDependencies_frame (n : TargetNode) (deps : List (String × Visibility)) :
    (n.addDependencies deps).name = n.name ∧ (n.addDependencies deps).index = n.index := by
  unfold addDependencies
  induction deps generalizing n with
  | nil => exact ⟨rfl, rfl⟩
  | cons d deps ih => exact ih (n.addDependency d.1 d.2)

/-- A node with dependencies added depends on what it depended on and on what was added. -/
theorem mem_dependencies_addDependencies {n : TargetNode} {deps : List (String × Visibility)} {b : String} :
    b ∈ (n.addDependencies deps).dependencies.names ↔ b ∈ n.dependencies.names ∨ b ∈ deps.map Prod.fst := by
  unfold addDependencies
  induction deps generalizing n with
  | nil => simp
  | cons d deps ih =>
    rw [List.foldl_cons, ih, List.map_cons, List.mem_cons, ← or_assoc]
    exact or_congr_left Keyed.mem_names_set

end TargetNode

namespace Workspace

variable {w : Workspace} {t : Target} {roots : List String} {strict : Bool}

/-! ### The dependency relation -/

/-- A project requires a name on a target: a registered edge that exists for the target leads there, or a rule that holds
for the target declares the dependency. -/
def Requires (w : Workspace) (t : Target) (a b : String) : Prop :=
  ∃ p, w.projects.get? a = some p ∧
    ((∃ e ∈ w.edges, e.source = a ∧ e.dependency = b ∧ e.filter.admits t = true) ∨ w.DeclaresDependency p t b)

/-- The least set of names that holds the roots and all that its members require. -/
def Needed (w : Workspace) (t : Target) (roots : List String) (x : String) : Prop :=
  ∃ r ∈ roots, ReflTransGen (w.Requires t) r x

/-- What a needed project requires is needed. -/
theorem Needed.tail {a b : String} (h : w.Needed t roots a) (hab : w.Requires t a b) : w.Needed t roots b := by
  obtain ⟨r, hr, hra⟩ := h
  exact ⟨r, hr, hra.tail hab⟩

theorem name_node (w : Workspace) (p : Project) (t : Target) : (w.node p t).name = p.name :=
  (TargetNode.addDependencies_frame _ _).1

/-- The node of a project depends on the ends of its edges for the target and on what the rules declare. -/
theorem mem_dependencies_node {p : Project} {b : String} :
    b ∈ (w.node p t).dependencies.names ↔
      (∃ e ∈ w.edges, e.source = p.name ∧ e.dependency = b ∧ e.filter.admits t = true) ∨ w.DeclaresDependency p t b := by
  rw [declaresDependency_iff]
  unfold node
  rw [TargetNode.mem_dependencies_addDependencies, declaredEdges, edgesFor, List.map_append, List.mem_append]
  have hempty : b ∉ (∅ : Keyed Visibility).names := List.not_mem_nil
  rw [or_iff_right hempty]
  refine or_congr ?_ ?_
  · simp only [List.map_map, List.mem_map, List.mem_filter, Bool.and_eq_true, beq_iff_eq, Function.comp_apply]
    exact ⟨fun ⟨e, ⟨he, hs, ha⟩, hb⟩ => ⟨e, he, hs, hb, ha⟩, fun ⟨e, he, hs, hb, ha⟩ => ⟨e, ⟨he, hs, ha⟩, hb⟩⟩
  · simp only [List.map_map, List.mem_map, Function.comp_apply]

/-- The dependencies of a project's node are what the project requires. -/
theorem requires_iff {a b : String} {p : Project} (h : w.projects.get? a = some p) :
    w.Requires t a b ↔ b ∈ (w.node p t).dependencies.names := by
  have hname : p.name = a := Catalog.name_of_get? h
  rw [mem_dependencies_node, hname]
  unfold Requires
  constructor
  · rintro ⟨q, hq, hb⟩
    rw [h, Option.some.injEq] at hq
    rw [hq]
    exact hb
  · exact fun hb => ⟨p, h, hb⟩

/-- What the node of a declared project depends on is required by the project. -/
theorem requires_of_mem_node {a b : String} {p : Project} {v : Visibility} (h : w.projects.get? a = some p)
    (hb : (b, v) ∈ (w.node p t).dependencies.items) : w.Requires t a b :=
  (requires_iff h).mpr (List.mem_map.mpr ⟨(b, v), hb, rfl⟩)

/-- A project requires for a target exactly its successors there. -/
theorem requires_iff_mem_successors {a b : String} : w.Requires t a b ↔ b ∈ w.successors t a := by
  unfold successors
  split
  · rename_i h
    simp [Requires, h]
  · rename_i p h
    exact requires_iff h

/-- A step of the visit leads to a required project that is declared. -/
theorem step_iff_requires {a b : String} :
    Reach.Step w.projects.names (w.successors t) a b ↔ w.Requires t a b ∧ b ∈ w.projects.names :=
  and_congr_left' requires_iff_mem_successors.symm

/-! ### The names that are visited -/

/-- Every name that the visit of the roots lists is needed. -/
theorem needed_of_mem {x : String} (h : x ∈ w.needed roots t) : w.Needed t roots x := by
  obtain ⟨r, hr, hrx⟩ := Reach.mem_closure.mp h
  exact ⟨r, hr, ReflTransGen.mono (fun a b hab => (step_iff_requires.mp hab).1) _ _ hrx⟩

/-- Where all that the visited names require is declared, every needed name is visited. -/
theorem mem_needed_of_closed (h : ∀ a ∈ w.needed roots t, ∀ b, w.Requires t a b → b ∈ w.projects.names) {x : String}
    (hx : w.Needed t roots x) : x ∈ w.needed roots t := by
  obtain ⟨r, hr, hrx⟩ := hx
  induction hrx with
  | refl => exact Reach.mem_closure.mpr ⟨r, hr, ReflTransGen.refl⟩
  | @tail a b _ hab ih =>
    obtain ⟨r', hr', hra⟩ := Reach.mem_closure.mp ih
    exact Reach.mem_closure.mpr ⟨r', hr', hra.tail (step_iff_requires.mpr ⟨hab, h a ih b hab⟩)⟩

end Workspace

/-! ### Visits -/

/-- What a discovery holds once some names are visited: for each of them the node and the local configuration of its
project. -/
structure Discovered (w : Workspace) (t : Target) (visited : String → Prop) (d : Discovery) : Prop where
  target : d.graph.target = t
  declared : ∀ x, visited x → ∃ p, w.projects.get? x = some p
  node? : ∀ x n, d.graph.node? x = some n ↔ visited x ∧ ∃ p, w.projects.get? x = some p ∧ n = w.node p t
  lookup : ∀ x l, d.locals.lookup x = some l ↔ visited x ∧ ∃ p, w.projects.get? x = some p ∧ l = w.localConfiguration p t

namespace Discovery

variable {w : Workspace} {t : Target} {roots : List String} {strict : Bool}

/-- A project is found by its name exactly if it is declared under it. -/
theorem project_eq_ok_iff {x : String} {p : Project} : w.project x = .ok p ↔ w.projects.get? x = some p := by
  unfold Workspace.project
  cases w.projects.get? x <;> simp

/-- A visit succeeds exactly if the project is declared, its rules agree in strict mode and all it requires is declared. -/
theorem visit_eq_ok_iff {d d' : Discovery} {x : String} :
    visit w strict t d x = .ok d' ↔ ∃ p, w.projects.get? x = some p ∧ w.Agreeing strict p t ∧
      (∀ b, w.Requires t x b → b ∈ w.projects.names) ∧
      d' = { graph := d.graph.addNode (w.node p t), locals := d.locals.set x (w.localConfiguration p t) } := by
  unfold visit
  rw [bind_eq_ok_iff]
  refine exists_congr (fun p => ?_)
  rw [project_eq_ok_iff]
  refine and_congr_right (fun hp => ?_)
  rw [bind_eq_ok_iff]
  have hfind : (w.node p t).dependencies.names.find? (fun dep => !w.projects.contains dep) = none ↔
      ∀ b, w.Requires t x b → b ∈ w.projects.names := by
    simp [List.find?_eq_none, Workspace.requires_iff hp, Catalog.contains]
  constructor
  · rintro ⟨l, hl, h⟩
    obtain ⟨ha, rfl⟩ := Workspace.compileLocal_eq_ok_iff.mp hl
    dsimp only at h
    split at h
    · cases h
    · rename_i hnone
      cases h
      exact ⟨ha, hfind.mp hnone, rfl⟩
  · rintro ⟨ha, hdecl, rfl⟩
    refine ⟨w.localConfiguration p t, Workspace.compileLocal_eq_ok_iff.mpr ⟨ha, rfl⟩, ?_⟩
    dsimp only
    rw [hfind.mpr hdecl]
    rfl

/-- A visit fails because a name is not declared or because rules are in conflict. -/
theorem visit_eq_error {d : Discovery} {x : String} {e : BuildError} (h : visit w strict t d x = .error e) :
    (∃ name reference, e = .unknownProject name reference) ∨ ∃ project conflict, e = .scalarConflict project conflict := by
  unfold visit at h
  rcases bind_eq_error_iff.mp h with h | ⟨p, -, h⟩
  · unfold Workspace.project at h
    split at h
    · cases h
    · cases h
      exact Or.inl ⟨_, _, rfl⟩
  · rcases bind_eq_error_iff.mp h with h | ⟨l, -, h⟩
    · obtain ⟨conflict, rfl⟩ := Workspace.compileLocal_eq_error h
      exact Or.inr ⟨_, _, rfl⟩
    · dsimp only at h
      split at h
      · cases h
        exact Or.inl ⟨_, _, rfl⟩
      · cases h

/-- A visit adds the name to those that are visited. -/
theorem discovered_visit {visited : String → Prop} {d d' : Discovery} {x : String} (hd : Discovered w t visited d)
    (h : visit w strict t d x = .ok d') : Discovered w t (fun y => visited y ∨ y = x) d' := by
  obtain ⟨p, hp, -, -, rfl⟩ := visit_eq_ok_iff.mp h
  have hname : Named.name (w.node p t) = x := (w.name_node p t).trans (Catalog.name_of_get? hp)
  refine ⟨hd.target, ?_, ?_, ?_⟩
  · rintro y (hy | rfl)
    · exact hd.declared y hy
    · exact ⟨p, hp⟩
  · intro y n
    unfold TargetGraph.node? TargetGraph.addNode
    rw [Catalog.get?_put, hname]
    split
    · rename_i hyx
      subst hyx
      simp [hp, eq_comm]
    · rename_i hyx
      rw [or_iff_left hyx]
      exact hd.node? y n
  · intro y l
    dsimp only
    rw [Keyed.lookup_set]
    split
    · rename_i hyx
      subst hyx
      simp [hp, eq_comm]
    · rename_i hyx
      rw [or_iff_left hyx]
      exact hd.lookup y l

/-- Before anything is visited the graph has no node, which is what was discovered of no project. -/
theorem discovered_initial (w : Workspace) (t : Target) :
    Discovered w t (fun y => y ∈ ([] : List String)) { graph := { target := t } } := by
  refine ⟨rfl, fun x hx => absurd hx List.not_mem_nil, ?_, ?_⟩
  · intro x n
    simp [TargetGraph.node?, Catalog.get?, EmptyCollection.emptyCollection, Catalog.empty]
  · intro x l
    simp [Keyed.lookup, Catalog.get?, EmptyCollection.emptyCollection, Catalog.empty]

/-! ### The whole discovery -/

/-- Every project that was visited had no conflict in strict mode, and all it requires is declared. -/
theorem visited_of_ofRoots {d : Discovery} (h : ofRoots w strict roots t = .ok d) :
    ∀ x ∈ w.needed roots t, ∃ p, w.projects.get? x = some p ∧ w.Agreeing strict p t ∧
      ∀ b, w.Requires t x b → b ∈ w.projects.names := by
  intro x hx
  obtain ⟨c, c', hv⟩ := exists_step_of_foldlM_ok h x hx
  obtain ⟨p, hp, ha, hb, -⟩ := visit_eq_ok_iff.mp hv
  exact ⟨p, hp, ha, hb⟩

/-- A discovery that succeeds has visited exactly the needed names. -/
theorem mem_needed_iff_of_ofRoots {d : Discovery} (h : ofRoots w strict roots t = .ok d) {x : String} :
    x ∈ w.needed roots t ↔ w.Needed t roots x := by
  refine ⟨Workspace.needed_of_mem, Workspace.mem_needed_of_closed ?_⟩
  intro a ha b hab
  obtain ⟨p, -, -, hb⟩ := visited_of_ofRoots h a ha
  exact hb b hab

/-- A discovery that succeeds holds the needed names. -/
theorem discovered_of_ofRoots {d : Discovery} (h : ofRoots w strict roots t = .ok d) :
    Discovered w t (w.Needed t roots) d := by
  have hd : Discovered w t (fun y => y ∈ w.needed roots t) d := by
    refine foldlM_invariant (I := fun done d => Discovered w t (fun y => y ∈ done) d) ?_ (discovered_initial w t) h
    intro done x d d' hd hv
    have := discovered_visit hd hv
    simpa using this
  have hall : (fun y => y ∈ w.needed roots t) = w.Needed t roots := funext fun y => propext (mem_needed_iff_of_ofRoots h)
  rw [← hall]
  exact hd

/-- A discovery succeeds exactly if every needed name is declared and, in strict mode, without a conflict. -/
theorem exists_ofRoots_eq_ok_iff :
    (∃ d, ofRoots w strict roots t = .ok d) ↔
      ∀ x, w.Needed t roots x → ∃ p, w.projects.get? x = some p ∧ w.Agreeing strict p t := by
  constructor
  · rintro ⟨d, h⟩ x hx
    obtain ⟨p, hp, ha, -⟩ := visited_of_ofRoots h x ((mem_needed_iff_of_ofRoots h).mpr hx)
    exact ⟨p, hp, ha⟩
  · intro h
    refine exists_foldlM_eq_ok (I := fun _ _ => True) ?_ trivial
    intro done x rest hl d _
    have hx : w.Needed t roots x := Workspace.needed_of_mem (by rw [hl]; simp)
    obtain ⟨p, hp, ha⟩ := h x hx
    refine ⟨_, visit_eq_ok_iff.mpr ⟨p, hp, ha, ?_, rfl⟩, trivial⟩
    intro b hb
    obtain ⟨q, hq, -⟩ := h b (hx.tail hb)
    exact Catalog.mem_names_of_get? hq

/-- A discovery fails only over the name of a project or over scalars in conflict. -/
theorem ofRoots_eq_error {e : BuildError} (h : ofRoots w strict roots t = .error e) :
    (∃ name reference, e = .unknownProject name reference) ∨ ∃ project conflict, e = .scalarConflict project conflict := by
  obtain ⟨x, -, d, hv⟩ := exists_step_of_foldlM_error h
  exact visit_eq_error hv

end Discovery

namespace Discovered

variable {w : Workspace} {t : Target} {visited : String → Prop} {d : Discovery}

/-- The nodes of the graph are the visited projects. -/
theorem mem_names_iff (h : Discovered w t visited d) {x : String} : x ∈ d.graph.nodes.names ↔ visited x := by
  rw [Catalog.mem_names_iff]
  constructor
  · rintro ⟨n, hn⟩
    exact ((h.node? x n).mp hn).1
  · intro hx
    obtain ⟨p, hp⟩ := h.declared x hx
    exact ⟨w.node p t, (h.node? x _).mpr ⟨hx, p, hp, rfl⟩⟩

/-- The edges of the graph are the requirements of the visited names. -/
theorem edge_iff (h : Discovered w t visited d) {a b : String} : d.graph.Edge a b ↔ visited a ∧ w.Requires t a b := by
  rw [TargetGraph.edge_iff_node]
  constructor
  · rintro ⟨n, hn, hb⟩
    obtain ⟨ha, p, hp, rfl⟩ := (h.node? a n).mp hn
    exact ⟨ha, (Workspace.requires_iff hp).mpr hb⟩
  · rintro ⟨ha, hab⟩
    obtain ⟨p, hp⟩ := h.declared a ha
    exact ⟨w.node p t, (h.node? a _).mpr ⟨ha, p, hp, rfl⟩, (Workspace.requires_iff hp).mp hab⟩

/-- What a node of the graph depends on is required by its project, which was visited. -/
theorem requires_of_mem (h : Discovered w t visited d) {n : TargetNode} {b : String} (hn : n ∈ d.graph.nodes.items)
    (hb : b ∈ n.dependencies.names) : visited n.name ∧ w.Requires t n.name b :=
  h.edge_iff.mp ((TargetGraph.edge_name_iff hn).mpr hb)

/-- A set of names that holds all that its members require makes a graph of which every dependency is a node. -/
theorem closed (h : Discovered w t visited d) (hv : ∀ a b, visited a → w.Requires t a b → visited b) :
    d.graph.Closed := by
  intro a b hab
  obtain ⟨ha, hr⟩ := h.edge_iff.mp hab
  exact h.mem_names_iff.mpr (hv a b ha hr)

/-- From a visited name, paths of the graph are paths of requirements. -/
theorem transGen_edge_iff (h : Discovered w t visited d) (hv : ∀ a b, visited a → w.Requires t a b → visited b)
    {a b : String} (ha : visited a) : TransGen d.graph.Edge a b ↔ TransGen (w.Requires t) a b := by
  constructor
  · exact fun hab => TransGen.mono (fun x y hxy => (h.edge_iff.mp hxy).2) _ _ hab
  · intro hab
    have key : TransGen d.graph.Edge a b ∧ visited b := by
      induction hab with
      | single hab => exact ⟨TransGen.single (h.edge_iff.mpr ⟨ha, hab⟩), hv _ _ ha hab⟩
      | tail _ hbc ih => exact ⟨ih.1.tail (h.edge_iff.mpr ⟨ih.2, hbc⟩), hv _ _ ih.2 hbc⟩
    exact key.1

/-! ### Variants -/

/-- The check for a variant comes out as the workspace says for every visited project. -/
theorem hasVariant_iff (h : Discovered w t visited d) {x : String} {p : Project} (hx : visited x)
    (hp : w.projects.get? x = some p) : d.hasVariant p = true ↔ w.HasVariant p t := by
  have hname : p.name = x := Catalog.name_of_get? hp
  unfold Discovery.hasVariant Workspace.HasVariant Project.supports
  rw [hname, (h.lookup x _).mpr ⟨hx, p, hp, rfl⟩, h.target, Bool.and_eq_true, Option.all_some,
    Workspace.hasVariant_localConfiguration_iff]

end Discovered

namespace Discovery

variable {w : Workspace} {d : Discovery}

/-- The check of one node passes if each of its dependencies is declared and has a variant. -/
theorem checkDependencies_eq_ok_iff {a : String} {deps : List String} :
    d.checkDependencies w a deps = .ok () ↔
      ∀ b ∈ deps, ∃ p, w.projects.get? b = some p ∧ d.hasVariant p = true := by
  induction deps with
  | nil => simp [checkDependencies]
  | cons b deps ih =>
    unfold checkDependencies
    rw [bind_eq_ok_iff, List.forall_mem_cons, ← ih, ← exists_and_right]
    refine exists_congr (fun p => ?_)
    rw [project_eq_ok_iff, and_assoc]
    refine and_congr_right (fun _ => ?_)
    split
    · rename_i hv
      simp [hv]
    · rename_i hv
      simp [hv, throw, throwThe, MonadExceptOf.throw]

/-- Among declared dependencies, the check fails with one that has no variant. -/
theorem checkDependencies_eq_error {a : String} {deps : List String} {e : BuildError}
    (hdecl : ∀ b ∈ deps, b ∈ w.projects.names) (h : d.checkDependencies w a deps = .error e) :
    ∃ b ∈ deps, ∃ p, w.projects.get? b = some p ∧ d.hasVariant p = false ∧ e = .missingVariant b a d.graph.target := by
  induction deps with
  | nil => cases h
  | cons b deps ih =>
    obtain ⟨p, hp⟩ := Catalog.mem_names_iff.mp (hdecl b (by simp))
    unfold checkDependencies at h
    rw [project_eq_ok_iff.mpr hp] at h
    dsimp only [bind, Except.bind] at h
    split at h
    · obtain ⟨c, hc, hmissing⟩ := ih (fun c hc => hdecl c (by simp [hc])) h
      exact ⟨c, List.mem_cons_of_mem _ hc, hmissing⟩
    · rename_i hvariant
      cases h
      exact ⟨b, List.mem_cons_self, p, hp, Bool.eq_false_iff.mpr hvariant, rfl⟩

/-- The check of nodes passes if each dependency of each node is declared and has a variant. -/
theorem checkVariants_eq_ok_iff {nodes : List TargetNode} :
    d.checkVariants w nodes = .ok () ↔
      ∀ n ∈ nodes, ∀ b ∈ n.dependencies.names, ∃ p, w.projects.get? b = some p ∧ d.hasVariant p = true := by
  induction nodes with
  | nil => simp [checkVariants]
  | cons n nodes ih =>
    unfold checkVariants
    rw [bind_eq_ok_iff, List.forall_mem_cons, ← ih, ← checkDependencies_eq_ok_iff (a := n.name)]
    exact ⟨fun ⟨_, h, h'⟩ => ⟨h, h'⟩, fun ⟨h, h'⟩ => ⟨(), h, h'⟩⟩

/-- The check of nodes fails only over a declared dependency of a node that has no variant for the target. -/
theorem checkVariants_eq_error {nodes : List TargetNode} {e : BuildError}
    (hdecl : ∀ n ∈ nodes, ∀ b ∈ n.dependencies.names, b ∈ w.projects.names)
    (h : d.checkVariants w nodes = .error e) :
    ∃ n ∈ nodes, ∃ b ∈ n.dependencies.names, ∃ p, w.projects.get? b = some p ∧ d.hasVariant p = false ∧
      e = .missingVariant b n.name d.graph.target := by
  induction nodes with
  | nil => cases h
  | cons n nodes ih =>
    unfold checkVariants at h
    rcases bind_eq_error_iff.mp h with h | ⟨_, -, h⟩
    · exact ⟨n, List.mem_cons_self, checkDependencies_eq_error (hdecl n (by simp)) h⟩
    · obtain ⟨m, hm, hmissing⟩ := ih (fun m hm => hdecl m (by simp [hm])) h
      exact ⟨m, List.mem_cons_of_mem _ hm, hmissing⟩

end Discovery

/-- The variant check passes exactly if every requirement of a visited name leads to a project with a variant. -/
theorem Discovered.checkVariants_eq_ok_iff {w : Workspace} {t : Target} {visited : String → Prop} {d : Discovery}
    (h : Discovered w t visited d) (hv : ∀ a b, visited a → w.Requires t a b → visited b) :
    d.checkVariants w d.graph.nodes.items = .ok () ↔
      ∀ a b, visited a → w.Requires t a b → ∃ q, w.projects.get? b = some q ∧ w.HasVariant q t := by
  rw [Discovery.checkVariants_eq_ok_iff]
  constructor
  · intro hall a b ha hab
    obtain ⟨p, hp⟩ := h.declared a ha
    have hn := (h.node? a _).mpr ⟨ha, p, hp, rfl⟩
    obtain ⟨q, hq, hvar⟩ := hall _ (Catalog.mem_of_get? hn) b ((Workspace.requires_iff hp).mp hab)
    exact ⟨q, hq, (h.hasVariant_iff (hv a b ha hab) hq).mp hvar⟩
  · intro hall n hn b hb
    obtain ⟨ha, hab⟩ := h.requires_of_mem hn hb
    obtain ⟨q, hq, hvar⟩ := hall _ _ ha hab
    exact ⟨q, hq, (h.hasVariant_iff (hv _ _ ha hab) hq).mpr hvar⟩

end BuildPlan
