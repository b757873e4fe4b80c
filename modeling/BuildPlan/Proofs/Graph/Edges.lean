import BuildPlan.Graph
import BuildPlan.Proofs.Reach

/-!
# Edges of a target graph

The relation that a graph stands for: `Edge` leads from a node to its direct dependencies, and `PublicEdge` and
`PrivateEdge` are its two parts. The transitive dependencies of a name are what one or more edges lead to
(`mem_transitiveDependencies`), and a finite set of names that each have an edge into the set holds a cycle
(`exists_cycle`).
-/

namespace BuildPlan

open Relation

/-- Where every member of a list has a step to a member, some member comes back to itself. A member that does not is not among
those it leads to, and these are a shorter list of the same kind. -/
theorem exists_cycle {α : Type} {R : α → α → Prop} {l : List α} (hne : l ≠ []) (h : ∀ a ∈ l, ∃ b ∈ l, R a b) :
    ∃ a ∈ l, TransGen R a a := by
  classical
  induction hn : l.length using Nat.strongRecOn generalizing l with
  | ind n ih =>
    obtain ⟨a, ha⟩ := List.exists_mem_of_ne_nil l hne
    by_cases hc : TransGen R a a
    · exact ⟨a, ha, hc⟩
    · have hlt : (l.filter (fun b => decide (TransGen R a b))).length < n := by
        rw [← hn]
        exact List.length_filter_lt_length_iff_exists.mpr ⟨a, ha, by simpa using hc⟩
      obtain ⟨b, hb, hab⟩ := h a ha
      have hbm : b ∈ l.filter (fun b => decide (TransGen R a b)) := by simpa using ⟨hb, TransGen.single hab⟩
      obtain ⟨c, hcm, hcc⟩ := ih _ hlt (List.ne_nil_of_mem hbm) (by
        intro x hx
        obtain ⟨hxl, hax⟩ : x ∈ l ∧ TransGen R a x := by simpa using hx
        obtain ⟨y, hy, hxy⟩ := h x hxl
        exact ⟨y, by simpa using ⟨hy, hax.tail hxy⟩, hxy⟩) rfl
      exact ⟨c, (List.mem_filter.mp hcm).1, hcc⟩

namespace TargetGraph

/-- The project `a` depends on `b` directly. -/
def Edge (g : TargetGraph) (a b : String) : Prop := b ∈ g.successors a

/-- The effective visibility of an edge, if there is one. -/
def visibility? (g : TargetGraph) (a b : String) : Option Visibility :=
  (g.node? a).bind (fun n => n.dependencies.lookup b)

/-- An edge that hands on what it brings. -/
def PublicEdge (g : TargetGraph) (a b : String) : Prop := g.visibility? a b = some .pub

/-- An edge that keeps what it brings. -/
def PrivateEdge (g : TargetGraph) (a b : String) : Prop := g.visibility? a b = some .priv

/-- Every dependency is a node. -/
def Closed (g : TargetGraph) : Prop := ∀ a b, g.Edge a b → b ∈ g.nodes.names

/-- An edge leads from a node to each of its dependencies. -/
theorem edge_iff_node {g : TargetGraph} {a b : String} :
    g.Edge a b ↔ ∃ n, g.node? a = some n ∧ b ∈ n.dependencies.names := by
  unfold Edge successors
  cases g.node? a with
  | none => simp
  | some n => simp

/-- The edges from a node are its dependencies. -/
theorem edge_name_iff {g : TargetGraph} {n : TargetNode} {b : String} (hn : n ∈ g.nodes.items) :
    g.Edge n.name b ↔ b ∈ n.dependencies.names := by
  have hnode : g.node? n.name = some n := Catalog.get?_name hn
  rw [edge_iff_node, hnode]
  simp

/-- An edge leaves a node. -/
theorem Edge.source {g : TargetGraph} {a b : String} (h : g.Edge a b) : a ∈ g.nodes.names := by
  obtain ⟨n, hn, -⟩ := edge_iff_node.mp h
  exact Catalog.mem_names_of_get? hn

/-- An edge is one of some visibility. -/
theorem edge_iff_visibility {g : TargetGraph} {a b : String} : g.Edge a b ↔ ∃ v, g.visibility? a b = some v := by
  rw [edge_iff_node]
  unfold visibility?
  cases g.node? a with
  | none => simp
  | some n => simp [Keyed.mem_names_iff]

/-- A public edge is an edge. -/
theorem PublicEdge.edge {g : TargetGraph} {a b : String} (h : g.PublicEdge a b) : g.Edge a b :=
  edge_iff_visibility.mpr ⟨.pub, h⟩

/-! ### Transitive dependencies -/

/-- A direct dependency is one of the names that the search for transitive dependencies knows. -/
theorem Edge.mem_dependencyNames {g : TargetGraph} {a b : String} (h : g.Edge a b) : b ∈ g.dependencyNames := by
  obtain ⟨n, hn, hb⟩ := edge_iff_node.mp h
  exact List.mem_flatMap.mpr ⟨n, Catalog.mem_of_get? hn, hb⟩

/-- The steps of the search for transitive dependencies are the edges. -/
theorem step_eq_edge (g : TargetGraph) : Reach.Step g.dependencyNames g.successors = g.Edge := by
  funext a b
  exact propext ⟨fun h => h.1, fun h => ⟨h, h.mem_dependencyNames⟩⟩

/-- The transitive dependencies of a name are what one or more edges lead to, in a graph with or without cycles. -/
theorem mem_transitiveDependencies {g : TargetGraph} {a b : String} :
    b ∈ g.transitiveDependencies a ↔ TransGen g.Edge a b := by
  unfold transitiveDependencies
  rw [Reach.mem_closure, step_eq_edge, TransGen.head'_iff]
  rfl

/-- No name is found twice. -/
theorem nodup_transitiveDependencies (g : TargetGraph) (a : String) : (g.transitiveDependencies a).Nodup :=
  Reach.nodup_closure _ _ _

/-! ### Validation -/

/-- A node has no missing dependency exactly if all its dependencies are nodes. -/
theorem missingDependency?_eq_none_iff {g : TargetGraph} {n : TargetNode} :
    g.missingDependency? n = none ↔ ∀ b ∈ n.dependencies.names, b ∈ g.nodes.names := by
  simp [missingDependency?, List.find?_eq_none, Catalog.contains]

/-- The check of nodes passes if all their dependencies are nodes. -/
theorem checkNodes_eq_ok {g : TargetGraph} {l : List TargetNode}
    (h : ∀ n ∈ l, ∀ b ∈ n.dependencies.names, b ∈ g.nodes.names) : g.checkNodes l = .ok () := by
  induction l with
  | nil => rfl
  | cons n l ih =>
    have hn := missingDependency?_eq_none_iff.mpr (h n (by simp))
    unfold checkNodes
    rw [hn]
    exact ih (fun m hm => h m (List.mem_cons_of_mem _ hm))

/-- A graph of which every dependency is a node passes validation. -/
theorem Closed.validate {g : TargetGraph} (h : g.Closed) : g.validate = .ok () :=
  checkNodes_eq_ok (fun n hn b hb => h n.name b ((edge_name_iff hn).mpr hb))

end TargetGraph

end BuildPlan
