import BuildPlan.Proofs.Graph.Cycle
import BuildPlan.Proofs.Reach.Search

/-!
# Transitive dependencies

In a graph that is made by adding nodes, the last node of a name counts (`edge_ofNodes_iff`). The transitive dependencies of a
name are found in a search from this name along the edges (`search_transitiveDependencies`). They are what its dependencies lead
to, in a graph with or without cycles and whether or not every dependency is a node, and the name itself is one of them exactly
if a cycle leads through it (`transitive_dependencies_exact`).
-/

namespace BuildPlan

open Relation

namespace TargetGraph

open BuildPlan.Reach

/-! ### Graphs made by adding nodes -/

/-- The graph of some nodes that are added one after the other. -/
def ofNodes (t : Target) (nodes : List TargetNode) : TargetGraph := nodes.foldl addNode { target := t }

/-- Among some nodes that are added one after the other, the last one of a name depends on another name. -/
def DependsOn (nodes : List TargetNode) (a b : String) : Prop :=
  ∃ before n after, nodes = before ++ n :: after ∧ n.name = a ∧ (∀ m ∈ after, m.name ≠ a) ∧ b ∈ n.dependencies.names

variable {g : TargetGraph} {t : Target} {nodes : List TargetNode} {a b : String}

/-- The node of a name is the last one that was added under it. -/
theorem node?_ofNodes : (ofNodes t nodes).node? a = nodes.reverse.find? (fun n => n.name == a) := by
  unfold ofNodes
  induction nodes using List.reverseRecOn with
  | nil => rfl
  | append_singleton nodes n ih =>
    rw [List.foldl_append, List.reverse_append, List.reverse_singleton, List.singleton_append, List.find?_cons, ← ih]
    have hput : (addNode (nodes.foldl addNode { target := t }) n).node? a =
        if a = n.name then some n else (nodes.foldl addNode { target := t }).node? a := Catalog.get?_put _ n a
    rw [List.foldl_cons, List.foldl_nil, hput]
    by_cases ha : a = n.name
    · rw [if_pos ha, beq_iff_eq.mpr ha.symm]
    · rw [if_neg ha, beq_false_of_ne (Ne.symm ha)]

theorem edge_ofNodes_iff : (ofNodes t nodes).Edge a b ↔ DependsOn nodes a b := by
  rw [edge_iff_node, node?_ofNodes]
  constructor
  · rintro ⟨n, hn, hb⟩
    obtain ⟨hname, later, earlier, hnodes, hlater⟩ := List.find?_eq_some_iff_append.mp hn
    refine ⟨earlier.reverse, n, later.reverse, ?_, beq_iff_eq.mp hname, fun m hm => ?_, hb⟩
    · simpa using congrArg List.reverse hnodes
    · simpa using hlater m (List.mem_reverse.mp hm)
  · rintro ⟨before, n, after, rfl, hname, hafter, hb⟩
    refine ⟨n, List.find?_eq_some_iff_append.mpr ⟨beq_iff_eq.mpr hname, after.reverse, before.reverse, by simp, ?_⟩, hb⟩
    intro m hm
    simpa using hafter m (List.mem_reverse.mp hm)

/-! ### Cycles through a node -/

/-- Where some steps lead from one point to another, they do so without meeting a point twice before they arrive. -/
theorem exists_isChain_of_transGen {R : String → String → Prop} (h : TransGen R a b) :
    ∃ l, (a :: (l ++ [b])).IsChain R ∧ (a :: l).Nodup ∧ b ∉ l := by
  induction h using TransGen.head_induction_on with
  | single hab => exact ⟨[], by simpa using hab, List.nodup_singleton _, List.not_mem_nil⟩
  | @head a c hac _ ih =>
    obtain ⟨l, hchain, hnodup, hb⟩ := ih
    by_cases hcb : c = b
    · subst hcb
      exact ⟨[], by simpa using hac, List.nodup_singleton _, List.not_mem_nil⟩
    · have hout : b ∉ c :: l := fun hmem => (List.mem_cons.mp hmem).elim (Ne.symm hcb) hb
      by_cases ha : a ∈ c :: l
      · obtain ⟨before, after, hsplit⟩ := List.append_of_mem ha
        rw [← List.cons_append, hsplit, List.append_assoc] at hchain
        rw [hsplit] at hnodup hout
        exact ⟨after, (List.isChain_append.mp hchain).2.1, (List.nodup_append.mp hnodup).2.1,
          fun hmem => hout (List.mem_append_right _ (List.mem_cons_of_mem _ hmem))⟩
      · exact ⟨c :: l, List.isChain_cons_cons.mpr ⟨hac, hchain⟩, List.nodup_cons.mpr ⟨ha, hnodup⟩, hout⟩

/-- A name depends on itself, directly or not, exactly if a cycle leads through it. -/
theorem exists_isCycle_iff : (∃ others, g.IsCycle a others) ↔ TransGen g.Edge a a := by
  constructor
  · rintro ⟨others, h⟩
    exact h.transGen
  · intro h
    obtain ⟨others, hchain, hnodup, -⟩ := exists_isChain_of_transGen h
    refine ⟨others, fun x hx => ?_, hnodup, hchain⟩
    obtain ⟨before, after, hsplit⟩ := List.append_of_mem hx
    rw [← List.cons_append, hsplit, List.append_assoc, List.cons_append] at hchain
    cases after with
    | nil => exact (List.isChain_cons_cons.mp (List.isChain_append.mp hchain).2.1).1.source
    | cons y after => exact (List.isChain_cons_cons.mp (List.isChain_append.mp hchain).2.1).1.source

/-! ### What is found -/

/-- The transitive dependencies of a name are what a search in the graph finds. -/
theorem search_transitiveDependencies (g : TargetGraph) (a : String) :
    Search g.successors a ((g.transitiveDependencies a).length + 1) [] (g.transitiveDependencies a) := by
  have hstart : unfound g.successors [] a = distinct (g.successors a) := by
    rw [unfound, List.filter_eq_self.mpr (by simp)]
  have hfirst : Search g.successors a 1 (distinct (g.successors a)) (distinct (g.successors a)) := by
    have hturn := (Search.start : Search g.successors a 0 [a] []).turn_head
    rwa [hstart] at hturn
  have huniv : ∀ x, g.successors x ⊆ g.dependencyNames := fun x y hy => Edge.mem_dependencyNames hy
  obtain ⟨n, hn⟩ := Search.exists_explore huniv _ _ 1 hfirst
  have hlength : n = (g.transitiveDependencies a).length + 1 := hn.length_eq
  rw [← hlength]
  exact hn

end TargetGraph

/-- The transitive dependencies of a name in the graph of any nodes that are added one after the other, the last one of a name
taking the place of those before it:

1. they are the names that one or more dependencies lead to, nodes or not, each of them once;
2. the name is among them exactly if a cycle leads through it, and there are none if it is not a node;
3. a search finds them in one turn for the name and one for each of them, and whichever waiting name a search takes next, it
   takes no more turns, is over after exactly that many, and finds the same. -/
theorem transitive_dependencies_exact (t : Target) (nodes : List TargetNode) (a : String) :
    let g := TargetGraph.ofNodes t nodes
    (∀ b, b ∈ g.transitiveDependencies a ↔ TransGen (TargetGraph.DependsOn nodes) a b) ∧
    (g.transitiveDependencies a).Nodup ∧
    (a ∈ g.transitiveDependencies a ↔ ∃ others, g.IsCycle a others) ∧
    ((∀ n ∈ nodes, n.name ≠ a) → g.transitiveDependencies a = []) ∧
    Reach.Search g.successors a ((g.transitiveDependencies a).length + 1) [] (g.transitiveDependencies a) ∧
    ∀ turns waiting found, Reach.Search g.successors a turns waiting found →
      turns ≤ (g.transitiveDependencies a).length + 1 ∧
      (waiting = [] ↔ turns = (g.transitiveDependencies a).length + 1) ∧
      (waiting = [] → found.Perm (g.transitiveDependencies a)) := by
  intro g
  have hsearch := g.search_transitiveDependencies a
  have hedge : g.Edge = TargetGraph.DependsOn nodes := by
    funext x y
    exact propext TargetGraph.edge_ofNodes_iff
  have hmem : ∀ b, b ∈ g.transitiveDependencies a ↔ TransGen (TargetGraph.DependsOn nodes) a b := by
    intro b
    rw [TargetGraph.mem_transitiveDependencies, hedge]
  refine ⟨hmem, hsearch.nodup, ?_, ?_, hsearch, ?_⟩
  · rw [TargetGraph.mem_transitiveDependencies, TargetGraph.exists_isCycle_iff]
  · intro hnone
    refine List.eq_nil_iff_forall_not_mem.mpr (fun b hb => ?_)
    obtain ⟨c, ⟨before, n, after, rfl, hname, -⟩, -⟩ := TransGen.head'_iff.mp ((hmem b).mp hb)
    exact hnone n List.mem_append_cons_self hname
  · intro turns waiting found h
    refine ⟨h.le_turns hsearch, h.waiting_eq_nil_iff hsearch, ?_⟩
    rintro rfl
    exact h.perm hsearch

/-- A program that leads to two libraries, which depend on each other and on a name that is not a node. One of the libraries
had no dependency when it was added first. -/
def TargetGraph.ringNodes : List TargetNode := [
  { name := "Lib", index := 1 },
  { name := "App", index := 0, dependencies := Catalog.ofList [("Lib", .pub)] },
  { name := "Core", index := 2, dependencies := Catalog.ofList [("Ghost", .priv), ("Lib", .pub)] },
  { name := "Lib", index := 1, dependencies := Catalog.ofList [("Core", .priv)] }]

/-- A library of the ring depends on itself and on the name that is not a node, which has no dependencies. Taking the name that
waits for the shortest time comes to the same. -/
theorem transitive_dependencies_exact_ring :
    (∃ others, (TargetGraph.ofNodes {} TargetGraph.ringNodes).IsCycle "Lib" others) ∧
    "Ghost" ∈ (TargetGraph.ofNodes {} TargetGraph.ringNodes).transitiveDependencies "Lib" ∧
    (TargetGraph.ofNodes {} TargetGraph.ringNodes).transitiveDependencies "Ghost" = [] ∧
    ["Core", "Ghost", "Lib"].Perm ((TargetGraph.ofNodes {} TargetGraph.ringNodes).transitiveDependencies "Lib") := by
  let next := (TargetGraph.ofNodes {} TargetGraph.ringNodes).successors
  have hlib : Reach.Search next "Lib" 1 ["Core"] ["Core"] := Reach.Search.start.turn_head
  have hcore : Reach.Search next "Lib" 2 (["Ghost"] ++ ["Lib"]) ["Core", "Ghost", "Lib"] := hlib.turn_head
  have hback : Reach.Search next "Lib" 3 ["Ghost"] ["Core", "Ghost", "Lib"] := hcore.turn_last
  have hghost : Reach.Search next "Lib" 4 [] ["Core", "Ghost", "Lib"] := hback.turn_head
  obtain ⟨-, -, hcycle, -, -, hall⟩ := transitive_dependencies_exact {} TargetGraph.ringNodes "Lib"
  obtain ⟨-, -, -, hnone, -⟩ := transitive_dependencies_exact {} TargetGraph.ringNodes "Ghost"
  have hperm := (hall 4 [] _ hghost).2.2 rfl
  exact ⟨hcycle.mp (hperm.subset (by decide)), hperm.subset (by decide), hnone (by decide), hperm⟩

end BuildPlan
