import BuildPlan.Proofs.Graph.Counting
import BuildPlan.Proofs.Graph.Waves
import Mathlib.Data.List.Permutation

/-!
# Waves are depths

The loop that finds waves goes through states (`Scanned`): each scan takes the nodes of which all dependencies are done, and
there are no more scans than nodes. It finds all nodes exactly if every dependency is a node and there is no cycle, as for an
order (`exists_parallelGroups_iff`). A node is then found in the wave of its depth, the number of edges in the longest chain of
dependencies that leads away from it (`Layered`): its dependencies lie in earlier waves, and one of them was still missing in
the scan before. So the waves are as many as the longest chain has nodes (`waves_of_depths`).
-/

namespace BuildPlan

open Relation

namespace TargetGraph

variable {g : TargetGraph} {a b : String} {j k : Nat}

/-! ### Chains of dependencies -/

/-- A chain with a number of edges leads away from a name, each time to a dependency. -/
inductive ChainFrom (g : TargetGraph) : String → Nat → Prop
  | stop (a : String) : ChainFrom g a 0
  | step {a b : String} {k : Nat} (hab : g.Edge a b) (h : ChainFrom g b k) : ChainFrom g a (k + 1)

/-- The longest chain that leads away from a name has this number of edges. -/
structure Depth (g : TargetGraph) (a : String) (k : Nat) : Prop where
  chain : g.ChainFrom a k
  longest : ∀ j, g.ChainFrom a j → j ≤ k

/-- A name has one depth only. -/
theorem Depth.unique (h : g.Depth a j) (h' : g.Depth a k) : j = k :=
  Nat.le_antisymm (h'.longest j h.chain) (h.longest k h'.chain)

/-- What has a chain with an edge is a node. -/
theorem ChainFrom.mem_names (h : g.ChainFrom a k) (hk : 0 < k) : a ∈ g.nodes.names := by
  cases h with
  | stop => exact absurd hk (Nat.lt_irrefl 0)
  | step hab _ => exact hab.source

/-! ### The order in a wave -/

/-- Of two nodes the first was declared earlier, or both have one index and the first stands earlier in the graph. -/
def Before (g : TargetGraph) (a b : String) : Prop :=
  ∃ n m, g.node? a = some n ∧ g.node? b = some m ∧
    (n.index < m.index ∨ n.index = m.index ∧ [a, b].Sublist g.nodes.names)

/-- Sorting by index keeps nodes of one index in the order in which they stood: a node that is put in comes after the nodes of
a smaller index and before all the others. -/
theorem byIndex_pairwise (nodes : List TargetNode) :
    (byIndex nodes).Pairwise (fun n m => n.index < m.index ∨ n.index = m.index ∧ [n, m].Sublist nodes) := by
  have trans : ∀ a b c : TargetNode, decide (a.index ≤ b.index) = true → decide (b.index ≤ c.index) = true →
      decide (a.index ≤ c.index) = true := by
    intro a b c hab hbc
    simp only [decide_eq_true_eq] at *
    omega
  have total : ∀ a b : TargetNode, (decide (a.index ≤ b.index) || decide (b.index ≤ a.index)) = true := by
    intro a b
    simp only [Bool.or_eq_true, decide_eq_true_eq]
    omega
  induction nodes with
  | nil =>
    rw [byIndex, List.mergeSort_nil]
    exact List.Pairwise.nil
  | cons n nodes ih =>
    obtain ⟨l₁, l₂, hsorted, hrest, hless⟩ := List.mergeSort_cons trans total n nodes
    have hnew := List.pairwise_mergeSort trans total (n :: nodes)
    rw [byIndex, hrest] at ih
    rw [hsorted] at hnew
    rw [byIndex, hsorted]
    have hweak : (l₁ ++ l₂).Pairwise
        (fun x y => x.index < y.index ∨ x.index = y.index ∧ [x, y].Sublist (n :: nodes)) :=
      ih.imp (fun h => h.imp_right (And.imp_right (List.Sublist.cons n)))
    obtain ⟨h₁, h₂, hcross⟩ := List.pairwise_append.mp hweak
    refine List.pairwise_append.mpr ⟨h₁, List.pairwise_cons.mpr ⟨fun m hm => ?_, h₂⟩, fun x hx y hy => ?_⟩
    · have hle : n.index ≤ m.index := by
        simpa using (List.pairwise_cons.mp (List.pairwise_append.mp hnew).2.1).1 m hm
      have hmem : m ∈ nodes := (List.mergeSort_perm nodes _).mem_iff.mp (hrest ▸ List.mem_append_right l₁ hm)
      rcases Nat.lt_or_eq_of_le hle with hlt | heq
      · exact Or.inl hlt
      · exact Or.inr ⟨heq, (List.singleton_sublist.mpr hmem).cons_cons n⟩
    · rcases List.mem_cons.mp hy with rfl | hy
      · have hlt : ¬y.index ≤ x.index := by simpa using hless x hx
        exact Or.inl (Nat.lt_of_not_le hlt)
      · exact hcross x hx y hy

/-! ### The scans -/

/-- The states that the loop goes through: the waves that were found and the nodes that are left. -/
inductive Scanned (g : TargetGraph) : List (List String) → List TargetNode → Prop
  | start : Scanned g [] g.nodes.items
  | next {waves : List (List String)} {left : List TargetNode} (h : Scanned g waves left)
      (hsome : readyNodes waves.flatten left ≠ []) :
      Scanned g (waves ++ [(byIndex (readyNodes waves.flatten left)).map TargetNode.name])
        (blockedNodes waves.flatten left)

/-- Sorting by index does not change which names there are. -/
theorem mem_map_byIndex {nodes : List TargetNode} :
    a ∈ (byIndex nodes).map TargetNode.name ↔ ∃ n ∈ nodes, n.name = a := by
  rw [List.mem_map]
  exact exists_congr (fun n => and_congr_left' (byIndex_perm nodes).mem_iff)

namespace Scanned

variable {waves : List (List String)} {left : List TargetNode}

/-- What is left are the nodes that are not done, so that every scan looks at all nodes. -/
theorem left_eq (h : g.Scanned waves left) :
    left = g.nodes.items.filter (fun n => decide (n.name ∉ waves.flatten)) := by
  induction h with
  | start => simp
  | @next waves left _ _ ih =>
    have hmem : ∀ n, n ∈ left ↔ n ∈ g.nodes.items ∧ n.name ∉ waves.flatten := by
      intro n
      rw [ih]
      simp
    rw [blockedNodes, ih, List.filter_filter]
    refine List.filter_congr (fun n hn => ?_)
    rw [← ih, List.flatten_append, List.flatten_singleton, Bool.eq_iff_iff]
    simp only [Bool.and_eq_true, Bool.not_eq_true', decide_eq_true_eq, List.mem_append, not_or, mem_map_byIndex, not_exists,
      not_and]
    constructor
    · rintro ⟨hready, hnew⟩
      refine ⟨hnew, fun m hm hmn => ?_⟩
      have hmn' : m = n := Catalog.eq_of_name_eq ((hmem m).mp (List.mem_filter.mp hm).1).1 hn hmn
      rw [hmn', readyNodes, List.mem_filter, hready] at hm
      exact Bool.noConfusion hm.2
    · rintro ⟨hnew, hother⟩
      refine ⟨Bool.eq_false_iff.mpr (fun hready => ?_), hnew⟩
      exact hother n (List.mem_filter.mpr ⟨(hmem n).mpr ⟨hn, hnew⟩, hready⟩) rfl

/-- What is left are the nodes that lie in no wave yet. -/
theorem mem_left_iff (h : g.Scanned waves left) {n : TargetNode} :
    n ∈ left ↔ n ∈ g.nodes.items ∧ n.name ∉ waves.flatten := by
  rw [h.left_eq]
  simp

/-- Every scan leaves fewer nodes, so there are no more waves than nodes. -/
theorem length_add_le (h : g.Scanned waves left) : waves.length + left.length ≤ g.nodes.size := by
  induction h with
  | start => simp [Catalog.size]
  | next _ hsome ih =>
    have hlt := length_blockedNodes_lt hsome
    rw [List.length_append, List.length_singleton]
    omega

/-- From every state the loop comes to a scan that finds nothing. -/
theorem exists_last (done : List String) (left : List TargetNode) : ∀ waves, g.Scanned waves left → waves.flatten = done →
    g.Scanned (waves ++ (wavesFrom done left).1) (wavesFrom done left).2 ∧
      readyNodes (waves ++ (wavesFrom done left).1).flatten (wavesFrom done left).2 = [] := by
  fun_induction wavesFrom done left with
  | case1 done left hnone =>
    intro waves h hdone
    rw [List.append_nil, hdone]
    exact ⟨h, hnone⟩
  | case2 done left hsome wave later ih =>
    rintro waves h rfl
    have hnext := ih _ (h.next hsome) (by rw [List.flatten_append, List.flatten_singleton])
    rw [List.append_assoc, List.singleton_append] at hnext
    exact hnext

end Scanned

/-- The loop ends with the waves and the nodes that never become ready. -/
theorem scanned_wavesFrom (g : TargetGraph) :
    g.Scanned (wavesFrom [] g.nodes.items).1 (wavesFrom [] g.nodes.items).2 ∧
      readyNodes (wavesFrom [] g.nodes.items).1.flatten (wavesFrom [] g.nodes.items).2 = [] :=
  Scanned.exists_last [] g.nodes.items [] .start rfl

/-- Where there are waves, the loop ends with them and nothing is left. -/
theorem scanned_of_parallelGroups {waves : List (List String)} (h : g.parallelGroups = .ok waves) : g.Scanned waves [] := by
  obtain ⟨hwaves, hleft⟩ := parallelGroups_eq_ok h
  have hlast := g.scanned_wavesFrom.1
  rw [hwaves, hleft] at hlast
  exact hlast

/-! ### Depths -/

/-- What the waves that were found say, if every dependency is a node: they hold nodes of their depth, sorted, and a chain
that is as long as the waves are many leads away from every node that is left. -/
structure Layered (g : TargetGraph) (waves : List (List String)) (left : List TargetNode) : Prop where
  nonempty : ∀ wave ∈ waves, wave ≠ []
  sorted : ∀ wave ∈ waves, wave.Pairwise g.Before
  depth : ∀ k wave, waves[k]? = some wave → ∀ a ∈ wave, g.Depth a k
  ahead : ∀ n ∈ left, g.ChainFrom n.name waves.length

namespace Layered

variable {waves : List (List String)} {left : List TargetNode}

/-- A name in a wave has a depth, less than the number of waves. -/
theorem exists_depth (h : g.Layered waves left) (ha : a ∈ waves.flatten) : ∃ k < waves.length, g.Depth a k := by
  obtain ⟨wave, hwave, ha⟩ := List.mem_flatten.mp ha
  obtain ⟨k, hk, rfl⟩ := List.getElem_of_mem hwave
  exact ⟨k, hk, h.depth k _ (List.getElem?_eq_getElem hk) a ha⟩

/-- Before the first scan there is no wave. -/
theorem start (g : TargetGraph) : g.Layered [] g.nodes.items where
  nonempty _ hwave := absurd hwave List.not_mem_nil
  sorted _ hwave := absurd hwave List.not_mem_nil
  depth _ _ hwave := nomatch hwave
  ahead _ _ := .stop _

/-- A node that is ready now has the depth of the wave that is found next: its dependencies have smaller depths, and there
was a chain up to here already. -/
theorem depth_of_ready (h : g.Layered waves left) {n : TargetNode} (hitem : n ∈ g.nodes.items)
    (hn : n ∈ readyNodes waves.flatten left) : g.Depth n.name waves.length := by
  obtain ⟨hleft, hmet⟩ := mem_readyNodes.mp hn
  refine ⟨h.ahead n hleft, fun j hj => ?_⟩
  cases hj with
  | stop => exact Nat.zero_le _
  | step hab hb =>
    obtain ⟨i, hi, hdepth⟩ := h.exists_depth (hmet _ ((edge_name_iff hitem).mp hab))
    exact Nat.succ_le_of_lt (Nat.lt_of_le_of_lt (hdepth.longest _ hb) hi)

/-- A node that is not ready now misses a dependency that is left, too, and the chain from there gets longer by an edge. -/
theorem chain_of_blocked (h : g.Layered waves left) (hclosed : g.Closed) (hscan : g.Scanned waves left) {n : TargetNode}
    (hn : n ∈ blockedNodes waves.flatten left) : g.ChainFrom n.name (waves.length + 1) := by
  obtain ⟨hleft, b, hb, hnew⟩ := mem_blockedNodes.mp hn
  have hedge : g.Edge n.name b := (edge_name_iff (hscan.mem_left_iff.mp hleft).1).mpr hb
  obtain ⟨m, hm, rfl⟩ := List.mem_map.mp (hclosed _ _ hedge)
  exact .step hedge (h.ahead m (hscan.mem_left_iff.mpr ⟨hm, hnew⟩))

/-- The wave of a scan is sorted as the nodes stand in the graph. -/
theorem sorted_wave (hscan : g.Scanned waves left) :
    ((byIndex (readyNodes waves.flatten left)).map TargetNode.name).Pairwise g.Before := by
  have hsub : (readyNodes waves.flatten left).Sublist g.nodes.items := by
    rw [hscan.left_eq]
    exact List.filter_sublist.trans List.filter_sublist
  rw [List.pairwise_map]
  refine (byIndex_pairwise _).imp_of_mem (fun {n m} hn hm hnm => ?_)
  have hitem : ∀ x ∈ byIndex (readyNodes waves.flatten left), g.node? x.name = some x := fun x hx =>
    Catalog.get?_name (hsub.subset ((byIndex_perm _).mem_iff.mp hx))
  exact ⟨n, m, hitem n hn, hitem m hm, hnm.imp_right (And.imp_right (fun h => (h.trans hsub).map TargetNode.name))⟩

/-- A scan adds the wave of the next depth. -/
theorem next (h : g.Layered waves left) (hclosed : g.Closed) (hscan : g.Scanned waves left)
    (hsome : readyNodes waves.flatten left ≠ []) :
    g.Layered (waves ++ [(byIndex (readyNodes waves.flatten left)).map TargetNode.name])
      (blockedNodes waves.flatten left) where
  nonempty wave hwave := by
    rcases List.mem_append.mp hwave with hwave | hwave
    · exact h.nonempty wave hwave
    · rw [List.mem_singleton.mp hwave]
      obtain ⟨n, hn⟩ := List.exists_mem_of_ne_nil _ hsome
      exact List.ne_nil_of_mem (mem_map_byIndex.mpr ⟨n, hn, rfl⟩)
  sorted wave hwave := by
    rcases List.mem_append.mp hwave with hwave | hwave
    · exact h.sorted wave hwave
    · rw [List.mem_singleton.mp hwave]
      exact sorted_wave hscan
  depth k wave hwave a ha := by
    rw [List.getElem?_append] at hwave
    split at hwave
    · exact h.depth k wave hwave a ha
    · rename_i hk
      obtain ⟨hlen, rfl⟩ := List.getElem?_eq_some_iff.mp hwave
      have hk' : k = waves.length := by
        rw [List.length_singleton] at hlen
        omega
      rw [List.getElem_singleton] at ha
      obtain ⟨n, hn, rfl⟩ := mem_map_byIndex.mp ha
      rw [hk']
      exact h.depth_of_ready (hscan.mem_left_iff.mp (mem_readyNodes.mp hn).1).1 hn
  ahead n hn := by
    rw [List.length_append, List.length_singleton]
    exact h.chain_of_blocked hclosed hscan hn

/-- All waves that the scans come to are those of the depths. -/
theorem of_scanned (hclosed : g.Closed) (h : g.Scanned waves left) : g.Layered waves left := by
  induction h with
  | start => exact .start g
  | next hscan hsome ih => exact ih.next hclosed hscan hsome

end Layered

/-! ### The waves of a graph -/

/-- A graph has waves exactly if every dependency is a node and there is no cycle. -/
theorem exists_parallelGroups_iff :
    (∃ waves, g.parallelGroups = .ok waves) ↔ g.Closed ∧ ∀ a, ¬TransGen g.Edge a a := by
  constructor
  · rintro ⟨waves, h⟩
    have hperm := flatten_perm_of_parallelGroups h
    have hfirst := dependenciesFirst_of_parallelGroups h
    refine ⟨fun a b hab => ?_, fun a haa => ?_⟩
    · exact hperm.mem_iff.mp (hfirst.mem (hperm.mem_iff.mpr hab.source) hab)
    · obtain ⟨b, hab, -⟩ := TransGen.head'_iff.mp haa
      exact hfirst.irrefl a (hperm.mem_iff.mpr hab.source) haa
  · rintro ⟨hclosed, hacyclic⟩
    exact ⟨_, parallelGroups_of_not_cycle hclosed hacyclic⟩

/-- What waves say: none is empty, they hold every node once, each the nodes of its depth, sorted by index, with all their
dependencies in the waves before it. -/
structure AreDepths (g : TargetGraph) (waves : List (List String)) : Prop where
  nonempty : ∀ wave ∈ waves, wave ≠ []
  perm : waves.flatten.Perm g.nodes.names
  mem_iff : ∀ k wave, waves[k]? = some wave → ∀ a, a ∈ wave ↔ a ∈ g.nodes.names ∧ g.Depth a k
  sorted : ∀ wave ∈ waves, wave.Pairwise g.Before
  earlier : ∀ k wave, waves[k]? = some wave → ∀ a ∈ wave, ∀ b, g.Edge a b → b ∈ (waves.take k).flatten

/-- The waves that are given back are the depths: each node lies in some wave, and this is the one of its depth. -/
theorem areDepths_of_parallelGroups {waves : List (List String)} (h : g.parallelGroups = .ok waves) : g.AreDepths waves := by
  have hperm := flatten_perm_of_parallelGroups h
  have hlayered := Layered.of_scanned (exists_parallelGroups_iff.mp ⟨waves, h⟩).1 (scanned_of_parallelGroups h)
  refine ⟨hlayered.nonempty, hperm, fun k wave hwave a => ⟨fun ha => ?_, fun ⟨ha, hdepth⟩ => ?_⟩, hlayered.sorted,
    fun k wave hwave a ha b hab => ?_⟩
  · have hmem : wave ∈ waves := List.mem_of_getElem? hwave
    exact ⟨hperm.mem_iff.mp (List.mem_flatten.mpr ⟨wave, hmem, ha⟩), hlayered.depth k wave hwave a ha⟩
  · obtain ⟨wave', hwave', ha'⟩ := List.mem_flatten.mp (hperm.mem_iff.mpr ha)
    obtain ⟨i, hi, rfl⟩ := List.getElem_of_mem hwave'
    have hget : waves[i]? = some waves[i] := List.getElem?_eq_getElem hi
    obtain rfl : i = k := (hlayered.depth i _ hget a ha').unique hdepth
    rw [hwave, Option.some.injEq] at hget
    rw [hget]
    exact ha'
  · obtain ⟨hk, rfl⟩ := List.getElem?_eq_some_iff.mp hwave
    have hsplit : waves = waves.take k ++ waves[k] :: waves.drop (k + 1) := by
      rw [← List.drop_eq_getElem_cons hk, List.take_append_drop]
    exact earlier_of_parallelGroups h hsplit ha hab

namespace AreDepths

variable {waves : List (List String)}

/-- No chain has as many edges as there are waves. -/
theorem chain_lt (h : g.AreDepths waves) (ha : a ∈ g.nodes.names) (hj : g.ChainFrom a j) : j < waves.length := by
  obtain ⟨wave, hwave, ha⟩ := List.mem_flatten.mp (h.perm.mem_iff.mpr ha)
  obtain ⟨k, hk, rfl⟩ := List.getElem_of_mem hwave
  have hdepth := ((h.mem_iff k _ (List.getElem?_eq_getElem hk) a).mp ha).2
  exact Nat.lt_of_le_of_lt (hdepth.longest j hj) hk

/-- If there are nodes, the longest chain has one edge less than there are waves. -/
theorem exists_longest (h : g.AreDepths waves) (hne : g.nodes.items ≠ []) :
    ∃ k, waves.length = k + 1 ∧ (∃ a ∈ g.nodes.names, g.ChainFrom a k) ∧ ∀ a j, g.ChainFrom a j → j ≤ k := by
  obtain ⟨n, hn⟩ := List.exists_mem_of_ne_nil _ hne
  have hpos : 0 < waves.length := h.chain_lt (List.mem_map.mpr ⟨n, hn, rfl⟩) (.stop n.name)
  have hlast : waves.length - 1 < waves.length := Nat.sub_lt hpos Nat.one_pos
  obtain ⟨a, ha⟩ := List.exists_mem_of_ne_nil _ (h.nonempty _ (List.getElem_mem hlast))
  obtain ⟨hmem, hdepth⟩ := (h.mem_iff _ _ (List.getElem?_eq_getElem hlast) a).mp ha
  refine ⟨waves.length - 1, by omega, ⟨a, hmem, hdepth.chain⟩, fun b j hj => ?_⟩
  rcases Nat.eq_zero_or_pos j with rfl | hjpos
  · exact Nat.zero_le _
  · exact Nat.le_sub_one_of_lt (h.chain_lt (hj.mem_names hjpos) hj)

end AreDepths

end TargetGraph

/-- The waves of any graph. The loop that finds them ends: it comes to a scan that finds nothing, with no more waves than there
are nodes, and what is left in a state are all nodes that are not done. There are waves exactly if there is an order, and
otherwise both give the same error. No wave is empty, the waves hold every node once, and a wave holds the nodes of which the
longest chain of dependencies has as many edges as there are waves before it, so that all dependencies lie in these. The nodes
of a wave are sorted by index, those of one index as they stand in the graph. In a graph with nodes there is one wave more
than the longest chain has edges. -/
theorem waves_of_depths (g : TargetGraph) :
    (∃ waves left, g.Scanned waves left ∧ TargetGraph.readyNodes waves.flatten left = []) ∧
    (∀ waves left, g.Scanned waves left → waves.length + left.length ≤ g.nodes.size ∧
      left = g.nodes.items.filter (fun n => decide (n.name ∉ waves.flatten))) ∧
    ((∃ waves, g.parallelGroups = .ok waves) ↔ ∃ order, g.topologicalOrder = .ok order) ∧
    (∀ e, g.parallelGroups = .error e ↔ g.topologicalOrder = .error e) ∧
    ∀ waves, g.parallelGroups = .ok waves →
      g.AreDepths waves ∧
      (g.nodes.items ≠ [] → ∃ k, waves.length = k + 1 ∧ (∃ a ∈ g.nodes.names, g.ChainFrom a k) ∧
        ∀ a j, g.ChainFrom a j → j ≤ k) := by
  have hiff : (∃ waves, g.parallelGroups = .ok waves) ↔ ∃ order, g.topologicalOrder = .ok order :=
    TargetGraph.exists_parallelGroups_iff.trans TargetGraph.exists_topologicalOrder_iff.symm
  refine ⟨⟨_, _, g.scanned_wavesFrom⟩, fun waves left h => ⟨h.length_add_le, h.left_eq⟩, hiff,
    fun e => ⟨fun h => ?_, fun h => ?_⟩, fun waves h => ?_⟩
  · cases horder : g.topologicalOrder with
    | ok order =>
      obtain ⟨waves, hwaves⟩ := hiff.mpr ⟨order, horder⟩
      rw [hwaves] at h
      cases h
    | error e' => rw [TargetGraph.topologicalOrder_eq_error horder, TargetGraph.parallelGroups_eq_error h]
  · cases hwaves : g.parallelGroups with
    | ok waves =>
      obtain ⟨order, horder⟩ := hiff.mp ⟨waves, hwaves⟩
      rw [horder] at h
      cases h
    | error e' => rw [TargetGraph.parallelGroups_eq_error hwaves, TargetGraph.topologicalOrder_eq_error h]
  · have hdepths := TargetGraph.areDepths_of_parallelGroups h
    exact ⟨hdepths, hdepths.exists_longest⟩

/-- The two libraries make a wave of their own between what they share and the program. -/
theorem waves_of_depths_diamond :
    TargetGraph.diamond.parallelGroups = .ok [["Core"], ["Z", "A"], ["App"]] ∧ TargetGraph.diamond.Depth "A" 1 := by
  have h : TargetGraph.diamond.parallelGroups = .ok [["Core"], ["Z", "A"], ["App"]] := by cbv
  obtain ⟨-, -, -, -, hwaves⟩ := waves_of_depths TargetGraph.diamond
  obtain ⟨hdepths, -⟩ := hwaves _ h
  exact ⟨h, ((hdepths.mem_iff 1 ["Z", "A"] rfl "A").mp (by decide)).2⟩

end BuildPlan
