import BuildPlan.Proofs.Graph.Waves

/-!
# Graphs with other indices

The index of a node only decides which of several projects comes first. Two graphs that differ in their indices alone have the
same edges, the same cycle and the same dependencies, and if the indices compare alike they have the same order
(`topologicalOrder_reindex`) and the same waves (`parallelGroups_reindex`).
-/

namespace BuildPlan

/-- The node with another index, which depends on its name. -/
def TargetNode.reindex (ι : String → Nat) (n : TargetNode) : TargetNode := { n with index := ι n.name }

namespace TargetGraph

variable {ι : String → Nat} {g : TargetGraph}

/-- The graph with other indices. -/
def reindex (ι : String → Nat) (g : TargetGraph) : TargetGraph where
  target := g.target
  nodes := ⟨g.nodes.items.map (TargetNode.reindex ι), by
    rw [List.map_map]
    exact g.nodes.nodup⟩

/-- A graph keeps its names under other indices. -/
theorem names_reindex (ι : String → Nat) (g : TargetGraph) : (g.reindex ι).nodes.names = g.nodes.names :=
  List.map_map

/-- The node of a name is the same one with its new index. -/
theorem node?_reindex (ι : String → Nat) (g : TargetGraph) (x : String) :
    (g.reindex ι).node? x = (g.node? x).map (TargetNode.reindex ι) :=
  List.find?_map

/-- Other indices may be given before or after a node is added. -/
theorem addNode_reindex (ι : String → Nat) (g : TargetGraph) (n : TargetNode) :
    (g.addNode n).reindex ι = (g.reindex ι).addNode (n.reindex ι) := by
  have hitems : (g.nodes.put n).items.map (TargetNode.reindex ι) = ((g.reindex ι).nodes.put (n.reindex ι)).items := by
    by_cases h : Named.name n ∈ g.nodes.names
    · have h' : Named.name (n.reindex ι) ∈ (g.reindex ι).nodes.names := names_reindex ι g ▸ h
      unfold Catalog.put
      rw [dif_pos h, dif_pos h']
      dsimp only [reindex]
      rw [List.map_map, List.map_map]
      refine List.map_congr_left (fun m _ => ?_)
      exact apply_ite (TargetNode.reindex ι) _ _ _
    · have h' : Named.name (n.reindex ι) ∉ (g.reindex ι).nodes.names := names_reindex ι g ▸ h
      rw [Catalog.items_put_of_new h, Catalog.items_put_of_new h', List.map_append]
      rfl
  unfold addNode
  rw [reindex, mk.injEq]
  exact ⟨rfl, Catalog.ext hitems⟩

/-- The dependencies of a name have nothing to do with indices. -/
theorem successors_reindex (ι : String → Nat) (g : TargetGraph) : (g.reindex ι).successors = g.successors := by
  funext x
  unfold successors
  rw [node?_reindex]
  cases g.node? x <;> rfl

/-- What a name depends on, directly or through others, has nothing to do with indices. -/
theorem transitiveDependencies_reindex (ι : String → Nat) (g : TargetGraph) :
    (g.reindex ι).transitiveDependencies = g.transitiveDependencies := by
  have hnames : (g.reindex ι).dependencyNames = g.dependencyNames :=
    List.flatMap_map (TargetNode.reindex ι) (fun n => n.dependencies.names) g.nodes.items
  funext x
  unfold transitiveDependencies
  rw [hnames, successors_reindex]

/-! ### Errors -/

/-- Whether a dependency is missing has nothing to do with indices. -/
theorem missingDependency?_reindex (ι : String → Nat) (g : TargetGraph) (n : TargetNode) :
    (g.reindex ι).missingDependency? (n.reindex ι) = g.missingDependency? n := by
  unfold missingDependency? Catalog.contains
  rw [names_reindex]
  rfl

/-- The check of some nodes has nothing to do with indices. -/
theorem checkNodes_reindex (ι : String → Nat) (g : TargetGraph) (l : List TargetNode) :
    (g.reindex ι).checkNodes (l.map (TargetNode.reindex ι)) = g.checkNodes l := by
  induction l with
  | nil => rfl
  | cons n l ih =>
    rw [List.map_cons, checkNodes, checkNodes, missingDependency?_reindex, ih]
    rfl

/-- Validation has nothing to do with indices. -/
theorem validate_reindex (ι : String → Nat) (g : TargetGraph) : (g.reindex ι).validate = g.validate :=
  checkNodes_reindex ι g g.nodes.items

/-- A search for a cycle takes the same way under other indices. -/
theorem search_reindex (ι : String → Nat) (g : TargetGraph) (path : SearchPath) (visited : List String) :
    (g.reindex ι).search path visited = g.search path visited := by
  fun_induction search g path visited with
  | case1 visited => rw [search]
  | case2 visited name rest ih => rw [search, ih]
  | case3 visited name dep deps rest hpath => rw [search, if_pos hpath]
  | case4 visited name dep deps rest hpath hvisited ih => rw [search, if_neg hpath, dif_pos hvisited, ih]
  | case5 visited name dep deps rest hpath hvisited hnone ih =>
    rw [search, if_neg hpath, dif_neg hvisited]
    split
    · exact ih
    · rename_i node hnode
      rw [node?_reindex, hnone] at hnode
      cases hnode
  | case6 visited name dep deps rest hpath hvisited node hsome ih =>
    rw [search, if_neg hpath, dif_neg hvisited]
    split
    · rename_i hnode
      rw [node?_reindex, hsome] at hnode
      cases hnode
    · rename_i hnode
      rw [node?_reindex, hsome] at hnode
      cases hnode
      exact ih

/-- The searches for a cycle from some nodes take the same way under other indices. -/
theorem searchFrom_reindex (ι : String → Nat) (g : TargetGraph) (visited : List String) (l : List TargetNode) :
    (g.reindex ι).searchFrom visited (l.map (TargetNode.reindex ι)) = g.searchFrom visited l := by
  induction l generalizing visited with
  | nil => rfl
  | cons n l ih =>
    have hname : (n.reindex ι).name = n.name := rfl
    have hdependencies : (n.reindex ι).dependencies = n.dependencies := rfl
    unfold searchFrom
    simp only [List.map_cons, hname, hdependencies, search_reindex, ih]

/-- The cycle that is reported is the same under other indices. -/
theorem cyclic_reindex (ι : String → Nat) (g : TargetGraph) : (g.reindex ι).cyclic = g.cyclic := by
  have hcycle : (g.reindex ι).findCycle? = g.findCycle? := searchFrom_reindex ι g [] g.nodes.items
  unfold cyclic
  rw [hcycle]
  rfl

/-! ### Orders -/

/-- Whether new indices compare the nodes of a graph as the old ones do. -/
def Compares (ι : String → Nat) (nodes : List TargetNode) : Prop :=
  ∀ n ∈ nodes, ∀ m ∈ nodes, ι n.name ≤ ι m.name ↔ n.index ≤ m.index

/-- Indices that compare nodes as before do so for some of them. -/
theorem Compares.subset {nodes some : List TargetNode} (h : Compares ι nodes) (hsub : ∀ n ∈ some, n ∈ nodes) :
    Compares ι some := fun n hn m hm => h n (hsub n hn) m (hsub m hm)

/-- Indices that compare nodes as before keep which place comes first. -/
theorem Compares.before_place {nodes : List TargetNode} (h : Compares ι nodes) {n m : TargetNode} (hn : n ∈ nodes)
    (hm : m ∈ nodes) : Place.before (n.reindex ι).place (m.reindex ι).place = Place.before n.place m.place := by
  have hnm := h n hn m hm
  have hmn := h m hm n hn
  rw [Bool.eq_iff_iff, Place.before_iff, Place.before_iff]
  dsimp only [TargetNode.place, TargetNode.reindex]
  refine or_congr (by omega) (and_congr_left' (by omega))

/-- The ready nodes are the same ones with their new indices. -/
theorem ready_reindex {nodes : List TargetNode} {done : List String} {m : TargetNode} :
    Ready (nodes.map (TargetNode.reindex ι)) done m ↔ ∃ n, Ready nodes done n ∧ n.reindex ι = m := by
  constructor
  · rintro ⟨hmem, hnew, hmet⟩
    obtain ⟨n, hn, rfl⟩ := List.mem_map.mp hmem
    exact ⟨n, ⟨hn, hnew, hmet⟩, rfl⟩
  · rintro ⟨n, ⟨hn, hnew, hmet⟩, rfl⟩
    exact ⟨List.mem_map_of_mem hn, hnew, hmet⟩

/-- Nodes whose indices compare alike are listed alike. -/
theorem ListsFrom.reindex {nodes : List TargetNode} (h : Compares ι nodes) {done l : List String}
    (hl : ListsFrom nodes done l) : ListsFrom (nodes.map (TargetNode.reindex ι)) done l := by
  induction hl with
  | stop hstop =>
    refine ListsFrom.stop (fun m hm => ?_)
    obtain ⟨n, hn, -⟩ := ready_reindex.mp hm
    exact hstop n hn
  | @next done rest n ready least _ ih =>
    refine ListsFrom.next (n := n.reindex ι) (ready_reindex.mpr ⟨n, ready, rfl⟩) ?_ ih
    intro m' hm'
    obtain ⟨m, hm, rfl⟩ := ready_reindex.mp hm'
    rw [h.before_place ready.mem hm.mem]
    exact (least m hm).imp_left (congrArg _)

/-- The dependency order is the same under indices that compare the nodes as before. -/
theorem topologicalOrder_reindex (h : Compares ι g.nodes.items) : (g.reindex ι).topologicalOrder = g.topologicalOrder := by
  have hlisted : (g.reindex ι).listed = g.listed :=
    (g.reindex ι).listed_canonical.unique (g.listed_canonical.reindex h) (fun _ => Iff.rfl)
  have hsize : (g.reindex ι).nodes.size = g.nodes.size := List.length_map _
  unfold topologicalOrder
  rw [hlisted, hsize, cyclic_reindex]

/-- Nodes are sorted in the same way by indices that compare them as before. -/
theorem byIndex_reindex {nodes : List TargetNode} (h : Compares ι nodes) :
    byIndex (nodes.map (TargetNode.reindex ι)) = (byIndex nodes).map (TargetNode.reindex ι) := by
  refine (List.map_mergeSort (fun n hn m hm => ?_)).symm
  exact decide_eq_decide.mpr (h n hn m hm).symm

/-- The nodes of the next wave are the same ones with their new indices. -/
theorem readyNodes_reindex (ι : String → Nat) (done : List String) (l : List TargetNode) :
    readyNodes done (l.map (TargetNode.reindex ι)) = (readyNodes done l).map (TargetNode.reindex ι) := List.filter_map

/-- The nodes that have to wait are the same ones with their new indices. -/
theorem blockedNodes_reindex (ι : String → Nat) (done : List String) (l : List TargetNode) :
    blockedNodes done (l.map (TargetNode.reindex ι)) = (blockedNodes done l).map (TargetNode.reindex ι) := List.filter_map

/-- The remaining waves are the same under indices that compare the nodes as before, and so is what is left. -/
theorem wavesFrom_reindex (done : List String) {left : List TargetNode} (h : Compares ι left) :
    wavesFrom done (left.map (TargetNode.reindex ι)) =
      ((wavesFrom done left).1, (wavesFrom done left).2.map (TargetNode.reindex ι)) := by
  fun_induction wavesFrom done left with
  | case1 done left hnone =>
    rw [wavesFrom, dif_pos (by rw [readyNodes_reindex, hnone]; rfl)]
  | case2 done left hsome wave later ih =>
    have hnow : Compares ι (readyNodes done left) := h.subset (fun n hn => (mem_readyNodes.mp hn).1)
    have hlater : Compares ι (blockedNodes done left) := h.subset (fun n hn => (mem_blockedNodes.mp hn).1)
    have hwave : ((byIndex (readyNodes done left)).map (TargetNode.reindex ι)).map TargetNode.name = wave := by
      rw [List.map_map]
      rfl
    rw [wavesFrom, dif_neg (by rw [readyNodes_reindex, List.map_eq_nil_iff]; exact hsome)]
    dsimp only
    rw [readyNodes_reindex, blockedNodes_reindex, byIndex_reindex hnow, hwave, ih hlater]

/-- The waves are the same under indices that compare the nodes as before. -/
theorem parallelGroups_reindex (h : Compares ι g.nodes.items) : (g.reindex ι).parallelGroups = g.parallelGroups := by
  have hwaves : wavesFrom [] (g.reindex ι).nodes.items = _ := wavesFrom_reindex [] h
  unfold parallelGroups
  rw [hwaves, cyclic_reindex]
  dsimp only
  rw [List.isEmpty_map]

end TargetGraph

end BuildPlan
