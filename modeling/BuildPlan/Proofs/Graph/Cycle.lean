import BuildPlan.Proofs.Graph.Depth
import Mathlib.Data.List.Chain
import Mathlib.Order.WellFounded

/-!
# The cycle that is reported

The depth-first search takes one step after the other (`SearchStep`), and no run of it goes on forever
(`wellFounded_searchStep`). Every step keeps what `Searching` says: the path of the search follows edges, and what was visited
and left again leads only to what was left and lies on no cycle. So a dependency on the path closes a cycle that holds no node
of the path before it (`Searching.isCycle`), and where there is a cycle, the searches from all nodes close one
(`exists_findCycle?_eq_some`). A graph with a cycle therefore has one of its cycles in the error (`cycle_reported`).
-/

namespace BuildPlan

open Relation

namespace TargetGraph

variable {g : TargetGraph} {name dep a b : String} {deps visited visited' : List String} {path rest : SearchPath}
  {s s' : SearchPath × List String} {node : TargetNode}

/-! ### Cycles -/

/-- A cycle from a first node through others back to the first: each is a dependency of the one before it, and none comes
twice. -/
structure IsCycle (g : TargetGraph) (first : String) (others : List String) : Prop where
  nodes : ∀ a ∈ first :: others, a ∈ g.nodes.names
  nodup : (first :: others).Nodup
  edges : (first :: (others ++ [first])).IsChain g.Edge

/-- From the first to the last of a chain lead one or more steps. -/
theorem transGen_of_isChain {R : String → String → Prop} {l : List String} (h : (a :: (l ++ [b])).IsChain R) :
    TransGen R a b := by
  induction l generalizing a with
  | nil => exact .single (List.isChain_cons_cons.mp h).1
  | cons c l ih =>
    obtain ⟨hac, h⟩ := List.isChain_cons_cons.mp h
    exact .head hac (ih h)

/-- The first node of a cycle depends on itself through the others. -/
theorem IsCycle.transGen {others : List String} (h : g.IsCycle a others) : TransGen g.Edge a a := transGen_of_isChain h.edges

/-! ### Steps -/

/-- A step with which the search goes on. -/
inductive SearchStep (g : TargetGraph) : SearchPath × List String → SearchPath × List String → Prop
  /-- A node of which all dependencies were looked at is left. -/
  | leave {name : String} {rest : SearchPath} {visited : List String} :
    SearchStep g ((name, []) :: rest, visited) (rest, visited)
  /-- A dependency that was visited before, or is not a node, is passed over. -/
  | pass {name dep : String} {deps : List String} {rest : SearchPath} {visited : List String}
      (hpath : dep ∉ name :: rest.map Prod.fst) (hold : dep ∈ visited ∨ g.node? dep = none) :
    SearchStep g ((name, dep :: deps) :: rest, visited) ((name, deps) :: rest, visited)
  /-- Any other dependency is entered. -/
  | enter {name dep : String} {deps : List String} {rest : SearchPath} {visited : List String} {node : TargetNode}
      (hpath : dep ∉ name :: rest.map Prod.fst) (hnew : dep ∉ visited) (hnode : g.node? dep = some node) :
    SearchStep g ((name, dep :: deps) :: rest, visited)
      ((dep, node.dependencies.names) :: (name, deps) :: rest, dep :: visited)

/-- What is still to be done: the nodes that are not visited, then the dependencies to be looked at. -/
def remaining (g : TargetGraph) (s : SearchPath × List String) : Nat × Nat :=
  ((Reach.unseen g.nodes.names s.2).length, work s.1)

/-- Every step leaves less to be done. -/
theorem SearchStep.remaining_lt (h : g.SearchStep s s') : Prod.Lex (· < ·) (· < ·) (g.remaining s') (g.remaining s) := by
  cases h with
  | leave => exact .right _ (by simp [work])
  | pass => exact .right _ (by simp [work])
  | enter hpath hnew hnode => exact .left _ _ (Reach.unseen_cons_lt (Catalog.mem_names_of_get? hnode) hnew)

/-- No run of the search goes on forever. -/
theorem wellFounded_searchStep (g : TargetGraph) : WellFounded (fun y x => g.SearchStep x y) :=
  Subrelation.wf (fun h => h.remaining_lt) (InvImage.wf g.remaining (WellFounded.prod_lex Nat.lt_wfRel.wf Nat.lt_wfRel.wf))

/-- The states in which the search ends, with what it gives back: the path is left, or a dependency is on the path. -/
inductive SearchEnd : SearchPath × List String → List String ⊕ List String → Prop
  | left {visited : List String} : SearchEnd ([], visited) (.inr visited)
  | met {name dep : String} {deps : List String} {rest : SearchPath} {visited : List String}
      (hdep : dep ∈ name :: rest.map Prod.fst) :
    SearchEnd ((name, dep :: deps) :: rest, visited) (.inl (cycleAt ((name, dep :: deps) :: rest) dep))

/-- The search gives back what its steps lead to. -/
theorem exists_run (g : TargetGraph) (path : SearchPath) (visited : List String) :
    ∃ s, ReflTransGen g.SearchStep (path, visited) s ∧ SearchEnd s (g.search path visited) := by
  have hnot : ∀ {name dep : String} {deps : List String} {rest : SearchPath},
      ¬(((name, dep :: deps) :: rest).map Prod.fst).contains dep = true → dep ∉ name :: rest.map Prod.fst :=
    fun h hmem => h (List.contains_iff_mem.mpr hmem)
  fun_induction search g path visited with
  | case1 => exact ⟨_, .refl, .left⟩
  | case2 visited name rest ih =>
    obtain ⟨s, hrun, hend⟩ := ih
    exact ⟨s, .head .leave hrun, hend⟩
  | case3 visited name rest dep deps hpath => exact ⟨_, .refl, .met (List.contains_iff_mem.mp hpath)⟩
  | case4 visited name rest dep deps hpath hold ih =>
    obtain ⟨s, hrun, hend⟩ := ih
    exact ⟨s, .head (.pass (hnot hpath) (Or.inl hold)) hrun, hend⟩
  | case5 visited name rest dep deps hpath hnew hnone ih =>
    obtain ⟨s, hrun, hend⟩ := ih
    exact ⟨s, .head (.pass (hnot hpath) (Or.inr hnone)) hrun, hend⟩
  | case6 visited name rest dep deps hpath hnew node hnode ih =>
    obtain ⟨s, hrun, hend⟩ := ih
    exact ⟨s, .head (.enter (hnot hpath) hnew hnode) hrun, hend⟩

/-! ### What the steps keep -/

/-- A path of the search, its latest node first: different nodes that are visited, each a dependency of the one before it.
Those dependencies of a node that were looked at are not on the path up to it, and are visited if they are nodes. -/
inductive SoundPath (g : TargetGraph) (visited : List String) : SearchPath → Prop
  | nil : SoundPath g visited []
  | cons {name : String} {deps : List String} {rest : SearchPath} (node : name ∈ g.nodes.names) (old : name ∈ visited)
      (new : name ∉ rest.map Prod.fst) (edge : ∀ s ∈ rest.head?, g.Edge s.1 name) (ahead : ∀ b ∈ deps, g.Edge name b)
      (looked : ∀ b, g.Edge name b →
        b ∈ deps ∨ b ∉ name :: rest.map Prod.fst ∧ (b ∈ g.nodes.names → b ∈ visited))
      (tail : SoundPath g visited rest) : SoundPath g visited ((name, deps) :: rest)

namespace SoundPath

/-- A path stays sound when more is visited. -/
theorem mono (h : g.SoundPath visited path) (hsub : visited ⊆ visited') : g.SoundPath visited' path := by
  induction h with
  | nil => exact .nil
  | cons node old new edge ahead looked _ ih =>
    exact .cons node (hsub old) new edge ahead
      (fun b hb => (looked b hb).imp_right (And.imp_right (fun hvisited hb => hsub (hvisited hb)))) ih

/-- All that lies on the path was visited. -/
theorem subset_visited (h : g.SoundPath visited path) : path.map Prod.fst ⊆ visited := by
  induction h with
  | nil => exact List.nil_subset _
  | cons _ old _ _ _ _ _ ih => exact List.cons_subset.mpr ⟨old, ih⟩

/-- All that lies on the path is a node. -/
theorem subset_names (h : g.SoundPath visited path) : path.map Prod.fst ⊆ g.nodes.names := by
  induction h with
  | nil => exact List.nil_subset _
  | cons node _ _ _ _ _ _ ih => exact List.cons_subset.mpr ⟨node, ih⟩

/-- No node lies on the path twice. -/
theorem nodup (h : g.SoundPath visited path) : (path.map Prod.fst).Nodup := by
  induction h with
  | nil => exact List.nodup_nil
  | cons _ _ new _ _ _ _ ih => exact List.nodup_cons.mpr ⟨new, ih⟩

/-- From its first node on, the path follows edges. -/
theorem isChain (h : g.SoundPath visited path) : (path.map Prod.fst).reverse.IsChain g.Edge := by
  rw [List.isChain_reverse]
  induction h with
  | nil => exact List.isChain_nil
  | cons _ _ _ edge _ _ _ ih =>
    refine List.isChain_cons.mpr ⟨fun a ha => ?_, ih⟩
    rw [List.head?_map] at ha
    obtain ⟨s, hs, rfl⟩ := Option.map_eq_some_iff.mp ha
    exact edge s hs

/-- The dependency that is passed over was looked at, once it is visited or as it is not a node. -/
theorem pass (h : g.SoundPath visited ((name, dep :: deps) :: rest)) (hsub : visited ⊆ visited')
    (hpath : dep ∉ name :: rest.map Prod.fst) (hold : dep ∈ g.nodes.names → dep ∈ visited') :
    g.SoundPath visited' ((name, deps) :: rest) := by
  cases h with
  | cons node old new edge ahead looked tail =>
    refine .cons node (hsub old) new edge (fun b hb => ahead b (List.mem_cons_of_mem _ hb)) (fun b hb => ?_)
      (tail.mono hsub)
    rcases looked b hb with hdeps | ⟨hout, hvisited⟩
    · rcases List.mem_cons.mp hdeps with rfl | hdeps
      · exact Or.inr ⟨hpath, hold⟩
      · exact Or.inl hdeps
    · exact Or.inr ⟨hout, fun hb => hsub (hvisited hb)⟩

end SoundPath

/-- Visited and not on the path any more. -/
def Left (s : SearchPath × List String) (a : String) : Prop := a ∈ s.2 ∧ a ∉ s.1.map Prod.fst

/-- What holds while the search goes on: its path is one, and what was left leads only to what was left, as far as it leads to
nodes, and lies on no cycle. -/
structure Searching (g : TargetGraph) (s : SearchPath × List String) : Prop where
  path : g.SoundPath s.2 s.1
  closed : ∀ a b, Left s a → g.Edge a b → b ∈ g.nodes.names → Left s b
  acyclic : ∀ a, Left s a → ¬TransGen g.Edge a a

namespace Searching

/-- From what was left, edges lead to no node that was not left. -/
theorem left_of_reflTransGen (h : g.Searching s) (ha : Left s a) (hab : ReflTransGen g.Edge a b)
    (hb : b ∈ g.nodes.names) : Left s b := by
  induction hab using ReflTransGen.head_induction_on with
  | refl => exact ha
  | head hac hcb ih =>
    rcases ReflTransGen.cases_head hcb with rfl | ⟨d, hcd, -⟩
    · exact h.closed _ _ ha hac hb
    · exact ih (h.closed _ _ ha hac hcd.source)

/-- A state in which the same nodes were left, on a path that is one, keeps all that is said of these. -/
theorem of_left_iff (h : g.Searching s) (hpath : g.SoundPath s'.2 s'.1) (hleft : ∀ a, Left s' a ↔ Left s a) :
    g.Searching s' where
  path := hpath
  closed a b ha hab hb := (hleft b).mpr (h.closed a b ((hleft a).mp ha) hab hb)
  acyclic a ha := h.acyclic a ((hleft a).mp ha)

/-- A node that is entered is not left yet, and no other node is left with it. -/
theorem enter (h : g.Searching (path, visited)) (hpath : g.SoundPath (dep :: visited) rest)
    (hnames : rest.map Prod.fst = path.map Prod.fst) (hedge : ∀ s ∈ rest.head?, g.Edge s.1 dep) (hnew : dep ∉ visited)
    (hnode : g.node? dep = some node) : g.Searching ((dep, node.dependencies.names) :: rest, dep :: visited) := by
  have hsuccessors : ∀ b, g.Edge dep b ↔ b ∈ node.dependencies.names := by
    intro b
    rw [edge_iff_node, hnode]
    simp
  refine h.of_left_iff (.cons (Catalog.mem_names_of_get? hnode) List.mem_cons_self ?_ hedge
    (fun b hb => (hsuccessors b).mpr hb) (fun b hb => Or.inl ((hsuccessors b).mp hb)) hpath) (fun a => ?_)
  · rw [hnames]
    exact fun hmem => hnew (h.path.subset_visited hmem)
  · unfold Left
    rw [List.map_cons, hnames, List.mem_cons, List.mem_cons, not_or]
    dsimp only
    constructor
    · rintro ⟨rfl | hvisited, hne, hout⟩
      · exact absurd rfl hne
      · exact ⟨hvisited, hout⟩
    · rintro ⟨hvisited, hout⟩
      exact ⟨Or.inr hvisited, fun heq => hnew (heq ▸ hvisited), hout⟩

/-- A node is left when all its dependencies are: it leads only to these, and they do not lead back to it. A cycle through it
would lead through a dependency that was left, and so the node itself would have been left before. -/
theorem leave (h : g.Searching ((name, []) :: rest, visited)) : g.Searching (rest, visited) := by
  obtain ⟨hpath, hclosed, hacyclic⟩ := h
  cases hpath with
  | cons node old new edge ahead looked tail =>
    have hleft : ∀ a, Left (rest, visited) a ↔ a = name ∨ Left ((name, []) :: rest, visited) a := by
      intro a
      unfold Left
      rw [List.map_cons, List.mem_cons, not_or]
      by_cases ha : a = name
      · subst ha
        exact iff_of_true ⟨old, new⟩ (Or.inl rfl)
      · exact ⟨fun ⟨hv, hout⟩ => Or.inr ⟨hv, ha, hout⟩, fun h => ⟨(h.resolve_left ha).1, (h.resolve_left ha).2.2⟩⟩
    have hdependency : ∀ b, g.Edge name b → b ∈ g.nodes.names → Left ((name, []) :: rest, visited) b := by
      intro b hb hnode
      obtain ⟨hout, hvisited⟩ := (looked b hb).resolve_left List.not_mem_nil
      exact ⟨hvisited hnode, hout⟩
    refine ⟨tail, fun a b ha hab hb => ?_, fun a ha hcycle => ?_⟩
    · rcases (hleft a).mp ha with rfl | ha
      · exact (hleft b).mpr (Or.inr (hdependency b hab hb))
      · exact (hleft b).mpr (Or.inr (hclosed a b ha hab hb))
    · rcases (hleft a).mp ha with rfl | ha
      · obtain ⟨b, hab, hba⟩ := TransGen.head'_iff.mp hcycle
        have hb : b ∈ g.nodes.names := by
          rcases ReflTransGen.cases_head hba with rfl | ⟨c, hbc, -⟩
          · exact node
          · exact hbc.source
        have hback := left_of_reflTransGen ⟨.cons node old new edge ahead looked tail, hclosed, hacyclic⟩
          (hdependency b hab hb) hba node
        exact hback.2 List.mem_cons_self
      · exact hacyclic a ha hcycle

/-- Every step of the search keeps what holds while it goes on. -/
theorem step (h : g.Searching s) (hstep : g.SearchStep s s') : g.Searching s' := by
  cases hstep with
  | leave => exact h.leave
  | @pass name dep deps rest visited hpath hold =>
    refine h.of_left_iff (h.path.pass (List.Subset.refl _) hpath (fun hnode => hold.resolve_right ?_)) (fun a => Iff.rfl)
    obtain ⟨n, hn⟩ := Catalog.mem_names_iff.mp hnode
    exact fun hnone => nomatch hnone.symm.trans hn
  | @enter name dep deps rest visited node hpath hnew hnode =>
    have hdep : g.Edge name dep := by
      cases h.path with
      | cons _ _ _ _ ahead => exact ahead dep List.mem_cons_self
    refine h.enter (h.path.pass (List.subset_cons_self _ _) hpath (fun _ => List.mem_cons_self)) rfl ?_ hnew hnode
    rintro _ ⟨⟩
    exact hdep

/-- All along the search the same holds. -/
theorem run (h : g.Searching s) (hrun : ReflTransGen g.SearchStep s s') : g.Searching s' := by
  induction hrun with
  | refl => exact h
  | tail _ hstep ih => exact ih.step hstep

end Searching

/-- What is visited stays visited. -/
theorem visited_subset_of_run (hrun : ReflTransGen g.SearchStep s s') : s.2 ⊆ s'.2 := by
  induction hrun with
  | refl => exact List.Subset.refl _
  | tail _ hstep ih =>
    cases hstep with
    | leave => exact ih
    | pass => exact ih
    | enter => exact List.Subset.trans ih (List.subset_cons_self _ _)

/-! ### What the search meets -/

/-- What stands before the first occurrence of an item is dropped. -/
theorem exists_dropWhile_eq {l : List String} (h : a ∈ l) :
    ∃ before after, l = before ++ a :: after ∧ l.dropWhile (fun n => n != a) = a :: after := by
  induction l with
  | nil => exact absurd h List.not_mem_nil
  | cons c l ih =>
    by_cases hc : c = a
    · subst hc
      exact ⟨[], l, rfl, by simp⟩
    · obtain ⟨before, after, hl, hdrop⟩ := ih ((List.mem_cons.mp h).resolve_left (Ne.symm hc))
      refine ⟨c :: before, after, by rw [hl, List.cons_append], ?_⟩
      rw [List.dropWhile_cons_of_pos (by simpa using hc), hdrop]

/-- A dependency on the path closes a cycle: the part of the path from this dependency on. -/
theorem Searching.isCycle (h : g.Searching ((name, dep :: deps) :: rest, visited)) (hdep : dep ∈ name :: rest.map Prod.fst) :
    ∃ others, g.IsCycle dep others ∧ cycleAt ((name, dep :: deps) :: rest) dep = dep :: (others ++ [dep]) := by
  obtain ⟨before, others, hpath, hdrop⟩ := exists_dropWhile_eq (List.mem_reverse.mpr hdep)
  have hchain := h.path.isChain
  have hnodup := List.nodup_reverse.mpr h.path.nodup
  have hnames : ∀ a ∈ ((name, dep :: deps) :: rest).map Prod.fst, a ∈ g.nodes.names := fun a ha => h.path.subset_names ha
  have hlast : (dep :: others).getLast? = some name := by
    have hreverse : (name :: rest.map Prod.fst).reverse.getLast? = some name := by simp
    rw [hpath, List.getLast?_append_cons] at hreverse
    exact hreverse
  have hedge : g.Edge name dep := by
    cases h.path with
    | cons _ _ _ _ ahead => exact ahead dep List.mem_cons_self
  rw [List.map_cons, hpath] at hchain hnodup
  refine ⟨others, ⟨fun a ha => hnames a ?_, (List.nodup_append.mp hnodup).2.1, ?_⟩, ?_⟩
  · rw [List.map_cons, ← List.mem_reverse, hpath]
    exact List.mem_append_right _ ha
  · rw [← List.cons_append]
    refine (List.isChain_append.mp hchain).2.1.append (List.isChain_singleton dep) ?_
    intro x hx y hy
    rw [hlast] at hx
    cases hx
    cases hy
    exact hedge
  · rw [cycleAt, List.map_cons, hdrop, List.cons_append]

/-- The searches from some nodes, one after the other: the first cycle that is met is one, and if none is met, the nodes are
visited and left. -/
theorem searchFrom_cases {nodes : List TargetNode} (hnodes : ∀ n ∈ nodes, n ∈ g.nodes.items)
    (h : g.Searching ([], visited)) :
    (∃ first others, g.IsCycle first others ∧ g.searchFrom visited nodes = some (first :: (others ++ [first]))) ∨
      g.searchFrom visited nodes = none ∧
        ∃ visited', g.Searching ([], visited') ∧ visited ⊆ visited' ∧ ∀ n ∈ nodes, n.name ∈ visited' := by
  induction nodes generalizing visited with
  | nil => exact Or.inr ⟨rfl, visited, h, List.Subset.refl _, fun n hn => absurd hn List.not_mem_nil⟩
  | cons n nodes ih =>
    have hrest : ∀ m ∈ nodes, m ∈ g.nodes.items := fun m hm => hnodes m (List.mem_cons_of_mem _ hm)
    unfold searchFrom
    split
    · rename_i hold
      rcases ih hrest h with hcycle | ⟨hnone, visited', hdone, hsub, hall⟩
      · exact Or.inl hcycle
      · exact Or.inr ⟨hnone, visited', hdone, hsub, List.forall_mem_cons.mpr ⟨hsub (List.contains_iff_mem.mp hold), hall⟩⟩
    · rename_i hnew
      have hstart : g.Searching ([(n.name, n.dependencies.names)], n.name :: visited) :=
        h.enter .nil rfl (fun s hs => nomatch hs) (fun hold => hnew (List.contains_iff_mem.mpr hold))
          (Catalog.get?_name (hnodes n List.mem_cons_self))
      obtain ⟨s, hrun, hend⟩ := g.exists_run [(n.name, n.dependencies.names)] (n.name :: visited)
      split
      · rename_i cycle hsearch
        rw [hsearch] at hend
        obtain - | @⟨name, dep, deps, rest, visited, hdep⟩ := hend
        obtain ⟨others, hcycle, heq⟩ := (hstart.run hrun).isCycle hdep
        exact Or.inl ⟨dep, others, hcycle, congrArg some heq⟩
      · rename_i after hsearch
        rw [hsearch] at hend
        cases hend
        have hvisited : n.name :: visited ⊆ after := visited_subset_of_run hrun
        rcases ih hrest (hstart.run hrun) with hcycle | ⟨hnone, visited', hdone, hsub, hall⟩
        · exact Or.inl hcycle
        · exact Or.inr ⟨hnone, visited', hdone,
            List.Subset.trans (List.subset_cons_self _ _) (List.Subset.trans hvisited hsub),
            List.forall_mem_cons.mpr ⟨hsub (hvisited List.mem_cons_self), hall⟩⟩

/-- Where there is a cycle, one is found. -/
theorem exists_findCycle?_eq_some (h : TransGen g.Edge a a) :
    ∃ first others, g.IsCycle first others ∧ g.findCycle? = some (first :: (others ++ [first])) := by
  have hstart : g.Searching ([], []) :=
    ⟨.nil, fun a b ha => absurd ha.1 List.not_mem_nil, fun a ha => absurd ha.1 List.not_mem_nil⟩
  rcases searchFrom_cases (fun n hn => hn) hstart with hcycle | ⟨-, visited, hdone, -, hall⟩
  · exact hcycle
  · obtain ⟨b, hab, -⟩ := TransGen.head'_iff.mp h
    obtain ⟨n, hn, rfl⟩ := List.mem_map.mp hab.source
    exact absurd h (hdone.acyclic _ ⟨hall n hn, List.not_mem_nil⟩)

/-- The error of a graph with a cycle holds a cycle. -/
theorem exists_cyclic_eq (h : TransGen g.Edge a a) :
    ∃ first others, g.IsCycle first others ∧ g.cyclic = .cyclicDependency g.target (first :: (others ++ [first])) := by
  obtain ⟨first, others, hcycle, hfind⟩ := exists_findCycle?_eq_some h
  exact ⟨first, others, hcycle, by rw [cyclic, hfind]; rfl⟩

/-- A graph with a cycle has no order, whatever its other dependencies are. -/
theorem topologicalOrder_of_cycle (h : TransGen g.Edge a a) : g.topologicalOrder = .error g.cyclic := by
  cases horder : g.topologicalOrder with
  | ok order => exact absurd h ((exists_topologicalOrder_iff.mp ⟨order, horder⟩).2 a)
  | error e => rw [topologicalOrder_eq_error horder]

/-- Waves are refused where some name comes back to itself, with the same error as the order. -/
theorem parallelGroups_of_cycle (h : TransGen g.Edge a a) : g.parallelGroups = .error g.cyclic := by
  cases hwaves : g.parallelGroups with
  | ok waves => exact absurd h ((exists_parallelGroups_iff.mp ⟨waves, hwaves⟩).2 a)
  | error e => rw [parallelGroups_eq_error hwaves]

end TargetGraph

/-- The first of several texts is joined to the others by the separator. -/
theorem Text.join_cons {separator : String} (a : String) {rest : List String} (h : rest ≠ []) :
    join separator (a :: rest) = a ++ separator ++ join separator rest := by
  cases rest with
  | nil => exact absurd rfl h
  | cons b rest => rfl

/-- The text of a path with two names or more holds an arrow. -/
theorem mem_toList_join_arrows (first : String) {others : List String} (h : others ≠ []) :
    '>' ∈ (Text.join " -> " (first :: others)).toList := by
  rw [Text.join_cons first h]
  simp

/-- The cycle that is reported is one. In a graph with a cycle, whether or not all dependencies are nodes, no run of the search
goes on forever, each ends with what the search gives back, and the order and the waves both fail with the error that names a
cycle: different nodes, each a dependency of the one before it and the first one of the last, with the first repeated at the
end. The text of the error joins these names by arrows, and it is never the text for a cycle that is not known. -/
theorem cycle_reported (g : TargetGraph) (h : ∃ a, TransGen g.Edge a a) :
    WellFounded (fun y x => g.SearchStep x y) ∧
    (∀ path visited, ∃ s, ReflTransGen g.SearchStep (path, visited) s ∧ TargetGraph.SearchEnd s (g.search path visited)) ∧
    ∃ first others, g.IsCycle first others ∧ ∃ e,
      g.topologicalOrder = .error e ∧ g.parallelGroups = .error e ∧
      e = .cyclicDependency g.target (first :: (others ++ [first])) ∧
      e.message = "Circular dependency detected for target " ++ g.target.key ++ ": " ++
        Text.join " -> " (first :: (others ++ [first])) ∧
      Text.join " -> " (first :: (others ++ [first])) ≠ "unknown cycle" := by
  obtain ⟨a, haa⟩ := h
  obtain ⟨first, others, hcycle, hcyclic⟩ := TargetGraph.exists_cyclic_eq haa
  refine ⟨g.wellFounded_searchStep, g.exists_run, first, others, hcycle, g.cyclic, TargetGraph.topologicalOrder_of_cycle haa,
    TargetGraph.parallelGroups_of_cycle haa, hcyclic, by rw [hcyclic]; rfl, ?_⟩
  intro htext
  have harrow := mem_toList_join_arrows first (List.append_ne_nil_of_right_ne_nil others (List.cons_ne_nil first []))
  rw [htext] at harrow
  exact absurd harrow (by decide)

/-- A program that leads to two libraries which depend on each other, and to a name that is not a node. -/
def TargetGraph.ring : TargetGraph where
  nodes := Catalog.ofList [
    { name := "App", index := 0, dependencies := Catalog.ofList [("Ghost", .pub), ("Lib", .pub)] },
    { name := "Lib", index := 1, dependencies := Catalog.ofList [("Core", .priv)] },
    { name := "Core", index := 2, dependencies := Catalog.ofList [("Ghost", .priv), ("Lib", .pub)] }]
  target := {}

theorem cycle_reported_ring :
    TransGen TargetGraph.ring.Edge "Lib" "Lib" ∧ ∃ first others, TargetGraph.ring.IsCycle first others ∧
      TargetGraph.ring.topologicalOrder = .error (.cyclicDependency {} (first :: (others ++ [first]))) := by
  have h : TransGen TargetGraph.ring.Edge "Lib" "Lib" :=
    .head (show "Core" ∈ TargetGraph.ring.successors "Lib" by decide)
      (.single (show "Lib" ∈ TargetGraph.ring.successors "Core" by decide))
  obtain ⟨-, -, first, others, hcycle, e, horder, -, rfl, -, -⟩ := cycle_reported TargetGraph.ring ⟨"Lib", h⟩
  exact ⟨h, first, others, hcycle, horder⟩

/-- The program that only leads to the cycle is not part of it. -/
example : TargetGraph.ring.findCycle? = some ["Lib", "Core", "Lib"] := by cbv

end BuildPlan
