import BuildPlan.Graph.Order
import BuildPlan.Proofs.Graph.Edges

/-!
# The dependency order is canonical

Counting missing dependencies lists the nodes of any graph in one way that can be said without counters: next comes, among
the nodes that are not listed and whose dependencies all are, the one with the least place (`listed_canonical`). The graph
may hold cycles and dependencies that are not nodes; the listing stops when no node is ready.
-/

namespace BuildPlan.TargetGraph

/-! ### Places -/

/-- A place comes before another one if its index is smaller, or the index is the same and the name is smaller. -/
theorem Place.before_iff {a b : Place} : Place.before a b = true ↔ a.1 < b.1 ∨ a.1 = b.1 ∧ a.2 < b.2 := by
  simp [Place.before]

/-- No place comes before itself. -/
theorem Place.not_before_self (a : Place) : ¬Place.before a a = true := by
  rw [Place.before_iff]
  rintro (h | ⟨-, h⟩)
  · exact Nat.lt_irrefl _ h
  · exact String.lt_irrefl _ h

/-- What comes before a place comes before all that comes after it. -/
theorem Place.before_trans {a b c : Place} (hab : Place.before a b = true) (hbc : Place.before b c = true) :
    Place.before a c = true := by
  rw [Place.before_iff] at *
  rcases hab with hab | ⟨hab, hab'⟩
  · left
    rcases hbc with hbc | ⟨hbc, -⟩ <;> omega
  · rcases hbc with hbc | ⟨hbc, hbc'⟩
    · left
      omega
    · exact Or.inr ⟨hab.trans hbc, String.lt_trans hab' hbc'⟩

/-- Of two places not both come before the other. -/
theorem Place.not_before_of_before {a b : Place} (h : Place.before a b = true) : ¬Place.before b a = true :=
  fun h' => Place.not_before_self a (Place.before_trans h h')

/-- Of two different places one is before the other. -/
theorem Place.before_of_not_before {a b : Place} (h : ¬Place.before b a = true) (hne : a ≠ b) :
    Place.before a b = true := by
  rw [Place.before_iff] at *
  rw [not_or, not_and] at h
  rcases Nat.lt_trichotomy a.1 b.1 with hlt | heq | hgt
  · exact Or.inl hlt
  · refine Or.inr ⟨heq, ?_⟩
    by_contra hs
    exact hne (Prod.ext heq (String.le_antisymm (String.not_lt.mp (h.2 heq.symm)) (String.not_lt.mp hs)))
  · exact absurd hgt h.1

/-- A list of places in which none is before an earlier one. -/
abbrev Increasing (l : List Place) : Prop := l.Pairwise (fun p q => ¬Place.before q p = true)

/-- Putting a place into a queue keeps the queue and adds the place. -/
theorem insertPlace_perm (p : Place) (l : List Place) : (insertPlace p l).Perm (p :: l) := by
  induction l with
  | nil => exact List.Perm.refl _
  | cons q l ih =>
    unfold insertPlace
    split
    · exact List.Perm.refl _
    · exact (ih.cons q).trans (List.Perm.swap p q l)

/-- A queue stays sorted when a place is put in. -/
theorem insertPlace_increasing {p : Place} {l : List Place} (h : Increasing l) : Increasing (insertPlace p l) := by
  induction l with
  | nil => exact List.pairwise_singleton _ _
  | cons q l ih =>
    obtain ⟨hq, hl⟩ := List.pairwise_cons.mp h
    unfold insertPlace
    split
    · rename_i hpq
      refine List.pairwise_cons.mpr ⟨?_, h⟩
      intro x hx
      rcases List.mem_cons.mp hx with rfl | hx
      · exact Place.not_before_of_before hpq
      · exact fun hxp => hq x hx (Place.before_trans hxp hpq)
    · rename_i hpq
      refine List.pairwise_cons.mpr ⟨?_, ih hl⟩
      intro x hx
      rcases List.mem_cons.mp ((insertPlace_perm p l).mem_iff.mp hx) with rfl | hx
      · exact hpq
      · exact hq x hx

end TargetGraph

/-- The place of a node. -/
def TargetNode.place (n : TargetNode) : TargetGraph.Place := (n.index, n.name)

namespace TargetGraph

/-- Putting nodes into a queue keeps the queue and adds their places. -/
theorem insertNodes_perm (nodes : List TargetNode) (ready : List Place) :
    (insertNodes nodes ready).Perm (nodes.map TargetNode.place ++ ready) := by
  unfold insertNodes
  induction nodes generalizing ready with
  | nil => exact List.Perm.refl _
  | cons n nodes ih =>
    rw [List.foldl_cons, List.map_cons, List.cons_append]
    exact (ih _).trans (((insertPlace_perm n.place ready).append_left _).trans List.perm_middle)

/-- A queue stays sorted when nodes are put in. -/
theorem insertNodes_increasing (nodes : List TargetNode) {ready : List Place} (h : Increasing ready) :
    Increasing (insertNodes nodes ready) := by
  unfold insertNodes
  induction nodes generalizing ready with
  | nil => exact h
  | cons n nodes ih => exact ih (insertPlace_increasing h)

/-! ### Canonical listings -/

/-- A node among some that is not listed while all its dependencies are. -/
structure Ready (nodes : List TargetNode) (done : List String) (n : TargetNode) : Prop where
  mem : n ∈ nodes
  new : n.name ∉ done
  met : ∀ b ∈ n.dependencies.names, b ∈ done

/-- `ListsFrom nodes done l` says that after the names `done` the names `l` come, each the ready one with the least place,
and that no node is ready after them. -/
inductive ListsFrom (nodes : List TargetNode) : List String → List String → Prop
  | stop {done : List String} (h : ∀ n, ¬Ready nodes done n) : ListsFrom nodes done []
  | next {done rest : List String} {n : TargetNode} (ready : Ready nodes done n)
      (least : ∀ m, Ready nodes done m → m = n ∨ Place.before n.place m.place = true)
      (tail : ListsFrom nodes (done ++ [n.name]) rest) : ListsFrom nodes done (n.name :: rest)

/-- The dependencies of a node that are not listed. -/
def missingNames (done : List String) (n : TargetNode) : List String :=
  n.dependencies.names.filter (fun b => decide (b ∉ done))

/-- A node misses nothing exactly if all its dependencies are done. -/
theorem missingNames_eq_nil_iff {done : List String} {n : TargetNode} :
    missingNames done n = [] ↔ ∀ b ∈ n.dependencies.names, b ∈ done := by
  simp [missingNames, List.filter_eq_nil_iff]

/-- Listing one more name takes it out of the missing ones. -/
theorem length_missingNames_append {done : List String} {name : String} (h : name ∉ done) (n : TargetNode) :
    (missingNames (done ++ [name]) n).length =
      if n.dependsOn name then (missingNames done n).length - 1 else (missingNames done n).length := by
  have hnd : (missingNames done n).Nodup := List.filter_sublist.nodup n.dependencies.nodup
  have heq : missingNames (done ++ [name]) n = (missingNames done n).erase name := by
    rw [hnd.erase_eq_filter, missingNames, missingNames, List.filter_filter]
    congr 1
    funext b
    by_cases hb : b = name <;> simp [hb]
  have hmem : name ∈ missingNames done n ↔ n.dependsOn name = true := by
    simp [missingNames, h, TargetNode.dependsOn, Catalog.contains]
  rw [heq]
  split
  · rename_i hd
    exact List.length_erase_of_mem (hmem.mpr hd)
  · rename_i hd
    rw [List.erase_of_not_mem (fun hm => hd (hmem.mp hm))]

/-! ### The invariant of the counting -/

/-- What the two lists of the algorithm hold once the names `done` are listed: the places of the ready nodes in increasing
order, and the other nodes that are not listed, each with the number of its missing dependencies. -/
structure Pending (g : TargetGraph) (done : List String) (ready : List Place) (waiting : List Waiting) : Prop where
  closed : ∀ n ∈ g.nodes.items, n.name ∈ done → missingNames done n = []
  increasing : Increasing ready
  nodup : (ready.map Prod.snd ++ waiting.map (fun w => w.node.name)).Nodup
  mem_ready : ∀ p, p ∈ ready ↔ ∃ n, Ready g.nodes.items done n ∧ n.place = p
  mem_waiting : ∀ w, w ∈ waiting ↔
    w.node ∈ g.nodes.items ∧ w.missing = (missingNames done w.node).length ∧ missingNames done w.node ≠ []

/-- The nodes of which no dependency is missing and the others are all the nodes that wait. -/
theorem freed_append_blocked_perm (waiting : List Waiting) :
    (freed waiting ++ (blocked waiting).map Waiting.node).Perm (waiting.map Waiting.node) := by
  unfold freed blocked
  rw [← List.map_append]
  exact (List.filter_append_perm _ waiting).map _

/-- The nodes that are freed are those that wait for nothing more. -/
theorem mem_freed {waiting : List Waiting} {n : TargetNode} :
    n ∈ freed waiting ↔ ∃ w ∈ waiting, w.missing = 0 ∧ w.node = n := by
  simp [freed, and_assoc]

/-- The nodes that stay behind are those that still wait for something. -/
theorem mem_blocked {waiting : List Waiting} {w : Waiting} : w ∈ blocked waiting ↔ w ∈ waiting ∧ w.missing ≠ 0 := by
  simp [blocked]

/-- A node that waits for one name less is the same node. -/
theorem node_release (name : String) (w : Waiting) : (w.release name).node = w.node := by
  unfold Waiting.release
  split <;> rfl

/-- A name that is done does not change which nodes wait. -/
theorem map_node_releaseAll (name : String) (waiting : List Waiting) :
    (releaseAll name waiting).map Waiting.node = waiting.map Waiting.node := by
  rw [releaseAll, List.map_map]
  exact List.map_congr_left (fun w _ => node_release name w)

/-- A counter that was right is right again once the name that is listed is released. -/
theorem missing_release {done : List String} {name : String} (h : name ∉ done) {w : Waiting}
    (hw : w.missing = (missingNames done w.node).length) :
    (w.release name).missing = (missingNames (done ++ [name]) w.node).length := by
  rw [length_missingNames_append h, ← hw]
  unfold Waiting.release
  split <;> rfl

/-- What misses something after another name is done missed something before. -/
theorem missingNames_ne_nil_of_append {done : List String} {name : String} {n : TargetNode}
    (h : missingNames (done ++ [name]) n ≠ []) : missingNames done n ≠ [] := by
  intro e
  rw [missingNames_eq_nil_iff] at e
  exact h (missingNames_eq_nil_iff.mpr (fun b hb => List.mem_append_left _ (e b hb)))

namespace Pending

variable {g : TargetGraph} {done : List String} {ready : List Place} {waiting : List Waiting}

/-- After the release of a name, the waiting nodes are those that were waiting, with the counters for one more name. -/
theorem mem_releaseAll (h : Pending g done ready waiting) {name : String} (hname : name ∉ done) {w : Waiting} :
    w ∈ releaseAll name waiting ↔ w.node ∈ g.nodes.items ∧
      w.missing = (missingNames (done ++ [name]) w.node).length ∧ missingNames done w.node ≠ [] := by
  constructor
  · intro hw
    obtain ⟨v, hv, rfl⟩ := List.mem_map.mp hw
    obtain ⟨hmem, hmissing, hne⟩ := (h.mem_waiting v).mp hv
    rw [missing_release hname hmissing, node_release]
    exact ⟨hmem, rfl, hne⟩
  · rintro ⟨hmem, hmissing, hne⟩
    have hv : ⟨w.node, (missingNames done w.node).length⟩ ∈ waiting := (h.mem_waiting _).mpr ⟨hmem, rfl, hne⟩
    refine List.mem_map.mpr ⟨_, hv, ?_⟩
    exact Waiting.ext (node_release name _) ((missing_release hname rfl).trans hmissing.symm)

/-- The nodes that become ready are those of which the name was the last missing dependency. -/
theorem mem_freed_releaseAll (h : Pending g done ready waiting) {name : String} (hname : name ∉ done) {n : TargetNode} :
    n ∈ freed (releaseAll name waiting) ↔
      n ∈ g.nodes.items ∧ missingNames done n ≠ [] ∧ missingNames (done ++ [name]) n = [] := by
  rw [mem_freed]
  constructor
  · rintro ⟨w, hw, hz, rfl⟩
    obtain ⟨hmem, hmissing, hne⟩ := (h.mem_releaseAll hname).mp hw
    exact ⟨hmem, hne, List.eq_nil_of_length_eq_zero (hmissing.symm.trans hz)⟩
  · rintro ⟨hmem, hne, hnil⟩
    exact ⟨⟨n, 0⟩, (h.mem_releaseAll hname).mpr ⟨hmem, by rw [hnil]; rfl, hne⟩, rfl, rfl⟩

/-- When one more name is done, the nodes that wait are those that miss something still, each with the number of names it
misses. -/
theorem mem_blocked_releaseAll (h : Pending g done ready waiting) {name : String} (hname : name ∉ done) {w : Waiting} :
    w ∈ blocked (releaseAll name waiting) ↔ w.node ∈ g.nodes.items ∧
      w.missing = (missingNames (done ++ [name]) w.node).length ∧ missingNames (done ++ [name]) w.node ≠ [] := by
  rw [mem_blocked, h.mem_releaseAll hname]
  constructor
  · rintro ⟨⟨hmem, hmissing, -⟩, hz⟩
    exact ⟨hmem, hmissing, fun e => hz (by rw [hmissing, e]; rfl)⟩
  · rintro ⟨hmem, hmissing, hne⟩
    refine ⟨⟨hmem, hmissing, missingNames_ne_nil_of_append hne⟩, ?_⟩
    rw [hmissing]
    exact fun hz => hne (List.eq_nil_of_length_eq_zero hz)

/-- After one more name is listed, a node is ready if it was ready and is another one, or if it just became ready. -/
theorem ready_append_iff (h : Pending g done ready waiting) {n m : TargetNode} (hn : Ready g.nodes.items done n) :
    Ready g.nodes.items (done ++ [n.name]) m ↔
      (Ready g.nodes.items done m ∧ m.name ≠ n.name) ∨ m ∈ freed (releaseAll n.name waiting) := by
  rw [h.mem_freed_releaseAll hn.new]
  constructor
  · intro hm
    have hnew : m.name ∉ done ∧ m.name ≠ n.name := by simpa using hm.new
    by_cases hmiss : missingNames done m = []
    · exact Or.inl ⟨⟨hm.mem, hnew.1, missingNames_eq_nil_iff.mp hmiss⟩, hnew.2⟩
    · exact Or.inr ⟨hm.mem, hmiss, missingNames_eq_nil_iff.mpr hm.met⟩
  · rintro (⟨hm, hne⟩ | ⟨hmem, hmiss, hnil⟩)
    · exact ⟨hm.mem, by simp [hm.new, hne], fun b hb => List.mem_append_left _ (hm.met b hb)⟩
    · refine ⟨hmem, ?_, missingNames_eq_nil_iff.mp hnil⟩
      have hnew : m.name ∉ done := fun hd => hmiss (h.closed m hmem hd)
      have hne : m.name ≠ n.name := by
        intro e
        have : m = n := Catalog.eq_of_name_eq hmem hn.mem e
        subst this
        exact hmiss (missingNames_eq_nil_iff.mpr hn.met)
      simp [hnew, hne]

/-- The names of the two lists stay distinct, since the nodes that become ready only change lists. -/
theorem nodup_step {next : Place} {rest : List Place} (h : Pending g done (next :: rest) waiting) :
    ((insertNodes (freed (releaseAll next.2 waiting)) rest).map Prod.snd ++
      (blocked (releaseAll next.2 waiting)).map (fun w => w.node.name)).Nodup := by
  have hready : ((insertNodes (freed (releaseAll next.2 waiting)) rest).map Prod.snd).Perm
      ((freed (releaseAll next.2 waiting)).map TargetNode.name ++ rest.map Prod.snd) := by
    have := (insertNodes_perm (freed (releaseAll next.2 waiting)) rest).map Prod.snd
    rw [List.map_append, List.map_map] at this
    exact this
  have hwaiting : ((freed (releaseAll next.2 waiting)).map TargetNode.name ++
      (blocked (releaseAll next.2 waiting)).map (fun w => w.node.name)).Perm
      (waiting.map (fun w => w.node.name)) := by
    have := (freed_append_blocked_perm (releaseAll next.2 waiting)).map TargetNode.name
    rw [map_node_releaseAll, List.map_append, List.map_map, List.map_map] at this
    exact this
  have hrest := (List.nodup_cons.mp h.nodup).2
  rw [(hready.append_right _).nodup_iff, List.append_assoc]
  refine (List.perm_append_comm_assoc _ _ _).nodup_iff.mpr ?_
  exact (hwaiting.append_left _).nodup_iff.mpr hrest

/-- The first place of the queue is the least one of a ready node. -/
theorem least {n : TargetNode} {rest : List Place} (h : Pending g done (n.place :: rest) waiting)
    (hn : Ready g.nodes.items done n) : ∀ m, Ready g.nodes.items done m → m = n ∨ Place.before n.place m.place = true := by
  intro m hm
  by_cases hmn : m = n
  · exact Or.inl hmn
  · right
    have hne : m.place ≠ n.place := fun e => hmn (Catalog.eq_of_name_eq hm.mem hn.mem (congrArg Prod.snd e))
    rcases List.mem_cons.mp ((h.mem_ready m.place).mpr ⟨m, hm, rfl⟩) with e | hrest
    · exact absurd e hne
    · exact Place.before_of_not_before ((List.pairwise_cons.mp h.increasing).1 _ hrest) (Ne.symm hne)

/-- Listing the first place of the queue keeps the invariant. -/
theorem step {n : TargetNode} {rest : List Place} (h : Pending g done (n.place :: rest) waiting)
    (hn : Ready g.nodes.items done n) :
    Pending g (done ++ [n.name]) (insertNodes (freed (releaseAll n.name waiting)) rest)
      (blocked (releaseAll n.name waiting)) where
  closed := by
    intro m hm hd
    rw [missingNames_eq_nil_iff]
    intro b hb
    apply List.mem_append_left
    rcases List.mem_append.mp hd with hd | hd
    · exact missingNames_eq_nil_iff.mp (h.closed m hm hd) b hb
    · have : m = n := Catalog.eq_of_name_eq hm hn.mem (List.mem_singleton.mp hd)
      subst this
      exact hn.met b hb
  increasing := insertNodes_increasing _ (List.pairwise_cons.mp h.increasing).2
  nodup := h.nodup_step
  mem_ready := by
    intro p
    rw [(insertNodes_perm _ _).mem_iff, List.mem_append, List.mem_map]
    constructor
    · rintro (⟨m, hm, rfl⟩ | hp)
      · exact ⟨m, (h.ready_append_iff hn).mpr (Or.inr hm), rfl⟩
      · obtain ⟨m, hm, rfl⟩ := (h.mem_ready p).mp (List.mem_cons_of_mem _ hp)
        refine ⟨m, (h.ready_append_iff hn).mpr (Or.inl ⟨hm, ?_⟩), rfl⟩
        intro e
        refine (List.nodup_cons.mp h.nodup).1 (List.mem_append_left _ ?_)
        exact List.mem_map.mpr ⟨m.place, hp, e⟩
    · rintro ⟨m, hm, rfl⟩
      rcases (h.ready_append_iff hn).mp hm with ⟨hm, hne⟩ | hm
      · right
        rcases List.mem_cons.mp ((h.mem_ready m.place).mpr ⟨m, hm, rfl⟩) with e | hrest
        · exact absurd (congrArg Prod.snd e) hne
        · exact hrest
      · exact Or.inl ⟨m, hm, rfl⟩
  mem_waiting := fun w => h.mem_blocked_releaseAll hn.new

/-- The algorithm lists from any state that the invariant admits. -/
theorem listsFrom_orderFrom (h : Pending g done ready waiting) : ListsFrom g.nodes.items done (orderFrom ready waiting) := by
  fun_induction orderFrom ready waiting generalizing done with
  | case1 waiting =>
    apply ListsFrom.stop
    intro n hn
    exact List.not_mem_nil ((h.mem_ready n.place).mpr ⟨n, hn, rfl⟩)
  | case2 waiting next rest ih =>
    obtain ⟨n, hn, rfl⟩ := (h.mem_ready next).mp (by simp)
    exact ListsFrom.next hn (h.least hn) (ih (h.step hn))

end Pending

/-- The state before anything is listed. -/
theorem pending_initial (g : TargetGraph) :
    Pending g [] (insertNodes (g.nodes.items.filter (fun n => n.dependencies.isEmpty)) [])
      ((g.nodes.items.filter (fun n => !n.dependencies.isEmpty)).map (fun n => ⟨n, n.dependencies.size⟩)) := by
  have hmiss : ∀ n : TargetNode, missingNames [] n = n.dependencies.names := by
    intro n
    simp [missingNames]
  have hempty : ∀ n : TargetNode, n.dependencies.isEmpty = true ↔ n.dependencies.names = [] := by
    intro n
    simp [Catalog.isEmpty, Catalog.names]
  constructor
  · intro n _ h
    exact absurd h List.not_mem_nil
  · exact insertNodes_increasing _ List.Pairwise.nil
  · have hperm := (insertNodes_perm (g.nodes.items.filter (fun n => n.dependencies.isEmpty)) []).map Prod.snd
    rw [List.append_nil, List.map_map] at hperm
    have hall := (List.filter_append_perm (fun n => n.dependencies.isEmpty) g.nodes.items).map TargetNode.name
    rw [List.map_append] at hall
    rw [List.map_map, (hperm.append_right _).nodup_iff]
    exact hall.nodup_iff.mpr g.nodes.nodup
  · intro p
    rw [(insertNodes_perm _ _).mem_iff, List.append_nil, List.mem_map]
    constructor
    · rintro ⟨n, hn, rfl⟩
      obtain ⟨hmem, he⟩ := List.mem_filter.mp hn
      exact ⟨n, ⟨hmem, List.not_mem_nil, by rw [(hempty n).mp he]; simp⟩, rfl⟩
    · rintro ⟨n, hn, rfl⟩
      refine ⟨n, List.mem_filter.mpr ⟨hn.mem, (hempty n).mpr ?_⟩, rfl⟩
      exact List.eq_nil_iff_forall_not_mem.mpr (fun b hb => List.not_mem_nil (hn.met b hb))
  · intro w
    rw [List.mem_map, hmiss]
    constructor
    · rintro ⟨n, hn, rfl⟩
      obtain ⟨hmem, he⟩ := List.mem_filter.mp hn
      refine ⟨hmem, by simp [Catalog.size, Catalog.names], ?_⟩
      exact fun e => by simp [(hempty n).mpr e] at he
    · rintro ⟨hmem, hmissing, hne⟩
      refine ⟨w.node, List.mem_filter.mpr ⟨hmem, ?_⟩, Waiting.ext rfl ?_⟩
      · simpa using fun e => hne ((hempty w.node).mp e)
      · rw [hmissing]
        simp [Catalog.size, Catalog.names]

/-- The listing of any graph is the canonical one. -/
theorem listed_canonical (g : TargetGraph) : ListsFrom g.nodes.items [] g.listed :=
  (pending_initial g).listsFrom_orderFrom

end BuildPlan.TargetGraph
