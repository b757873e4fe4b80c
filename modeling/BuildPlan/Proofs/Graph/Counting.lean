import BuildPlan.Proofs.Graph.Listing

/-!
# Counting comes to the canonical order

The loop that counts missing dependencies goes through states (`Counted`), and in every state a counter is the number of
dependencies that are not listed (`Counted.pending`). So a node is counted down only while it waits and never below zero
(`Counted.exists_waiting`), and the loop ends after as many steps as names are listed. What it lists is all nodes exactly
if every dependency is a node and there is no cycle, each the least of those that are ready (`order_canonical`).
-/

namespace BuildPlan

open Relation

namespace TargetGraph

/-! ### The states of the loop -/

/-- The queue before anything is listed: the places of the nodes without dependencies. -/
def initialQueue (g : TargetGraph) : List Place := insertNodes (g.nodes.items.filter (fun n => n.dependencies.isEmpty)) []

/-- The nodes with dependencies and the number of them, before anything is listed. -/
def initialWaiting (g : TargetGraph) : List Waiting :=
  (g.nodes.items.filter (fun n => !n.dependencies.isEmpty)).map (fun n => ⟨n, n.dependencies.size⟩)

/-- The states that the loop goes through: the names that are listed, the queue of the places that are ready, and the nodes
that wait with their counters. -/
inductive Counted (g : TargetGraph) : List String → List Place → List Waiting → Prop
  | start : Counted g [] g.initialQueue g.initialWaiting
  | next {done : List String} {next : Place} {rest : List Place} {waiting : List Waiting}
      (h : Counted g done (next :: rest) waiting) :
      Counted g (done ++ [next.2]) (insertNodes (freed (releaseAll next.2 waiting)) rest)
        (blocked (releaseAll next.2 waiting))

namespace Counted

variable {g : TargetGraph} {done : List String} {next : Place} {ready rest : List Place} {waiting : List Waiting}

theorem pending (h : g.Counted done ready waiting) : Pending g done ready waiting := by
  induction h with
  | start => exact pending_initial g
  | next _ ih =>
    obtain ⟨n, hn, rfl⟩ := (ih.mem_ready _).mp List.mem_cons_self
    exact ih.step hn

/-- In every state, what is listed and what is still going to be listed are the listing. -/
theorem append_orderFrom (h : g.Counted done ready waiting) : done ++ orderFrom ready waiting = g.listed := by
  induction h with
  | start => rfl
  | next _ ih => rw [← ih, orderFrom, List.append_assoc, List.singleton_append]

/-- From every state the loop comes to an empty queue, and then all of the listing is listed. -/
theorem exists_last (h : g.Counted done ready waiting) : ∃ left, g.Counted g.listed [] left := by
  fun_induction orderFrom ready waiting generalizing done with
  | case1 waiting =>
    have hdone : done = g.listed := by
      rw [← h.append_orderFrom, orderFrom, List.append_nil]
    exact ⟨waiting, hdone ▸ h⟩
  | case2 waiting next rest ih => exact ih h.next

/-- While the queue is not empty, not all nodes are listed. -/
theorem length_lt (h : g.Counted done (next :: rest) waiting) : done.length < g.nodes.size := by
  have hle : g.listed.length ≤ g.nodes.names.length :=
    (List.subperm_of_subset g.nodup_listed g.listed_subset).length_le
  rw [← h.append_orderFrom, orderFrom, List.length_append, List.length_cons, Catalog.names, List.length_map] at hle
  rw [Catalog.size]
  omega

/-- A node that depends on the name that is listed next waits, and its counter is not zero yet. -/
theorem exists_waiting (h : g.Counted done (next :: rest) waiting) {n : TargetNode} (hn : n ∈ g.nodes.items)
    (hdep : n.dependsOn next.2 = true) : ∃ w ∈ waiting, w.node = n ∧ 0 < w.missing := by
  obtain ⟨m, hm, rfl⟩ := (h.pending.mem_ready next).mp List.mem_cons_self
  have hmissing : m.name ∈ missingNames done n := by
    change n.dependsOn m.name = true at hdep
    have hname : m.name ∈ n.dependencies.names := by simpa [TargetNode.dependsOn, Catalog.contains] using hdep
    exact List.mem_filter.mpr ⟨hname, by simpa using hm.new⟩
  exact ⟨⟨n, (missingNames done n).length⟩,
    (h.pending.mem_waiting _).mpr ⟨hn, rfl, List.ne_nil_of_mem hmissing⟩, rfl, List.length_pos_of_mem hmissing⟩

end Counted

/-! ### The order -/

/-- The node that comes next once some names are listed: among the nodes that are not listed while all their dependencies
are, the one with the least place. -/
structure Least (g : TargetGraph) (done : List String) (n : TargetNode) : Prop where
  ready : Ready g.nodes.items done n
  before : ∀ m, Ready g.nodes.items done m → m = n ∨ Place.before n.place m.place = true

/-- Every name of a listing is the least one that could come. -/
theorem ListsFrom.least {g : TargetGraph} {done l : List String} (h : ListsFrom g.nodes.items done l) :
    ∀ l₁ a l₂, l = l₁ ++ a :: l₂ → ∃ n, g.Least (done ++ l₁) n ∧ n.name = a := by
  induction h with
  | stop =>
    intro l₁ a l₂ he
    exact absurd he.symm (by simp)
  | @next done rest n ready least _ ih =>
    intro l₁ a l₂ he
    cases l₁ with
    | nil =>
      rw [List.nil_append, List.cons.injEq] at he
      rw [List.append_nil]
      exact ⟨n, ⟨ready, least⟩, he.1⟩
    | cons x l₁ =>
      rw [List.cons_append, List.cons.injEq] at he
      obtain ⟨rfl, he⟩ := he
      simpa using ih l₁ a l₂ he

namespace IsOrder

variable {g : TargetGraph} {order : List String}

theorem perm (h : g.IsOrder order) : order.Perm g.nodes.names :=
  (List.perm_ext_iff_of_nodup h.nodup g.nodes.nodup).mpr h.complete

/-- What a node of an ordered graph depends on is a node. -/
theorem closed (h : g.IsOrder order) : g.Closed := by
  intro a b hab
  exact (h.complete b).mp (h.dependenciesFirst.mem ((h.complete a).mpr hab.source) hab)

end IsOrder

/-- A graph has an order exactly if every dependency is a node and there is no cycle. -/
theorem exists_topologicalOrder_iff {g : TargetGraph} :
    (∃ order, g.topologicalOrder = .ok order) ↔ g.Closed ∧ ∀ a, ¬TransGen g.Edge a a := by
  constructor
  · rintro ⟨order, h⟩
    have hIs := isOrder_of_topologicalOrder h
    exact ⟨hIs.closed, hIs.not_cycle⟩
  · rintro ⟨hclosed, hacyclic⟩
    exact ⟨g.listed, topologicalOrder_of_not_cycle hclosed hacyclic⟩

end TargetGraph

/-- The dependency order of any graph. The loop that computes it ends: it comes to an empty queue, with no more steps than
there are nodes, and every node that is counted down in a step waits with a counter above zero. There is an order exactly
if every dependency is a node and no project depends on itself, directly or through others. It holds every node once and
puts dependencies first, and each place goes to the least node, by declaration and then by name, of those that are not
listed yet and whose dependencies all are. -/
theorem order_canonical (g : TargetGraph) :
    (∃ left, g.Counted g.listed [] left) ∧
    (∀ done next rest waiting, g.Counted done (next :: rest) waiting → done.length < g.nodes.size ∧
      ∀ n ∈ g.nodes.items, n.dependsOn next.2 = true → ∃ w ∈ waiting, w.node = n ∧ 0 < w.missing) ∧
    ((∃ order, g.topologicalOrder = .ok order) ↔ g.Closed ∧ ∀ a, ¬TransGen g.Edge a a) ∧
    ∀ order, g.topologicalOrder = .ok order →
      order.Perm g.nodes.names ∧ DependenciesFirst g.Edge order ∧
      ∀ l₁ a l₂, order = l₁ ++ a :: l₂ → ∃ n, g.Least l₁ n ∧ n.name = a := by
  refine ⟨TargetGraph.Counted.start.exists_last, ?_, TargetGraph.exists_topologicalOrder_iff, ?_⟩
  · intro done next rest waiting h
    exact ⟨h.length_lt, fun n hn hdep => h.exists_waiting hn hdep⟩
  · intro order h
    have hIs := TargetGraph.isOrder_of_topologicalOrder h
    exact ⟨hIs.perm, hIs.dependenciesFirst, hIs.canonical.least⟩

/-- A program over two libraries that share a third one. -/
def TargetGraph.diamond : TargetGraph where
  nodes := Catalog.ofList [
    { name := "App", index := 0, dependencies := Catalog.ofList [("A", .pub), ("Z", .pub)] },
    { name := "Z", index := 1, dependencies := Catalog.ofList [("Core", .pub)] },
    { name := "A", index := 2, dependencies := Catalog.ofList [("Core", .pub)] },
    { name := "Core", index := 3 }]
  target := {}

/-- The two libraries come in the order in which they were declared, whatever their names are. -/
theorem order_canonical_diamond :
    TargetGraph.diamond.topologicalOrder = .ok ["Core", "Z", "A", "App"] ∧
      ∃ n, TargetGraph.diamond.Least ["Core"] n ∧ n.name = "Z" := by
  have h : TargetGraph.diamond.topologicalOrder = .ok ["Core", "Z", "A", "App"] := by decide +kernel
  obtain ⟨-, -, -, hordered⟩ := order_canonical TargetGraph.diamond
  obtain ⟨-, -, hleast⟩ := hordered _ h
  exact ⟨h, hleast ["Core"] "Z" ["A", "App"] rfl⟩

end BuildPlan
