import BuildPlan.Graph

/-!
# Cycles

Depth-first search for a cycle, for the message of an error. The search keeps the path it is on: a dependency that is on
the path closes a cycle, one that was visited before and is not on the path leads to none, and any other node is entered.
-/

namespace BuildPlan.TargetGraph

/-- A node on the path of the search with the dependencies that are still to be looked at. -/
abbrev PathStep := String × List String

/-- The path of the search, its latest node first. -/
abbrev SearchPath := List PathStep

/-- The number of dependencies still to be looked at and of nodes to leave. -/
def work : SearchPath → Nat
  | [] => 0
  | s :: rest => s.2.length + 1 + work rest

/-- The names from the first occurrence of `name` on the path to its end, and `name` again. -/
def cycleAt (path : SearchPath) (name : String) : List String :=
  (path.map Prod.fst).reverse.dropWhile (fun n => n != name) ++ [name]

set_option linter.unusedVariables false in
/-- The search from a path: the cycle it meets, or the names visited when the path is left without one. -/
def search (g : TargetGraph) (path : SearchPath) (visited : List String) : List String ⊕ List String :=
  match path with
  | [] => .inr visited
  | (_, []) :: rest => search g rest visited
  | (name, dep :: deps) :: rest =>
    if (((name, dep :: deps) :: rest).map Prod.fst).contains dep then .inl (cycleAt ((name, dep :: deps) :: rest) dep)
    else if hv : dep ∈ visited then search g ((name, deps) :: rest) visited
    else
      match hn : g.node? dep with
      | none => search g ((name, deps) :: rest) visited
      | some node => search g ((dep, node.dependencies.names) :: (name, deps) :: rest) (dep :: visited)
termination_by ((Reach.unseen g.nodes.names visited).length, work path)
decreasing_by
  · exact Prod.Lex.right _ (by simp [work])
  · exact Prod.Lex.right _ (by simp [work])
  · exact Prod.Lex.right _ (by simp [work])
  · exact Prod.Lex.left _ _ (Reach.unseen_cons_lt (Catalog.mem_names_of_get? hn) hv)

/-- The search from each of some nodes in turn. -/
def searchFrom (g : TargetGraph) (visited : List String) : List TargetNode → Option (List String)
  | [] => none
  | n :: rest =>
    if visited.contains n.name then searchFrom g visited rest
    else
      match g.search [(n.name, n.dependencies.names)] (n.name :: visited) with
      | .inl cycle => some cycle
      | .inr visited => searchFrom g visited rest

/-- A cycle of the graph, its first name repeated at the end. -/
def findCycle? (g : TargetGraph) : Option (List String) := g.searchFrom [] g.nodes.items

/-- The error for a graph that has no order. -/
def cyclic (g : TargetGraph) : BuildError := .cyclicDependency g.target (g.findCycle?.getD ["unknown cycle"])

end BuildPlan.TargetGraph
