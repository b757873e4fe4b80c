import BuildPlan.Graph.Cycle

/-!
# Waves

Waves group the projects of a graph so that every dependency of a project lies in an earlier wave. A wave holds all
projects whose dependencies are done, in the order of their declaration.
-/

namespace BuildPlan.TargetGraph

/-- Whether all dependencies of a node are done. -/
def isReady (done : List String) (n : TargetNode) : Bool := n.dependencies.names.all done.contains

/-- The nodes of a list that are ready. -/
def readyNodes (done : List String) (left : List TargetNode) : List TargetNode := left.filter (isReady done)

/-- The nodes of a list that are not ready. -/
def blockedNodes (done : List String) (left : List TargetNode) : List TargetNode :=
  left.filter (fun n => !isReady done n)

/-- Nodes in the order of their declaration; those of one place stay as they are. -/
def byIndex (nodes : List TargetNode) : List TargetNode := nodes.mergeSort (fun a b => decide (a.index ≤ b.index))

/-- When some node is ready, fewer are left. -/
theorem length_blockedNodes_lt {done : List String} {left : List TargetNode} (h : readyNodes done left ≠ []) :
    (blockedNodes done left).length < left.length := by
  unfold readyNodes at h
  unfold blockedNodes
  induction left with
  | nil => simp at h
  | cons n left ih =>
    by_cases hn : isReady done n
    · simp only [List.filter_cons, hn, Bool.not_true, Bool.false_eq_true, ↓reduceIte, List.length_cons]
      exact Nat.lt_succ_of_le (List.length_filter_le _ _)
    · have hl : left.filter (isReady done) ≠ [] := by simpa [List.filter_cons, hn] using h
      simp only [List.filter_cons, hn, Bool.not_false, ↓reduceIte, List.length_cons]
      exact Nat.succ_lt_succ (ih hl)

set_option linter.unusedVariables false in
/-- The waves of the nodes that are left, and the nodes that never become ready. -/
def wavesFrom (done : List String) (left : List TargetNode) : List (List String) × List TargetNode :=
  if h : readyNodes done left = [] then ([], left)
  else
    let wave := (byIndex (readyNodes done left)).map TargetNode.name
    let later := wavesFrom (done ++ wave) (blockedNodes done left)
    (wave :: later.1, later.2)
termination_by left.length
decreasing_by exact length_blockedNodes_lt h

/-- The waves of the graph, or the error that some projects never become ready. -/
def parallelGroups (g : TargetGraph) : Except BuildError (List (List String)) :=
  let (waves, stuck) := wavesFrom [] g.nodes.items
  if stuck.isEmpty then .ok waves else .error g.cyclic

end BuildPlan.TargetGraph
