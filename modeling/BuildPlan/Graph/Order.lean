import BuildPlan.Graph.Cycle

/-!
# Dependency order

The order puts every project after its dependencies. Among the projects whose dependencies are all listed the one that
was declared first comes next, and of equal places in the declaration the lesser name. It is computed by counting, for
each project, the dependencies that are not listed yet: a project is ready when its count is zero.
-/

namespace BuildPlan.TargetGraph

/-- The place of a ready project among the ready ones. -/
abbrev Place := Nat × String

/-- The order of places: by declaration, then by name. -/
def Place.before (a b : Place) : Bool := a.1 < b.1 || (a.1 == b.1 && a.2 < b.2)

/-- A place put into an increasing list. -/
def insertPlace (p : Place) : List Place → List Place
  | [] => [p]
  | q :: rest => if Place.before p q then p :: q :: rest else q :: insertPlace p rest

/-- The places of some nodes put into an increasing list. -/
def insertNodes (nodes : List TargetNode) (ready : List Place) : List Place :=
  nodes.foldl (fun ready n => insertPlace (n.index, n.name) ready) ready

/-- A node that is not ready, with the number of its dependencies that are not listed. -/
@[ext]
structure Waiting where
  node : TargetNode
  missing : Nat
  deriving DecidableEq

/-- One dependency of a node that needs it is listed. -/
def Waiting.release (name : String) (w : Waiting) : Waiting :=
  if w.node.dependsOn name then { w with missing := w.missing - 1 } else w

theorem length_insertPlace (p : Place) (l : List Place) : (insertPlace p l).length = l.length + 1 := by
  induction l with
  | nil => rfl
  | cons q l ih =>
    unfold insertPlace
    split
    · rfl
    · simp [ih]

theorem length_insertNodes (nodes : List TargetNode) (ready : List Place) :
    (insertNodes nodes ready).length = ready.length + nodes.length := by
  unfold insertNodes
  induction nodes generalizing ready with
  | nil => rfl
  | cons n nodes ih =>
    rw [List.foldl_cons, ih, length_insertPlace, List.length_cons]
    omega

/-- The nodes of a list that satisfy a condition and those that do not are as many as the list. -/
theorem length_filter_add (p : Waiting → Bool) (l : List Waiting) :
    (l.filter p).length + (l.filter (fun w => !p w)).length = l.length := by
  induction l with
  | nil => rfl
  | cons w l ih =>
    by_cases h : p w
    · simp only [List.filter_cons, h, List.length_cons, ↓reduceIte, Bool.not_true, Bool.false_eq_true]
      omega
    · simp only [List.filter_cons, h, List.length_cons, ↓reduceIte, Bool.not_false, Bool.false_eq_true]
      omega

/-- One name is listed: every node that needs it misses one dependency less. -/
def releaseAll (name : String) (waiting : List Waiting) : List Waiting := waiting.map (Waiting.release name)

/-- The nodes of which no dependency is missing. -/
def freed (waiting : List Waiting) : List TargetNode := (waiting.filter (fun w => w.missing == 0)).map Waiting.node

/-- The nodes of which some dependency is missing. -/
def blocked (waiting : List Waiting) : List Waiting := waiting.filter (fun w => !(w.missing == 0))

/-- Lists the ready project with the least place and goes on with the projects that this makes ready. -/
def orderFrom (ready : List Place) (waiting : List Waiting) : List String :=
  match ready with
  | [] => []
  | next :: rest =>
    next.2 :: orderFrom (insertNodes (freed (releaseAll next.2 waiting)) rest) (blocked (releaseAll next.2 waiting))
termination_by ready.length + waiting.length
decreasing_by
  have h := length_filter_add (fun w => w.missing == 0) (releaseAll next.2 waiting)
  have hl : (releaseAll next.2 waiting).length = waiting.length := by simp [releaseAll]
  rw [length_insertNodes, freed, blocked, List.length_map, List.length_cons]
  omega

/-- The names listed by counting. They are all names exactly if the graph has an order. -/
def listed (g : TargetGraph) : List String :=
  let free := g.nodes.items.filter (fun n => n.dependencies.isEmpty)
  let waiting := (g.nodes.items.filter (fun n => !n.dependencies.isEmpty)).map (fun n => ⟨n, n.dependencies.size⟩)
  orderFrom (insertNodes free []) waiting

/-- The dependency order, or the error that there is none. -/
def topologicalOrder (g : TargetGraph) : Except BuildError (List String) :=
  if g.listed.length = g.nodes.size then .ok g.listed else .error g.cyclic

end BuildPlan.TargetGraph
