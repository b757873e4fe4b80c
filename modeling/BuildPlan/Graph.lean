import BuildPlan.Error
import BuildPlan.Project
import BuildPlan.Reach

/-!
# Target graphs

The projects that one target needs, each with its direct dependencies. A graph may hold dependencies that are not nodes
and cycles; the orders of `Graph.Order` and `Graph.Waves` exist exactly for graphs that have neither.
-/

namespace BuildPlan

/-- A project of a target graph. -/
structure TargetNode where
  name : String
  /-- The place of the project in the order of declaration. -/
  index : Nat
  /-- The direct dependencies with their effective visibility. -/
  dependencies : Keyed Visibility := ∅
  deriving DecidableEq

instance : Named TargetNode := ⟨TargetNode.name⟩

namespace TargetNode

/-- The node with one more dependency. One that is there already keeps its place and gets the union of both
visibilities. -/
def addDependency (n : TargetNode) (dep : String) (v : Visibility) : TargetNode :=
  { n with
    dependencies := n.dependencies.set dep
      (match n.dependencies.lookup dep with
      | none => v
      | some old => old.union v) }

/-- The node with some more dependencies. -/
def addDependencies (n : TargetNode) (deps : List (String × Visibility)) : TargetNode :=
  deps.foldl (fun n d => n.addDependency d.1 d.2) n

/-- Whether a node depends on a name directly. -/
def dependsOn (n : TargetNode) (dep : String) : Bool := n.dependencies.contains dep

end TargetNode

/-- The projects that one target needs. -/
structure TargetGraph where
  target : Target
  nodes : Catalog TargetNode := ∅
  deriving DecidableEq

namespace TargetGraph

/-- The graph with one more node; a node of the same name is replaced in its place. -/
def addNode (g : TargetGraph) (n : TargetNode) : TargetGraph := { g with nodes := g.nodes.put n }

/-- The node of a name. -/
def node? (g : TargetGraph) (name : String) : Option TargetNode := g.nodes.get? name

/-- The names of the direct dependencies of a name; none if it is not a node. -/
def successors (g : TargetGraph) (name : String) : List String :=
  match g.node? name with
  | none => []
  | some n => n.dependencies.names

/-- The names that some node depends on. -/
def dependencyNames (g : TargetGraph) : List String := g.nodes.items.flatMap (fun n => n.dependencies.names)

/-- The first dependency of a node that is not a node itself. -/
def missingDependency? (g : TargetGraph) (n : TargetNode) : Option String :=
  n.dependencies.names.find? (fun dep => !g.nodes.contains dep)

/-- A dependency that is not a node is an error. -/
def checkNodes (g : TargetGraph) : List TargetNode → Except BuildError Unit
  | [] => .ok ()
  | n :: rest =>
    match g.missingDependency? n with
    | some dep => .error (.unknownProject dep (.dependencyOf n.name))
    | none => checkNodes g rest

/-- Checks that every dependency is a node. -/
def validate (g : TargetGraph) : Except BuildError Unit := g.checkNodes g.nodes.items

/-- The names that a name depends on directly or through others, nearest first. -/
def transitiveDependencies (g : TargetGraph) (name : String) : List String :=
  Reach.closure g.dependencyNames g.successors (g.successors name)

end TargetGraph

end BuildPlan
