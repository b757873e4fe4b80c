import BuildPlan.Resolution

/-!
# Graph drawings

The graph of a resolved target in the language of Graphviz: the projects in dependency order and then their edges.
A private edge is dashed.
-/

namespace BuildPlan.Resolution

/-- A name between double quotes, as it is. -/
def dotName (name : String) : String := "\"" ++ name ++ "\""

/-- The line of an edge. -/
def dotEdge (source : String) (dep : String × Visibility) : String :=
  "  " ++ dotName source ++ " -> " ++ dotName dep.1 ++
    (match dep.2 with
    | .pub => ";\n"
    | .priv => " [style=dashed];\n")

/-- The lines of the edges of a project. -/
def dotEdges (r : Resolution) (name : String) : List String :=
  match r.graph.node? name with
  | none => []
  | some node => node.dependencies.items.map (dotEdge name)

/-- The drawing of a resolution. -/
def dot (r : Resolution) : String :=
  "digraph " ++ dotName r.target.key ++ " \x7b\n  rankdir=LR;\n" ++
    Text.join "" (r.order.map (fun name => "  " ++ dotName name ++ ";\n")) ++
    Text.join "" (r.order.flatMap r.dotEdges) ++ "\x7d\n"

end BuildPlan.Resolution
