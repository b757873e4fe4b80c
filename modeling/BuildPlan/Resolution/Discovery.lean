import BuildPlan.Graph
import BuildPlan.Resolution.Local

/-!
# Discovery

The projects that some roots need on a target: the roots and, breadth first, everything that an edge of the target leads
to from them. An edge exists for a target if it is registered with a filter that admits the target, or if a rule that
applies to the target declares it; of several declarations of one edge a public one makes it public.
-/

namespace BuildPlan

namespace Workspace

/-- The dependencies of a project on a target as they are declared, the registered ones first. -/
def declaredEdges (w : Workspace) (p : Project) (t : Target) : List (String × Visibility) :=
  (w.edgesFor p.name t).map (fun e => (e.dependency, e.visibility)) ++
    (w.chainConfiguration p t).dependencies.map (fun d => (d.project, d.visibility))

/-- The node of a project in the graph of a target. -/
def node (w : Workspace) (p : Project) (t : Target) : TargetNode :=
  ({ name := p.name, index := w.projects.indexOf p.name } : TargetNode).addDependencies (w.declaredEdges p t)

/-- The names that a name depends on directly; none if it is not a project. -/
def successors (w : Workspace) (t : Target) (name : String) : List String :=
  match w.projects.get? name with
  | none => []
  | some p => (w.node p t).dependencies.names

/-- The roots and the projects that they need on a target, nearest first. -/
def needed (w : Workspace) (roots : List String) (t : Target) : List String :=
  Reach.closure w.projects.names (w.successors t) roots

end Workspace

/-- The graph of a target and the local configurations of its projects. -/
structure Discovery where
  graph : TargetGraph
  locals : Keyed LocalConfiguration := ∅

namespace Discovery

/-- The discovery with one more project. The project must be declared, its rules must not be in conflict in strict mode
and its dependencies must be declared. -/
def visit (w : Workspace) (strict : Bool) (t : Target) (d : Discovery) (name : String) : Except BuildError Discovery := do
  let p ← w.project name
  let settings ← w.compileLocal strict p t
  let node := w.node p t
  match node.dependencies.names.find? (fun dep => !w.projects.contains dep) with
  | some dep => throw (.unknownProject dep (.dependencyOf name))
  | none => return { graph := d.graph.addNode node, locals := d.locals.set name settings }

/-- The projects that some roots need on a target. -/
def ofRoots (w : Workspace) (strict : Bool) (roots : List String) (t : Target) : Except BuildError Discovery :=
  (w.needed roots t).foldlM (visit w strict t) { graph := { target := t } }

/-- Whether a project has a variant for the target of the discovery. -/
def hasVariant (d : Discovery) (p : Project) : Bool :=
  p.supports d.graph.target && (d.locals.lookup p.name).all LocalConfiguration.hasVariant

/-- The first dependency of a node without a variant is an error. -/
def checkDependencies (w : Workspace) (d : Discovery) (dependent : String) : List String → Except BuildError Unit
  | [] => .ok ()
  | dep :: rest => do
    let p ← w.project dep
    if d.hasVariant p then checkDependencies w d dependent rest
    else throw (.missingVariant dep dependent d.graph.target)

/-- The first node with a dependency without a variant is an error. -/
def checkVariants (w : Workspace) (d : Discovery) : List TargetNode → Except BuildError Unit
  | [] => .ok ()
  | n :: rest => do
    checkDependencies w d n.name n.dependencies.names
    checkVariants w d rest

end Discovery

end BuildPlan
