import BuildPlan.Graph.Order
import BuildPlan.Graph.Waves
import BuildPlan.Resolution.Assembly

/-!
# Resolutions

Resolving a target finds the projects that some roots need, checks that every dependency has a variant for the target,
orders the projects and assembles their descriptors wave by wave. The descriptors go into a store, which is given back
also when the resolution fails.
-/

namespace BuildPlan

/-- All that is resolved for one target. -/
structure Resolution where
  target : Target
  graph : TargetGraph
  /-- The projects, every one after its dependencies. -/
  order : List String
  /-- The number of waves. -/
  waves : Nat
  /-- The descriptors in this order. -/
  descriptors : List Descriptor
  deriving DecidableEq

/-- A discovery that has passed every check, with its order and its waves. -/
structure Schedule where
  discovery : Discovery
  order : List String
  waves : List (List String)

namespace Workspace

/-- The checked and ordered projects that some roots need on a target. -/
def schedule (w : Workspace) (strict : Bool) (roots : List String) (t : Target) : Except BuildError Schedule := do
  let discovery ← Discovery.ofRoots w strict roots t
  discovery.graph.validate
  discovery.checkVariants w discovery.graph.nodes.items
  let order ← discovery.graph.topologicalOrder
  let waves ← discovery.graph.parallelGroups
  return { discovery, order, waves }

end Workspace

namespace Schedule

/-- The descriptors of some projects in the store. -/
def collect (store : DescriptorStore) (t : Target) : List String → Except BuildError (List Descriptor)
  | [] => .ok []
  | name :: rest =>
    match store.get? name t with
    | none => .error (.incompleteDescriptor name name t)
    | some d => do
      let more ← collect store t rest
      return d :: more

/-- Assembles the scheduled projects. -/
def run (s : Schedule) (store : DescriptorStore) : Except BuildError Resolution × DescriptorStore :=
  let t := s.discovery.graph.target
  match s.discovery.assembleWaves s.order store s.waves with
  | (some e, store) => (.error e, store)
  | (none, store) =>
    ((collect store t s.order).map fun descriptors =>
      { target := t, graph := s.discovery.graph, order := s.order, waves := s.waves.length, descriptors }, store)

end Schedule

namespace Workspace

/-- Resolves some roots and all they need on a target. -/
def resolve (w : Workspace) (strict : Bool) (roots : List String) (t : Target) (store : DescriptorStore) :
    Except BuildError Resolution × DescriptorStore :=
  match w.schedule strict roots t with
  | .error e => (.error e, store)
  | .ok s => s.run store

/-- The descriptor of one project on a target. -/
def compile (w : Workspace) (strict : Bool) (name : String) (t : Target) : Except BuildError Descriptor := do
  let resolution ← (w.resolve strict [name] t {}).1
  match resolution.descriptors.find? (fun d => d.project == name) with
  | some d => return d
  | none => throw (.unknownProject name .direct)

end Workspace

end BuildPlan
