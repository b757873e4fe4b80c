import BuildPlan.Axes.Names

/-!
# Target filters

A rule or an edge may hold for some targets only. A filter has for each axis a list of accepted values, or none if it
accepts them all; it admits a target that every axis accepts.
-/

namespace BuildPlan

/-- The values that are accepted on each axis; an absent list accepts every value. -/
structure TargetPredicate where
  platforms : Option (List Platform) := none
  devEnvs : Option (List DevEnv) := none
  optimizations : Option (List Optimization) := none
  outputKinds : Option (List OutputKind) := none
  launchModes : Option (List LaunchMode) := none
  buildSystems : Option (List BuildSystem) := none
  deriving DecidableEq

namespace TargetPredicate

/-- The filter that admits every target. -/
def all : TargetPredicate := {}

/-- The filter of a declaration: a list that is absent accepts every value. -/
def ofNames (d : AxisNames) : Except BuildError TargetPredicate := do
  let optimizations ← AxisNames.readOptional AxisNames.readFlag d.optimizations
  let outputKinds ← AxisNames.readOptional AxisNames.readOutputKind d.outputKinds
  let launchModes ← AxisNames.readOptional AxisNames.readFlag d.launchModes
  let buildSystems ← AxisNames.readOptional AxisNames.readBuildSystem d.buildSystems
  return {
    platforms := d.platforms.map (fun names => names.map Platform.ofName)
    devEnvs := d.devEnvs.map (fun names => names.map DevEnv.ofName)
    optimizations, outputKinds, launchModes, buildSystems }

/-- Whether an axis accepts a value. -/
def accepts {α : Type} [DecidableEq α] (allowed : Option (List α)) (value : α) : Bool :=
  match allowed with
  | none => true
  | some l => l.contains value

/-- Whether every axis accepts its value of the target. -/
def admits (p : TargetPredicate) (t : Target) : Bool :=
  accepts p.platforms t.platform && accepts p.devEnvs t.devEnv && accepts p.optimizations t.optimization &&
    accepts p.outputKinds t.outputKind && accepts p.launchModes t.launchMode && accepts p.buildSystems t.buildSystem

/-- Whether no axis has a list. -/
def isUnconditional (p : TargetPredicate) : Bool := p == all

/-- The filter that accepts one more platform. -/
def orPlatform (p : TargetPredicate) (platform : Platform) : TargetPredicate :=
  { p with platforms := some (p.platforms.getD [] ++ [platform]) }

/-- The filter that accepts one more optimization. -/
def orOptimization (p : TargetPredicate) (optimization : Optimization) : TargetPredicate :=
  { p with optimizations := some (p.optimizations.getD [] ++ [optimization]) }

end TargetPredicate

end BuildPlan
