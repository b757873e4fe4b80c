import BuildPlan.Axes.Names
import BuildPlan.Catalog
import BuildPlan.Text.Blank

/-!
# Target axes

The value lists that a project or a solution asks for, and the targets they expand to. The expansion goes through the
axes in order, the platform outermost and the build system innermost, and takes each value once. It holds exactly the
targets that the axes contain.
-/

namespace BuildPlan

/-- The values asked for on each axis. -/
structure TargetAxes where
  platforms : List Platform := [.win64]
  devEnvs : List DevEnv := [.vs2022]
  optimizations : FlagSet Optimization := FlagSet.ofList [.debug, .release]
  outputKinds : List OutputKind := [.lib]
  launchModes : FlagSet LaunchMode := FlagSet.full
  buildSystems : List BuildSystem := [.fastBuild]

namespace TargetAxes

/-- The axes that hold one target only. -/
def single (t : Target) : TargetAxes where
  platforms := [t.platform]
  devEnvs := [t.devEnv]
  optimizations := FlagSet.single t.optimization
  outputKinds := [t.outputKind]
  launchModes := FlagSet.single t.launchMode
  buildSystems := [t.buildSystem]

/-- The axes of a declaration: a list that is absent takes the default values. -/
def ofNames (d : AxisNames) : Except BuildError TargetAxes := do
  let defaults : TargetAxes := {}
  let optimizations ← AxisNames.readOptional AxisNames.readFlag d.optimizations
  let outputKinds ← AxisNames.readOptional AxisNames.readOutputKind d.outputKinds
  let launchModes ← AxisNames.readOptional AxisNames.readFlag d.launchModes
  let buildSystems ← AxisNames.readOptional AxisNames.readBuildSystem d.buildSystems
  return {
    platforms := (d.platforms.map (fun names => names.map Platform.ofName)).getD defaults.platforms
    devEnvs := (d.devEnvs.map (fun names => names.map DevEnv.ofName)).getD defaults.devEnvs
    optimizations := (optimizations.map FlagSet.ofList).getD defaults.optimizations
    outputKinds := outputKinds.getD defaults.outputKinds
    launchModes := (launchModes.map FlagSet.ofList).getD defaults.launchModes
    buildSystems := buildSystems.getD defaults.buildSystems }

/-- Whether a name can stand in a target key: it is not empty and has neither `-` nor a blank. -/
def isKeyName (name : String) : Bool := !name.isEmpty && name.toList.all (fun c => c != '-' && !Text.isBlank c)

/-- The first of some names that cannot stand in a target key is an error. -/
def checkNames (axis : Axis) : List String → Except BuildError Unit
  | [] => .ok ()
  | n :: rest => if isKeyName n then checkNames axis rest else .error (.invalidAxis axis (.malformedName n))

/-- An axis without values is an error. -/
def checkSome (axis : Axis) (isEmpty : Bool) : Except BuildError Unit :=
  if isEmpty then .error (.invalidAxis axis .noValues) else .ok ()

/-- Checks that every axis has a value and that the names of platforms and environments can stand in a target key. -/
def validate (a : TargetAxes) : Except BuildError Unit := do
  checkSome .platform a.platforms.isEmpty
  checkSome .devEnv a.devEnvs.isEmpty
  checkSome .optimization a.optimizations.isEmpty
  checkSome .outputKind a.outputKinds.isEmpty
  checkSome .launchMode a.launchModes.isEmpty
  checkSome .buildSystem a.buildSystems.isEmpty
  checkNames .platform (a.platforms.map Platform.name)
  checkNames .devEnv (a.devEnvs.map DevEnv.name)

/-- Whether the axes ask for a target. -/
def contains (a : TargetAxes) (t : Target) : Bool :=
  a.platforms.contains t.platform && a.devEnvs.contains t.devEnv && a.optimizations.contains t.optimization &&
    a.outputKinds.contains t.outputKind && a.launchModes.contains t.launchMode && a.buildSystems.contains t.buildSystem

/-- Every combination of values, each value of an axis taken once. -/
def combinations (a : TargetAxes) : List Target :=
  (distinct a.platforms).flatMap fun platform =>
    (distinct a.devEnvs).flatMap fun devEnv =>
      a.optimizations.toList.flatMap fun optimization =>
        (distinct a.outputKinds).flatMap fun outputKind =>
          a.launchModes.toList.flatMap fun launchMode =>
            (distinct a.buildSystems).map fun buildSystem =>
              { platform, devEnv, optimization, outputKind, launchMode, buildSystem }

/-- The targets of valid axes. -/
def expand (a : TargetAxes) : Except BuildError (List Target) := do
  a.validate
  return a.combinations

end TargetAxes

/-- The targets of several lists in the order in which they first occur. -/
def unionTargets (lists : List (List Target)) : List Target := distinct lists.flatten

end BuildPlan
