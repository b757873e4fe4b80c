import BuildPlan.Axes
import BuildPlan.Axes.Predicate
import BuildPlan.Target.Json

/-!
# Axes in JSON

Axes are a record of six lists. The names of flags are read whatever the case of their letters; the names of output kinds
and build systems must be written in lowercase. A filter is written with the lists that it has.
-/

namespace BuildPlan

/-- What is wrong with a set of flags. -/
inductive FlagSetFault
  /-- It is no list of texts. -/
  | malformed
  /-- The axis has no value of this name. -/
  | unknownName (axis : Axis) (name : String)
  deriving DecidableEq

/-- The message for a name that is not known. -/
def FlagSetFault.message? : FlagSetFault → Option String
  | malformed => none
  | unknownName axis name => some ("unknown " ++ axis.name ++ " value '" ++ name ++ "'")

namespace FlagSet

variable {α : Type} [DecidableEq α] [Flag α]

/-- The names of the values in bit order. -/
def toJson (s : FlagSet α) : Json := Json.ofStrings s.names

/-- The flags of some names; the first name that is not known is the fault. -/
def readNames : List String → Except FlagSetFault (List α)
  | [] => .ok []
  | name :: rest =>
    match Flag.ofName? (α := α) name with
    | none => .error (.unknownName (Flag.axis α) name)
    | some a => (readNames rest).map (a :: ·)

/-- The set of a list of names. -/
def ofJson (j : Json) : Except FlagSetFault (FlagSet α) :=
  match Json.strings? j with
  | some names => (readNames names).map FlagSet.ofList
  | none => .error .malformed

end FlagSet

namespace TargetAxes

/-- The names of the fields of axes in order. -/
def fieldNames : List String :=
  ["platforms", "dev_envs", "optimizations", "output_kinds", "launch_modes", "build_systems"]

/-- The record of axes. -/
def toJson (a : TargetAxes) : Json :=
  .obj [
    ("platforms", .arr (a.platforms.map Platform.toJson)), ("dev_envs", .arr (a.devEnvs.map DevEnv.toJson)),
    ("optimizations", a.optimizations.toJson), ("output_kinds", Json.ofStrings (a.outputKinds.map OutputKind.name)),
    ("launch_modes", a.launchModes.toJson), ("build_systems", Json.ofStrings (a.buildSystems.map BuildSystem.name))]

/-- The values of a list. -/
def readList? {α : Type} (read : Json → Option α) (j : Json) : Option (List α) := j.arr?.bind (fun l => l.mapM read)

/-- The axes of a record. -/
def ofJson? (j : Json) : Option TargetAxes := do
  match ← Json.required? fieldNames j with
  | [platforms, devEnvs, optimizations, outputKinds, launchModes, buildSystems] =>
    return {
      platforms := ← readList? Platform.ofJson? platforms
      devEnvs := ← readList? DevEnv.ofJson? devEnvs
      optimizations := ← (FlagSet.ofJson optimizations).toOption
      outputKinds := ← readList? OutputKind.ofJson? outputKinds
      launchModes := ← (FlagSet.ofJson launchModes).toOption
      buildSystems := ← readList? BuildSystem.ofJson? buildSystems }
  | _ => none

end TargetAxes

namespace TargetPredicate

/-- A list of a filter as a member of its record, if the filter has the list. -/
def listMember {α : Type} (field : String) (name : α → String) (values : Option (List α)) : List (String × Json) :=
  (values.map (fun l => (field, Json.ofStrings (l.map name)))).toList

/-- The record of a filter. -/
def toJson (p : TargetPredicate) : Json :=
  .obj (
    listMember "platforms" Platform.name p.platforms ++ listMember "dev_envs" DevEnv.name p.devEnvs ++
      listMember "optimizations" Optimization.name p.optimizations ++
      listMember "output_kinds" OutputKind.name p.outputKinds ++
      listMember "launch_modes" LaunchMode.name p.launchModes ++
      listMember "build_systems" BuildSystem.name p.buildSystems)

end TargetPredicate

end BuildPlan
