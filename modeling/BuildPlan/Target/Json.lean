import BuildPlan.Json.Record
import BuildPlan.Target

/-!
# Targets in JSON

A target is a record of six names. The names of platforms and environments are read as everywhere else; the names on the
other axes must be written in lowercase.
-/

namespace BuildPlan

namespace Platform

/-- The name of a platform. -/
def toJson (p : Platform) : Json := .str p.name

/-- The platform of a name; every text is one. -/
def ofJson? (j : Json) : Option Platform := j.str?.map ofName

end Platform

namespace DevEnv

/-- The name of an environment. -/
def toJson (d : DevEnv) : Json := .str d.name

/-- The environment of a name; every text is one. -/
def ofJson? (j : Json) : Option DevEnv := j.str?.map ofName

end DevEnv

/-- The optimization of a name in lowercase. -/
def Optimization.ofJson? (j : Json) : Option Optimization := Json.variant? Flag.all Optimization.name j

/-- The output kind of a name in lowercase. -/
def OutputKind.ofJson? (j : Json) : Option OutputKind := Json.variant? OutputKind.all OutputKind.name j

/-- The launch mode of a name in lowercase. -/
def LaunchMode.ofJson? (j : Json) : Option LaunchMode := Json.variant? Flag.all LaunchMode.name j

/-- The build system of a name in lowercase. -/
def BuildSystem.ofJson? (j : Json) : Option BuildSystem := Json.variant? BuildSystem.all BuildSystem.name j

namespace Target

/-- The names of the fields of a target in order. -/
def fieldNames : List String := ["platform", "dev_env", "optimization", "output_kind", "launch_mode", "build_system"]

/-- The record of a target. -/
def toJson (t : Target) : Json :=
  .obj [
    ("platform", t.platform.toJson), ("dev_env", t.devEnv.toJson), ("optimization", .str t.optimization.name),
    ("output_kind", .str t.outputKind.name), ("launch_mode", .str t.launchMode.name),
    ("build_system", .str t.buildSystem.name)]

/-- The target of a record. -/
def ofJson? (j : Json) : Option Target := do
  match ← Json.required? fieldNames j with
  | [platform, devEnv, optimization, outputKind, launchMode, buildSystem] =>
    return {
      platform := ← Platform.ofJson? platform
      devEnv := ← DevEnv.ofJson? devEnv
      optimization := ← Optimization.ofJson? optimization
      outputKind := ← OutputKind.ofJson? outputKind
      launchMode := ← LaunchMode.ofJson? launchMode
      buildSystem := ← BuildSystem.ofJson? buildSystem }
  | _ => none

end Target

end BuildPlan
