import BuildPlan.Error

/-!
# Declared axis values

Declarations name the values of an axis as texts. `AxisNames` holds the lists as they are written; the functions here read
one name of each axis. Every name of a platform or an environment has a meaning; on the other axes an unknown name is
an error.
-/

namespace BuildPlan

/-- Lists of names, one for each axis. A list that is absent is left to the reader: a project takes the default values,
a filter accepts every value. -/
structure AxisNames where
  platforms : Option (List String) := none
  devEnvs : Option (List String) := none
  optimizations : Option (List String) := none
  outputKinds : Option (List String) := none
  launchModes : Option (List String) := none
  buildSystems : Option (List String) := none
  deriving DecidableEq

namespace AxisNames

/-- The value of a flag axis that a name stands for. -/
def readFlag {α : Type} [DecidableEq α] [Flag α] (name : String) : Except BuildError α :=
  match Flag.ofName? (α := α) name with
  | some a => .ok a
  | none => .error (.invalidAxis (Flag.axis α) (.unknownValue name))

/-- The output kind that a name stands for, whatever its case. -/
def readOutputKind (name : String) : Except BuildError OutputKind :=
  match Text.lower name with
  | "lib" => .ok .lib
  | "dll" => .ok .dll
  | "exe" => .ok .exe
  | _ => .error (.invalidAxis .outputKind (.unknownValue name))

/-- The build system that a name stands for, whatever its case. -/
def readBuildSystem (name : String) : Except BuildError BuildSystem :=
  match Text.lower name with
  | "msbuild" => .ok .msBuild
  | "fastbuild" => .ok .fastBuild
  | "make" => .ok .make
  | "ninja" => .ok .ninja
  | _ => .error (.invalidAxis .buildSystem (.unknownValue name))

/-- The values of a list of names; the first name without a meaning is the error. -/
def readAll {α : Type} (read : String → Except BuildError α) : List String → Except BuildError (List α)
  | [] => .ok []
  | n :: rest => do
    let a ← read n
    let more ← readAll read rest
    return a :: more

/-- The values of a list that may be absent. -/
def readOptional {α : Type} (read : String → Except BuildError α) :
    Option (List String) → Except BuildError (Option (List α))
  | none => .ok none
  | some names => (readAll read names).map some

end AxisNames

end BuildPlan
