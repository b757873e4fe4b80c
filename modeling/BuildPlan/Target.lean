import BuildPlan.Target.Flag

/-!
# Targets

A target is one concrete build variant: a value on each of six axes. Its key joins the names of the values, so that two
targets whose names hold no `-` have the same key only if they are the same target.
-/

namespace BuildPlan

/-- What the program is built for. A platform that has no constructor is kept by name. -/
inductive Platform
  | win32
  | win64
  | linux
  | macos
  | android
  | ios
  | custom (name : String)
  deriving DecidableEq

namespace Platform

/-- The name in keys and declarations. -/
def name : Platform → String
  | win32 => "win32"
  | win64 => "win64"
  | linux => "linux"
  | macos => "macos"
  | android => "android"
  | ios => "ios"
  | custom n => n

/-- The platform of a name, whatever its case; a name that is not built in is kept as it is written. -/
def ofName (s : String) : Platform :=
  match Text.lower s with
  | "win32" => win32
  | "win64" => win64
  | "linux" => linux
  | "macos" => macos
  | "android" => android
  | "ios" => ios
  | _ => custom s

end Platform

/-- The toolchain or development environment. One that has no constructor is kept by name. -/
inductive DevEnv
  | vs2019
  | vs2022
  | make
  | xcode
  | custom (name : String)
  deriving DecidableEq

namespace DevEnv

/-- The name in keys and declarations. -/
def name : DevEnv → String
  | vs2019 => "vs2019"
  | vs2022 => "vs2022"
  | make => "make"
  | xcode => "xcode"
  | custom n => n

/-- The environment of a name, whatever its case; a name that is not built in is kept as it is written. -/
def ofName (s : String) : DevEnv :=
  match Text.lower s with
  | "vs2019" => vs2019
  | "vs2022" => vs2022
  | "make" => make
  | "xcode" => xcode
  | _ => custom s

end DevEnv

/-- How far the compiler optimizes. -/
inductive Optimization
  | debug
  | release
  | retail
  deriving DecidableEq

namespace Optimization

/-- The name in keys and declarations. -/
def name : Optimization → String
  | debug => "debug"
  | release => "release"
  | retail => "retail"

/-- The name with a capital. -/
def title : Optimization → String
  | debug => "Debug"
  | release => "Release"
  | retail => "Retail"

/-- The bit in a set. -/
def index : Optimization → Nat
  | debug => 0
  | release => 1
  | retail => 2

instance : Flag Optimization where
  all := [debug, release, retail]
  axis := .optimization
  index := index
  name := name
  mem_all a := by cases a <;> decide
  sorted_all := by decide
  index_lt a := by cases a <;> decide

end Optimization

/-- The artifact a project produces: a static library, a dynamic one, or a program. -/
inductive OutputKind
  | lib
  | dll
  | exe
  deriving DecidableEq

namespace OutputKind

/-- The name in keys and declarations. -/
def name : OutputKind → String
  | lib => "lib"
  | dll => "dll"
  | exe => "exe"

/-- Every output kind. -/
def all : List OutputKind := [lib, dll, exe]

end OutputKind

/-- How the built program is launched. -/
inductive LaunchMode
  | editor
  | client
  | server
  deriving DecidableEq

namespace LaunchMode

/-- The name in keys and declarations. -/
def name : LaunchMode → String
  | editor => "editor"
  | client => "client"
  | server => "server"

/-- The name with a capital. -/
def title : LaunchMode → String
  | editor => "Editor"
  | client => "Client"
  | server => "Server"

/-- The bit in a set. -/
def index : LaunchMode → Nat
  | editor => 0
  | client => 1
  | server => 2

instance : Flag LaunchMode where
  all := [editor, client, server]
  axis := .launchMode
  index := index
  name := name
  mem_all a := by cases a <;> decide
  sorted_all := by decide
  index_lt a := by cases a <;> decide

end LaunchMode

/-- The build system a plan is made for. -/
inductive BuildSystem
  | msBuild
  | fastBuild
  | make
  | ninja
  deriving DecidableEq

namespace BuildSystem

/-- The name in keys and declarations. -/
def name : BuildSystem → String
  | msBuild => "msbuild"
  | fastBuild => "fastbuild"
  | make => "make"
  | ninja => "ninja"

/-- Every build system. -/
def all : List BuildSystem := [msBuild, fastBuild, make, ninja]

end BuildSystem

/-- One concrete build variant. Two targets are the same when they agree on every axis. -/
structure Target where
  platform : Platform := .win64
  devEnv : DevEnv := .vs2022
  optimization : Optimization := .debug
  outputKind : OutputKind := .lib
  launchMode : LaunchMode := .editor
  buildSystem : BuildSystem := .fastBuild
  deriving DecidableEq

namespace Target

instance : Inhabited Target := ⟨{}⟩

/-- The key of a target, such as `win64-vs2022-debug-lib-editor-fastbuild`. -/
def key (t : Target) : String :=
  t.platform.name ++ "-" ++ t.devEnv.name ++ "-" ++ t.optimization.name ++ "-" ++ t.outputKind.name ++ "-" ++
    t.launchMode.name ++ "-" ++ t.buildSystem.name

/-- The name of the build configuration, such as `Debug_Editor`. -/
def configurationName (t : Target) : String := t.optimization.title ++ "_" ++ t.launchMode.title

end Target

end BuildPlan
