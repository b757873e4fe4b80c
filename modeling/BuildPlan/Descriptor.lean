import BuildPlan.Configuration

/-!
# Descriptors

A descriptor holds the settings of one project on one target as the build executor gets them. Its exports are what the
consumers of the project inherit.
-/

namespace BuildPlan

/-- Settings that a project hands to its consumers. -/
structure ExportedSettings where
  includePaths : List String := []
  defines : Defines := ∅
  libraryPaths : List String := []
  libraryFiles : List String := []
  deriving DecidableEq

namespace ExportedSettings

/-- Whether nothing is exported. -/
def isEmpty (e : ExportedSettings) : Bool :=
  e.includePaths.isEmpty && e.defines.isEmpty && e.libraryPaths.isEmpty && e.libraryFiles.isEmpty

/-- The settings with those of another project added after them. A value that is there already keeps its place, a define
also its value. -/
def absorb (e more : ExportedSettings) : ExportedSettings where
  includePaths := addAll e.includePaths more.includePaths
  defines := more.defines.items.foldl Catalog.putNew e.defines
  libraryPaths := addAll e.libraryPaths more.libraryPaths
  libraryFiles := addAll e.libraryFiles more.libraryFiles

/-- The settings of several projects, one after the other. -/
def absorbAll (parts : List ExportedSettings) : ExportedSettings := parts.foldl absorb {}

end ExportedSettings

/-- The settings of one project on one target. -/
structure Descriptor where
  project : String
  /-- The key of the target. -/
  target : String
  /-- The name of the build configuration. -/
  configuration : String
  kind : ProjectKind
  outputKind : OutputKind
  outputPath : Option String := none
  intermediatePath : Option String := none
  targetFileName : Option String := none
  includePaths : List String
  defines : Defines
  libraryPaths : List String
  libraryFiles : List String
  compilerOptions : List String
  properties : Keyed String
  /-- The direct and transitive dependencies in dependency order. -/
  dependencies : List String
  exports : ExportedSettings
  /-- The labels of the applied rules in order. -/
  appliedRules : List String
  deriving DecidableEq

namespace Descriptor

/-- Whether no rule was applied. -/
def isDefault (d : Descriptor) : Bool := d.appliedRules.isEmpty

/-- Whether a project is among the dependencies. -/
def dependsOn (d : Descriptor) (project : String) : Bool := d.dependencies.contains project

end Descriptor

end BuildPlan
