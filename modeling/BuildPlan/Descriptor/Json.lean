import BuildPlan.Descriptor
import BuildPlan.Json.Record
import BuildPlan.Target.Json

/-!
# Descriptors in JSON

A descriptor is a record. Its defines and properties are objects with the symbols and keys as members, in their order; the
value of a bare define is null. A path or file name that is not set is left out.
-/

namespace BuildPlan

/-- Defines as an object. -/
def Defines.toJson (d : Defines) : Json := .obj (d.items.map (fun e => (e.1, Json.ofOption e.2)))

/-- The defines of an object. -/
def Defines.ofJson? (j : Json) : Option Defines := Json.keyed? (Json.nullable? Json.str?) j

/-- The kind of a name. -/
def ProjectKind.ofJson? (j : Json) : Option ProjectKind :=
  Json.variant? [ProjectKind.generate, ProjectKind.exported] ProjectKind.name j

namespace ExportedSettings

/-- The record of exported settings. -/
def toJson (e : ExportedSettings) : Json :=
  .obj [
    ("include_paths", Json.ofStrings e.includePaths), ("defines", e.defines.toJson),
    ("library_paths", Json.ofStrings e.libraryPaths), ("library_files", Json.ofStrings e.libraryFiles)]

/-- The exported settings of a record. -/
def ofJson? (j : Json) : Option ExportedSettings := do
  match ← Json.required? ["include_paths", "defines", "library_paths", "library_files"] j with
  | [includePaths, defines, libraryPaths, libraryFiles] =>
    return {
      includePaths := ← Json.strings? includePaths
      defines := ← Defines.ofJson? defines
      libraryPaths := ← Json.strings? libraryPaths
      libraryFiles := ← Json.strings? libraryFiles }
  | _ => none

end ExportedSettings

namespace Descriptor

/-- The fields of a descriptor in order. -/
def fieldNames : List (String × Json.Presence) := [
  ("project", .required), ("target", .required), ("configuration", .required), ("kind", .required),
  ("output_kind", .required), ("output_path", .optional), ("intermediate_path", .optional),
  ("target_file_name", .optional), ("include_paths", .required), ("defines", .required), ("library_paths", .required),
  ("library_files", .required), ("compiler_options", .required), ("properties", .required),
  ("dependencies", .required), ("exports", .required), ("applied_rules", .required)]

/-- A text as a member of a record, if there is one. -/
def textMember (field : String) (text : Option String) : List (String × Json) :=
  (text.map (fun s => (field, Json.str s))).toList

/-- The members of the record of a descriptor. -/
def members (d : Descriptor) : List (String × Json) :=
  [("project", .str d.project), ("target", .str d.target), ("configuration", .str d.configuration),
    ("kind", .str d.kind.name), ("output_kind", .str d.outputKind.name)] ++
  textMember "output_path" d.outputPath ++ textMember "intermediate_path" d.intermediatePath ++
  textMember "target_file_name" d.targetFileName ++
  [("include_paths", Json.ofStrings d.includePaths), ("defines", d.defines.toJson),
    ("library_paths", Json.ofStrings d.libraryPaths), ("library_files", Json.ofStrings d.libraryFiles),
    ("compiler_options", Json.ofStrings d.compilerOptions),
    ("properties", .obj (d.properties.items.map (fun e => (e.1, Json.str e.2)))),
    ("dependencies", Json.ofStrings d.dependencies), ("exports", d.exports.toJson),
    ("applied_rules", Json.ofStrings d.appliedRules)]

/-- The record of a descriptor. -/
def toJson (d : Descriptor) : Json := .obj d.members

/-- The descriptor of a record. -/
def ofJson? (j : Json) : Option Descriptor := do
  match ← Json.fields? fieldNames j with
  | [some project, some target, some configuration, some kind, some outputKind, outputPath, intermediatePath,
      targetFileName, some includePaths, some defines, some libraryPaths, some libraryFiles, some compilerOptions,
      some properties, some dependencies, some exports, some appliedRules] =>
    return {
      project := ← project.str?
      target := ← target.str?
      configuration := ← configuration.str?
      kind := ← ProjectKind.ofJson? kind
      outputKind := ← OutputKind.ofJson? outputKind
      outputPath := ← Json.absentOr? Json.str? outputPath
      intermediatePath := ← Json.absentOr? Json.str? intermediatePath
      targetFileName := ← Json.absentOr? Json.str? targetFileName
      includePaths := ← Json.strings? includePaths
      defines := ← Defines.ofJson? defines
      libraryPaths := ← Json.strings? libraryPaths
      libraryFiles := ← Json.strings? libraryFiles
      compilerOptions := ← Json.strings? compilerOptions
      properties := ← Json.keyed? Json.str? properties
      dependencies := ← Json.strings? dependencies
      exports := ← ExportedSettings.ofJson? exports
      appliedRules := ← Json.strings? appliedRules }
  | _ => none

end Descriptor

end BuildPlan
