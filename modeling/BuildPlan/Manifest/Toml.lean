import BuildPlan.Manifest
import BuildPlan.Toml.Document
import BuildPlan.Toml.Record

/-!
# Manifests in TOML

A manifest is a TOML text. Every table in it is a record that refuses entries that it does not know.
-/

namespace BuildPlan

/-- The fields of the names of axis values in order. -/
def AxisNames.fieldNames : List String :=
  ["platforms", "dev_envs", "optimizations", "output_kinds", "launch_modes", "build_systems"]

/-- The names of axis values of a record. -/
def AxisNames.ofToml? (v : Toml) : Option AxisNames := do
  match ← Toml.fields? (AxisNames.fieldNames.map (·, .optionalByName)) v with
  | [platforms, devEnvs, optimizations, outputKinds, launchModes, buildSystems] =>
    return {
      platforms := ← Toml.optional? Toml.strings? platforms
      devEnvs := ← Toml.optional? Toml.strings? devEnvs
      optimizations := ← Toml.optional? Toml.strings? optimizations
      outputKinds := ← Toml.optional? Toml.strings? outputKinds
      launchModes := ← Toml.optional? Toml.strings? launchModes
      buildSystems := ← Toml.optional? Toml.strings? buildSystems }
  | _ => none

namespace Manifest

/-- The table of the workspace of a record. -/
def WorkspaceEntry.ofToml? (v : Toml) : Option WorkspaceEntry := do
  match ← Toml.fields? [("name", .optionalByName), ("solution_root", .optionalByName),
      ("intermediate_root", .optionalByName), ("output_root", .optionalByName), ("strict", .optionalByName),
      ("variables", .optional)] v with
  | [name, solutionRoot, intermediateRoot, outputRoot, strict, substitutions] =>
    return {
      name := ← Toml.optional? Toml.str? name
      solutionRoot := ← Toml.optional? Toml.str? solutionRoot
      intermediateRoot := ← Toml.optional? Toml.str? intermediateRoot
      outputRoot := ← Toml.optional? Toml.str? outputRoot
      strict := ← Toml.optional? Toml.bool? strict
      substitutions := ← Toml.fieldOr? ∅ (Toml.keyed? Toml.str?) substitutions }
  | _ => none

/-- The axes of an entry: the name of a preset, or a record. An array must not be longer than the record. -/
def AxesEntry.ofToml? : Toml → Option AxesEntry
  | .str s => some (.preset s)
  | .arr items => if items.length ≤ 6 then (AxisNames.ofToml? (.arr items)).map .inline else none
  | v => (AxisNames.ofToml? v).map .inline

/-- The fields of a rule in order. -/
def RuleEntry.fieldNames : List (String × Toml.Presence) := [
  ("name", .required), ("when", .optional), ("priority", .optional), ("include_paths", .optional),
  ("private_include_paths", .optional), ("defines", .optional), ("export_defines", .optional),
  ("library_paths", .optional), ("library_files", .optional), ("compiler_options", .optional), ("properties", .optional),
  ("output_kind", .optionalByName), ("output_path", .optionalByName), ("intermediate_path", .optionalByName),
  ("target_file_name", .optionalByName), ("public_dependencies", .optional), ("private_dependencies", .optional)]

/-- The rule of a record. -/
def RuleEntry.ofToml? (v : Toml) : Option RuleEntry := do
  match ← Toml.fields? RuleEntry.fieldNames v with
  | [some name, filter, priority, includePaths, privateIncludePaths, defines, exportDefines, libraryPaths, libraryFiles,
      compilerOptions, properties, outputKind, outputPath, intermediatePath, targetFileName, publicDependencies,
      privateDependencies] =>
    return {
      name := ← name.str?
      filter := ← Toml.optional? AxisNames.ofToml? filter
      priority := ← Toml.fieldOr? 0 (Toml.intIn? Int32.minValue.toInt Int32.maxValue.toInt) priority
      includePaths := ← Toml.fieldOr? [] Toml.strings? includePaths
      privateIncludePaths := ← Toml.fieldOr? [] Toml.strings? privateIncludePaths
      defines := ← Toml.fieldOr? [] Toml.strings? defines
      exportDefines := ← Toml.fieldOr? [] Toml.strings? exportDefines
      libraryPaths := ← Toml.fieldOr? [] Toml.strings? libraryPaths
      libraryFiles := ← Toml.fieldOr? [] Toml.strings? libraryFiles
      compilerOptions := ← Toml.fieldOr? [] Toml.strings? compilerOptions
      properties := ← Toml.fieldOr? ∅ (Toml.keyed? Toml.str?) properties
      outputKind := ← Toml.optional? Toml.str? outputKind
      outputPath := ← Toml.optional? Toml.str? outputPath
      intermediatePath := ← Toml.optional? Toml.str? intermediatePath
      targetFileName := ← Toml.optional? Toml.str? targetFileName
      publicDependencies := ← Toml.fieldOr? [] Toml.strings? publicDependencies
      privateDependencies := ← Toml.fieldOr? [] Toml.strings? privateDependencies }
  | _ => none

/-- The rule set of a record. -/
def RuleSetEntry.ofToml? (v : Toml) : Option RuleSetEntry := do
  match ← Toml.fields? [("id", .required), ("base", .optionalByName), ("rule", .optional)] v with
  | [some id, base, rules] =>
    return {
      id := ← id.str?
      base := ← Toml.optional? Toml.str? base
      rules := ← Toml.fieldOr? [] (Toml.list? RuleEntry.ofToml?) rules }
  | _ => none

/-- The dependency of a record. -/
def EdgeEntry.ofToml? (v : Toml) : Option EdgeEntry := do
  match ← Toml.fields? [("project", .required), ("visibility", .optional), ("when", .optionalByName)] v with
  | [some project, visibility, filter] =>
    return {
      project := ← project.str?
      visibility := ← Toml.fieldOr? .pub (Toml.variant? [Visibility.pub, Visibility.priv] Visibility.name) visibility
      filter := ← Toml.optional? AxisNames.ofToml? filter }
  | _ => none

/-- The fields of a project in order. -/
def ProjectEntry.fieldNames : List (String × Toml.Presence) := [
  ("name", .required), ("source_root", .optionalByName), ("kind", .optional), ("rule_set", .optionalByName),
  ("axes", .optionalByName), ("replace", .optional), ("public_dependencies", .optional),
  ("private_dependencies", .optional), ("dependency", .optional), ("rule", .optional)]

/-- The project of a record. -/
def ProjectEntry.ofToml? (v : Toml) : Option ProjectEntry := do
  match ← Toml.fields? ProjectEntry.fieldNames v with
  | [some name, sourceRoot, kind, ruleSet, axes, replace, publicDependencies, privateDependencies, edges, rules] =>
    return {
      name := ← name.str?
      sourceRoot := ← Toml.optional? Toml.str? sourceRoot
      kind :=
        ← Toml.fieldOr? .generate (Toml.variant? [ProjectKind.generate, ProjectKind.exported] ProjectKind.name) kind
      ruleSet := ← Toml.optional? Toml.str? ruleSet
      axes := ← Toml.optional? AxesEntry.ofToml? axes
      replace := ← Toml.fieldOr? false Toml.bool? replace
      publicDependencies := ← Toml.fieldOr? [] Toml.strings? publicDependencies
      privateDependencies := ← Toml.fieldOr? [] Toml.strings? privateDependencies
      edges := ← Toml.fieldOr? [] (Toml.list? EdgeEntry.ofToml?) edges
      rules := ← Toml.fieldOr? [] (Toml.list? RuleEntry.ofToml?) rules }
  | _ => none

/-- The solution of a record. -/
def SolutionEntry.ofToml? (v : Toml) : Option SolutionEntry := do
  match ← Toml.fields? [("name", .required), ("projects", .optional), ("startup_project", .optionalByName),
      ("axes", .optionalByName)] v with
  | [some name, projects, startupProject, axes] =>
    return {
      name := ← name.str?
      projects := ← Toml.fieldOr? [] Toml.strings? projects
      startupProject := ← Toml.optional? Toml.str? startupProject
      axes := ← Toml.optional? AxesEntry.ofToml? axes }
  | _ => none

/-- The manifest of a record. -/
def ofToml? (v : Toml) : Option Manifest := do
  match ← Toml.fields? [("include", .optional), ("workspace", .optionalByName), ("axes", .optional),
      ("rule_set", .optional), ("project", .optional), ("solution", .optional)] v with
  | [includes, workspace, presets, ruleSets, projects, solutions] =>
    return {
      includes := ← Toml.fieldOr? [] Toml.strings? includes
      workspace := ← Toml.optional? WorkspaceEntry.ofToml? workspace
      presets := ← Toml.fieldOr? ∅ (Toml.keyed? AxisNames.ofToml?) presets
      ruleSets := ← Toml.fieldOr? [] (Toml.list? RuleSetEntry.ofToml?) ruleSets
      projects := ← Toml.fieldOr? [] (Toml.list? ProjectEntry.ofToml?) projects
      solutions := ← Toml.fieldOr? [] (Toml.list? SolutionEntry.ofToml?) solutions }
  | _ => none

/-- The sound manifest of a text; `file` is where the text comes from. -/
def ofText (file text : String) : Except LoadError Manifest :=
  match (Toml.ofText? text).bind ofToml? with
  | none => .error (.malformed file)
  | some m => m.validate.map (fun _ => m)

end Manifest

end BuildPlan
