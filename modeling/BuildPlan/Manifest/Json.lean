import BuildPlan.Json.Record
import BuildPlan.Manifest

/-!
# Manifests in JSON

A manifest as one JSON object, with the fields in a fixed order. What is absent or empty is left out, but the members of a
solution and the kind, the replacement flag, the visibility and the priority of an entry are always written.
-/

namespace BuildPlan

/-- The members of an object: fields with their values, of which absent ones are left out. -/
def presentMembers (fields : List (String × Option Json)) : List (String × Json) :=
  fields.filterMap (fun f => f.2.map (f.1, ·))

/-- A list, unless it is empty. -/
def nonEmptyList {α : Type} (write : α → Json) : List α → Option Json
  | [] => none
  | items => some (.arr (items.map write))

/-- A list of texts, unless it is empty. -/
def nonEmptyStrings (texts : List String) : Option Json := nonEmptyList .str texts

/-- The values of keys as an object, unless there is none. -/
def nonEmptyKeyed {β : Type} (write : β → Json) (entries : Keyed β) : Option Json :=
  if entries.isEmpty then none else some (.obj (entries.items.map (fun e => (e.1, write e.2))))

/-- The record of the names of axis values. -/
def AxisNames.toJson (a : AxisNames) : Json :=
  .obj (presentMembers [
    ("platforms", a.platforms.map Json.ofStrings), ("dev_envs", a.devEnvs.map Json.ofStrings),
    ("optimizations", a.optimizations.map Json.ofStrings), ("output_kinds", a.outputKinds.map Json.ofStrings),
    ("launch_modes", a.launchModes.map Json.ofStrings), ("build_systems", a.buildSystems.map Json.ofStrings)])

namespace Manifest

/-- The record of the table of the workspace. -/
def WorkspaceEntry.toJson (w : WorkspaceEntry) : Json :=
  .obj (presentMembers [
    ("name", w.name.map .str), ("solution_root", w.solutionRoot.map .str),
    ("intermediate_root", w.intermediateRoot.map .str), ("output_root", w.outputRoot.map .str),
    ("strict", w.strict.map .bool), ("variables", nonEmptyKeyed .str w.substitutions)])

/-- The name of a preset, or the record of axes. -/
def AxesEntry.toJson : AxesEntry → Json
  | preset name => .str name
  | inline axes => axes.toJson

/-- The record of a rule. -/
def RuleEntry.toJson (r : RuleEntry) : Json :=
  .obj (presentMembers [
    ("name", some (.str r.name)), ("when", r.filter.map AxisNames.toJson), ("priority", some (.int r.priority)),
    ("include_paths", nonEmptyStrings r.includePaths), ("private_include_paths", nonEmptyStrings r.privateIncludePaths),
    ("defines", nonEmptyStrings r.defines), ("export_defines", nonEmptyStrings r.exportDefines),
    ("library_paths", nonEmptyStrings r.libraryPaths), ("library_files", nonEmptyStrings r.libraryFiles),
    ("compiler_options", nonEmptyStrings r.compilerOptions), ("properties", nonEmptyKeyed .str r.properties),
    ("output_kind", r.outputKind.map .str), ("output_path", r.outputPath.map .str),
    ("intermediate_path", r.intermediatePath.map .str), ("target_file_name", r.targetFileName.map .str),
    ("public_dependencies", nonEmptyStrings r.publicDependencies),
    ("private_dependencies", nonEmptyStrings r.privateDependencies)])

/-- The record of a rule set. -/
def RuleSetEntry.toJson (s : RuleSetEntry) : Json :=
  .obj (presentMembers [
    ("id", some (.str s.id)), ("base", s.base.map .str), ("rule", nonEmptyList RuleEntry.toJson s.rules)])

/-- The record of a dependency. -/
def EdgeEntry.toJson (e : EdgeEntry) : Json :=
  .obj (presentMembers [
    ("project", some (.str e.project)), ("visibility", some (.str e.visibility.name)),
    ("when", e.filter.map AxisNames.toJson)])

/-- The record of a project. -/
def ProjectEntry.toJson (p : ProjectEntry) : Json :=
  .obj (presentMembers [
    ("name", some (.str p.name)), ("source_root", p.sourceRoot.map .str), ("kind", some (.str p.kind.name)),
    ("rule_set", p.ruleSet.map .str), ("axes", p.axes.map AxesEntry.toJson), ("replace", some (.bool p.replace)),
    ("public_dependencies", nonEmptyStrings p.publicDependencies),
    ("private_dependencies", nonEmptyStrings p.privateDependencies),
    ("dependency", nonEmptyList EdgeEntry.toJson p.edges), ("rule", nonEmptyList RuleEntry.toJson p.rules)])

/-- The record of a solution. -/
def SolutionEntry.toJson (s : SolutionEntry) : Json :=
  .obj (presentMembers [
    ("name", some (.str s.name)), ("projects", some (Json.ofStrings s.projects)),
    ("startup_project", s.startupProject.map .str), ("axes", s.axes.map AxesEntry.toJson)])

/-- The record of a manifest. -/
def toJson (m : Manifest) : Json :=
  .obj (presentMembers [
    ("include", nonEmptyStrings m.includes), ("workspace", m.workspace.map WorkspaceEntry.toJson),
    ("axes", nonEmptyKeyed AxisNames.toJson m.presets), ("rule_set", nonEmptyList RuleSetEntry.toJson m.ruleSets),
    ("project", nonEmptyList ProjectEntry.toJson m.projects),
    ("solution", nonEmptyList SolutionEntry.toJson m.solutions)])

end Manifest

end BuildPlan
