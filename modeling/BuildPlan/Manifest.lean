import BuildPlan.Axes.Names
import BuildPlan.Define
import BuildPlan.LoadError
import BuildPlan.Project
import BuildPlan.Text.Name

/-!
# Manifests

A manifest declares axis presets, rule sets, projects and solutions, and may include other files, its fragments. The
manifest that is loaded first may also have a table for the workspace; fragments may not. Names of axis values stay texts
here: they get their meaning when the declarations are registered (`Manifest.Registration`).

Checking a manifest looks at one file alone; merging puts the entries of a fragment after those that are there.
-/

namespace BuildPlan

/-- What the ending of the name of a fragment in an included directory is. -/
def fragmentEnding : String := ".trellis.toml"

namespace Manifest

/-- The table of the workspace. -/
structure WorkspaceEntry where
  name : Option String := none
  solutionRoot : Option String := none
  intermediateRoot : Option String := none
  outputRoot : Option String := none
  strict : Option Bool := none
  /-- The values of `%NAME%`. -/
  substitutions : Keyed String := ∅
  deriving DecidableEq

/-- Axes, by the name of a preset or written out. -/
inductive AxesEntry
  | preset (name : String)
  | inline (axes : AxisNames)
  deriving DecidableEq

/-- A rule with all that it writes. -/
structure RuleEntry where
  name : String
  filter : Option AxisNames := none
  priority : Int := 0
  includePaths : List String := []
  privateIncludePaths : List String := []
  defines : List String := []
  exportDefines : List String := []
  libraryPaths : List String := []
  libraryFiles : List String := []
  compilerOptions : List String := []
  properties : Keyed String := ∅
  outputKind : Option String := none
  outputPath : Option String := none
  intermediatePath : Option String := none
  targetFileName : Option String := none
  publicDependencies : List String := []
  privateDependencies : List String := []
  deriving DecidableEq

/-- A rule set. -/
structure RuleSetEntry where
  id : String
  base : Option String := none
  rules : List RuleEntry := []
  /-- The file it is declared in. -/
  origin : Option String := none
  deriving DecidableEq

/-- A dependency that exists for some targets only. -/
structure EdgeEntry where
  project : String
  visibility : Visibility := .pub
  filter : Option AxisNames := none
  deriving DecidableEq

/-- A project. -/
structure ProjectEntry where
  name : String
  sourceRoot : Option String := none
  kind : ProjectKind := .generate
  ruleSet : Option String := none
  axes : Option AxesEntry := none
  /-- Whether it takes the place of an earlier project of its name. -/
  replace : Bool := false
  publicDependencies : List String := []
  privateDependencies : List String := []
  edges : List EdgeEntry := []
  rules : List RuleEntry := []
  /-- The file it is declared in. -/
  origin : Option String := none
  deriving DecidableEq

/-- A solution. -/
structure SolutionEntry where
  name : String
  projects : List String := []
  startupProject : Option String := none
  axes : Option AxesEntry := none
  /-- The file it is declared in. -/
  origin : Option String := none
  deriving DecidableEq

end Manifest

/-- The declarations of a file. -/
structure Manifest where
  /-- Files and directories whose declarations are added, seen from the file's directory. -/
  includes : List String := []
  workspace : Option Manifest.WorkspaceEntry := none
  /-- The axis presets. -/
  presets : Keyed AxisNames := ∅
  ruleSets : List Manifest.RuleSetEntry := []
  projects : List Manifest.ProjectEntry := []
  solutions : List Manifest.SolutionEntry := []
  deriving DecidableEq

namespace Manifest

/-- The name of the workspace. -/
def name (m : Manifest) : Option String := m.workspace.bind WorkspaceEntry.name

/-- Whether conflicts are errors, if the manifest says so. -/
def strict (m : Manifest) : Option Bool := m.workspace.bind WorkspaceEntry.strict

/-- The manifest with the file that its entries come from. -/
def withOrigin (m : Manifest) (file : String) : Manifest :=
  { m with
    ruleSets := m.ruleSets.map (fun r => { r with origin := some file })
    projects := m.projects.map (fun p => { p with origin := some file })
    solutions := m.solutions.map (fun s => { s with origin := some file }) }

/-- The axes of an entry; a preset that is not declared is an error. -/
def resolveAxes (m : Manifest) : AxesEntry → Except LoadError AxisNames
  | .inline axes => .ok axes
  | .preset name =>
    match m.presets.lookup name with
    | some axes => .ok axes
    | none => .error (.invalidValue "axes" (.unknownPreset name))

/-! ### Checks -/

/-- Whether a define has no name: there are only blanks before its first `=`, or in all of it if it has none. -/
def isUnnamed (define : String) : Bool := Text.isBlankText (Text.before "=" define)

/-- A rule must have a name and its defines must have one. -/
def checkRule (owner : String) (r : RuleEntry) : Except LoadError Unit :=
  if Text.isBlankText r.name then .error (.invalidValue (owner ++ " rule.name") .emptyName)
  else
    match (r.defines ++ r.exportDefines).find? isUnnamed with
    | some d => .error (.invalidValue (owner ++ " rule '" ++ r.name ++ "' defines") (.unnamedDefine d))
    | none => .ok ()

/-- The rules of an owner are checked in order. -/
def checkRules (owner : String) : List RuleEntry → Except LoadError Unit
  | [] => .ok ()
  | r :: rest => do
    checkRule owner r
    checkRules owner rest

/-- A project must have a name and its rules must be sound. -/
def checkProject (p : ProjectEntry) : Except LoadError Unit :=
  if Text.isBlankText p.name then .error (.invalidValue "project.name" .emptyName)
  else checkRules ("project '" ++ p.name ++ "'") p.rules

/-- A rule set must have an id and its rules must be sound. -/
def checkRuleSet (r : RuleSetEntry) : Except LoadError Unit :=
  if Text.isBlankText r.id then .error (.invalidValue "rule_set.id" .emptyId)
  else checkRules ("rule set '" ++ r.id ++ "'") r.rules

/-- The startup project of a solution must be a member. -/
def checkSolution (s : SolutionEntry) : Except LoadError Unit :=
  match s.startupProject with
  | none => .ok ()
  | some p =>
    if s.projects.contains p then .ok ()
    else .error (.invalidValue ("solution '" ++ s.name ++ "'.startup_project") (.notMember p))

/-- The first fault in a list of entries. -/
def checkEach {α : Type} (check : α → Except LoadError Unit) : List α → Except LoadError Unit
  | [] => .ok ()
  | a :: rest => do
    check a
    checkEach check rest

/-- Checks the names and the startup projects of a manifest. -/
def validate (m : Manifest) : Except LoadError Unit := do
  checkEach checkProject m.projects
  checkEach checkRuleSet m.ruleSets
  checkEach checkSolution m.solutions

/-! ### Fragments -/

/-- The presets with those of a fragment after them. A name that is taken is an error; the presets before it are kept. -/
def mergePresets (file : String) (presets : Keyed AxisNames) :
    List (String × AxisNames) → Option LoadError × Keyed AxisNames
  | [] => (none, presets)
  | (name, axes) :: rest =>
    if presets.contains name then (some (.presetTwice name file), presets)
    else mergePresets file (presets.set name axes) rest

/-- The manifest with the entries of a fragment after its own, or the fault of the fragment with what was merged of it. -/
def merge (m fragment : Manifest) (file : String) : Option LoadError × Manifest :=
  if fragment.workspace.isSome then (some (.workspaceInFragment file), m)
  else
    match mergePresets file m.presets fragment.presets.items with
    | (some e, presets) => (some e, { m with presets })
    | (none, presets) =>
      (none,
        { m with
          presets
          ruleSets := m.ruleSets ++ fragment.ruleSets
          projects := m.projects ++ fragment.projects
          solutions := m.solutions ++ fragment.solutions })

end Manifest

end BuildPlan
