import BuildPlan.Descriptor
import BuildPlan.Token
import BuildPlan.Workspace

/-!
# Local configurations

The configuration of one project on one target before anything is inherited: the rules of its chain that hold for the
target are applied in order, the base rule sets first, and then the tokens are replaced and the paths that no rule has
set are filled in. A project to which no rule applies keeps the empty configuration.
-/

namespace BuildPlan

/-- The place of a rule in the chain, with what it writes to the configuration it finds. -/
abbrev AppliedRule := Provenance × (Configuration → List Write)

namespace Configuration

/-- The configuration after one rule. -/
def applyRule (c : Configuration) (a : AppliedRule) : Configuration :=
  ((c.beginRule a.1).writeAll (a.2 (c.beginRule a.1))).endRule

/-- The configuration after some rules. -/
def applyRules (c : Configuration) (rules : List AppliedRule) : Configuration := rules.foldl applyRule c

/-- For each of some rules, its label and the configurations before, between and after its writes. -/
def ruleHistories (c : Configuration) : List AppliedRule → List (String × List Configuration)
  | [] => []
  | a :: rest => (a.1.label, (c.beginRule a.1).history (a.2 (c.beginRule a.1))) :: ruleHistories (c.applyRule a) rest

end Configuration

/-- What a project's own rules make of a target. -/
structure LocalConfiguration where
  kind : ProjectKind
  /-- Whether any rule set of the chain has a rule, whether or not it applies. -/
  hasRules : Bool
  settings : Configuration

namespace LocalConfiguration

/-- Whether the project has a variant for the target: some rule applied, or there is none to apply. -/
def hasVariant (l : LocalConfiguration) : Bool := !l.hasRules || !l.settings.appliedRules.isEmpty

/-- What the project exports on its own account. -/
def ownExports (l : LocalConfiguration) : ExportedSettings where
  includePaths := l.settings.includePaths
  defines := l.settings.exportDefines
  libraryPaths := l.settings.libraryPaths
  libraryFiles := l.settings.libraryFiles

end LocalConfiguration

namespace Workspace

/-- The rules of a project's chain that hold for a target, in the order in which they are applied. -/
def appliedRules (w : Workspace) (p : Project) (t : Target) : List AppliedRule :=
  (w.chainOf p).flatMap fun s =>
    (s.applying t).map fun r => (⟨s.id, r.name, r.priority⟩, r.writes.run ⟨w.context, p, t⟩)

/-- The configuration that the chain of a project gives, with the tokens as they are written. -/
def chainConfiguration (w : Workspace) (p : Project) (t : Target) : Configuration :=
  (Configuration.initial p.name t).applyRules (w.appliedRules p t)

/-- The symbol that is defined for the build configuration of a target. -/
def configurationSymbol (t : Target) : String := "TRELLIS_CONFIGURATION_" ++ Text.upperAscii t.configurationName

/-- Replaces the tokens, defines the symbol of the build configuration and settles the paths. -/
def complete (w : Workspace) (p : Project) (t : Target) (c : Configuration) : Configuration :=
  let expanded := c.mapStrings (TokenValues.ofProject w.context p t).expand
  let defined := expanded.write (.define (configurationSymbol t))
  match p.kind with
  | .generate =>
    defined.fillPaths (w.context.outputRoot ++ "/" ++ t.configurationName)
      (w.context.intermediateRoot ++ "/" ++ t.configurationName ++ "/" ++ p.name)
  | .exported => defined.clearPaths

/-- The local configuration of a project, conflicts or not. -/
def localConfiguration (w : Workspace) (p : Project) (t : Target) : LocalConfiguration :=
  let c := w.chainConfiguration p t
  { kind := p.kind
    hasRules := (w.chainOf p).any (fun s => !s.rules.isEmpty)
    settings := if c.appliedRules.isEmpty then c else w.complete p t c }

/-- The local configuration of a project. In strict mode the first conflict of its rules is an error. -/
def compileLocal (w : Workspace) (strict : Bool) (p : Project) (t : Target) : Except BuildError LocalConfiguration :=
  match strict, (w.chainConfiguration p t).conflicts with
  | true, conflict :: _ => .error (.scalarConflict p.name conflict)
  | _, _ => .ok (w.localConfiguration p t)

end Workspace

end BuildPlan
