import BuildPlan.Axes
import BuildPlan.Axes.Predicate

/-!
# Projects

The things that a workspace declares besides rules: projects, the dependency edges between them and the solutions that
plan some of them together.
-/

namespace BuildPlan

/-- Whether the settings that a dependency exports go on to the consumers of the dependent. -/
inductive Visibility
  /-- They go on. -/
  | pub
  /-- They stay with the dependent. -/
  | priv
  deriving DecidableEq

namespace Visibility

/-- The name in texts. -/
def name : Visibility → String
  | pub => "public"
  | priv => "private"

/-- The visibility of an edge declared twice: one public declaration makes it public. -/
def union : Visibility → Visibility → Visibility
  | priv, priv => priv
  | _, _ => pub

end Visibility

/-- Whether a project is compiled, or only hands on the settings of a package built elsewhere. -/
inductive ProjectKind
  | generate
  | exported
  deriving DecidableEq

/-- The name in texts. -/
def ProjectKind.name : ProjectKind → String
  | generate => "generate"
  | exported => "export"

/-- A named unit of compilation. -/
structure Project where
  name : String
  sourceRoot : String
  kind : ProjectKind := .generate
  /-- The most derived rule set of the project. -/
  ruleSet : Option String := none
  axes : TargetAxes := {}
  /-- The file the project is declared in. -/
  origin : Option String := none

instance : Named Project := ⟨Project.name⟩

namespace Project

/-- Whether the project is built for a target. -/
def supports (p : Project) (t : Target) : Bool := p.axes.contains t

/-- The targets the project is built for. -/
def targets (p : Project) : Except BuildError (List Target) := p.axes.expand

end Project

/-- A registered dependency of `source` on `dependency`, for the targets that the filter admits. -/
structure DependencyEdge where
  source : String
  dependency : String
  visibility : Visibility := .pub
  filter : TargetPredicate := {}
  deriving DecidableEq

/-- Projects that are planned together. -/
structure Solution where
  name : String
  projects : List String := []
  startupProject : Option String := none
  axes : TargetAxes := {}

instance : Named Solution := ⟨Solution.name⟩

/-- The solution with one more member, unless it is one already. -/
def Solution.withProject (s : Solution) (project : String) : Solution :=
  { s with projects := addNew s.projects project }

end BuildPlan
