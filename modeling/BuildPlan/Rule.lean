import BuildPlan.Configuration

/-!
# Rules

A rule writes some settings for the targets that its filter admits. What it writes may depend on what it reads: the
context, the project, the target and the configuration it finds. Rules are grouped in rule sets; a rule set may name
another one as its base, whose rules are applied before its own.
-/

namespace BuildPlan

/-- The paths and variables of a solution, for the tokens in settings. -/
structure PlanContext where
  solutionRoot : String
  intermediateRoot : String
  outputRoot : String
  /-- The values of `%NAME%`. -/
  substitutions : Keyed String := ∅
  deriving DecidableEq

namespace PlanContext

/-- The context of a solution root, with the two other roots beneath it. -/
def ofRoot (root : String) : PlanContext where
  solutionRoot := root
  intermediateRoot := root ++ "/Intermediate"
  outputRoot := root ++ "/Binaries"

instance : Inhabited PlanContext := ⟨ofRoot "."⟩

end PlanContext

/-- What a rule can read besides the configuration. -/
structure RuleContext where
  plan : PlanContext
  project : Project
  target : Target

/-- What a rule writes, from what it reads: the context and the configuration at the start of the rule. A rule acts by its
writes only; one that puts another configuration in place of the whole is left out. -/
structure Merge where
  run : RuleContext → Configuration → List Write

/-- The same settings whatever is read. -/
def Merge.always (ws : List Write) : Merge := ⟨fun _ _ => ws⟩

instance : Coe (List Write) Merge := ⟨Merge.always⟩

/-- A rule: what it writes, and for which targets. -/
structure Rule where
  name : String
  filter : TargetPredicate := {}
  /-- Only rules of equal priority can be in conflict. -/
  priority : Int := 0
  writes : Merge := .always []

/-- Whether a rule holds for a target. -/
def Rule.appliesTo (r : Rule) (t : Target) : Bool := r.filter.admits t

/-- Rules in order, with the rule set they build on. -/
structure RuleSet where
  id : String
  base : Option String := none
  rules : List Rule := []

instance : Named RuleSet := ⟨RuleSet.id⟩

/-- The rules of a set that hold for a target, in order. -/
def RuleSet.applying (s : RuleSet) (t : Target) : List Rule := s.rules.filter (fun r => r.appliesTo t)

end BuildPlan
