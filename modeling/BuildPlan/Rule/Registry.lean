import BuildPlan.Error
import BuildPlan.Reach
import BuildPlan.Rule

/-!
# Base chains

The chain of a rule set starts at the set without a base that its bases lead to and ends at the set itself. A registry
holds rule sets whose chains all exist: no walk along the bases meets an unknown id or comes back to a set it has met.
-/

namespace BuildPlan

namespace RuleSet

set_option linter.unusedVariables false in
/-- The walk from a rule set along its bases. `derived` are the ids met before, the latest first. The result is the chain
from the set without a base to the first id met. -/
def walk (sets : Catalog RuleSet) (derived : List String) (id : String) : Except BuildError (List String) :=
  if hd : id ∈ derived then .error (.ruleChainCycle (id :: derived))
  else
    match hs : sets.get? id with
    | none => .error (.unknownRuleSet id ((derived.head?.map RuleSetReference.ruleSet).getD .registry))
    | some set =>
      match set.base with
      | none => .ok (id :: derived)
      | some base => walk sets (id :: derived) base
termination_by (Reach.unseen sets.names derived).length
decreasing_by exact Reach.unseen_cons_lt (Catalog.mem_names_of_get? hs) hd

end RuleSet

/-- Rule sets whose base chains exist. -/
structure RuleRegistry where
  /-- The rule sets in order of registration. -/
  sets : Catalog RuleSet

namespace RuleRegistry

/-- The first rule set without a chain is an error. -/
def checkChains (sets : Catalog RuleSet) : List RuleSet → Except BuildError Unit
  | [] => .ok ()
  | s :: rest => do
    let _ ← RuleSet.walk sets [] s.id
    checkChains sets rest

/-- The registry of some rule sets, if all their chains exist. -/
def ofSets (sets : Catalog RuleSet) : Except BuildError RuleRegistry := do
  checkChains sets sets.items
  return ⟨sets⟩

/-- The rule set of an id. -/
def get? (r : RuleRegistry) (id : String) : Option RuleSet := r.sets.get? id

/-- Whether an id is registered. -/
def contains (r : RuleRegistry) (id : String) : Bool := r.sets.contains id

/-- The rule sets that lead to an id, the one without a base first; none for an unknown id. -/
def chain (r : RuleRegistry) (id : String) : List RuleSet :=
  match RuleSet.walk r.sets [] id with
  | .ok ids => ids.filterMap r.get?
  | .error _ => []

end RuleRegistry

end BuildPlan
