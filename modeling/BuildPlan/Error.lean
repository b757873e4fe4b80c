import BuildPlan.LoadError
import BuildPlan.Target
import BuildPlan.Text.Quoted

/-!
# Errors of declarations and resolutions

Every way in which a workspace can be refused or a target can fail, with the message, the category and the project that
each is attributed to.
-/

namespace BuildPlan

/-- What is wrong with the values of an axis. -/
inductive AxisFault
  /-- No value is asked for. -/
  | noValues
  /-- The name cannot stand in a target key. -/
  | malformedName (name : String)
  /-- The axis has no value of this name. -/
  | unknownValue (name : String)
  /-- No project is built for the target of this key. -/
  | notPlanned (key : String)
  deriving DecidableEq

/-- The reason given for a fault. -/
def AxisFault.reason : AxisFault → String
  | noValues => "no values requested"
  | malformedName n => "'" ++ n ++ "' is not a valid name (empty, '-' or whitespace)"
  | unknownValue n => "unknown value '" ++ n ++ "'"
  | notPlanned k => "no project is built for target '" ++ k ++ "'"

/-- Where the name of a project that is not declared was met. -/
inductive ProjectReference
  | direct
  | dependencyOf (dependent : String)
  | edge (source target : String)
  | solution (name : String)
  deriving DecidableEq

/-- The remark a reference adds to the name. -/
def ProjectReference.remark : ProjectReference → String
  | direct => ""
  | dependencyOf d => " (required by " ++ d ++ ")"
  | edge a b => " (edge " ++ a ++ " -> " ++ b ++ ")"
  | solution s => " (in solution " ++ s ++ ")"

/-- Where the id of a rule set that is not registered was met. -/
inductive RuleSetReference
  | registry
  | ruleSet (id : String)
  | rule (name : String)
  | project (name : String)
  deriving DecidableEq

/-- The words for a reference. -/
def RuleSetReference.words : RuleSetReference → String
  | registry => "registry"
  | ruleSet id => "rule set '" ++ id ++ "'"
  | rule n => "rule '" ++ n ++ "'"
  | project n => "project '" ++ n ++ "'"

/-- The settings of which the last writer wins. -/
inductive ScalarField
  | outputKind
  | outputPath
  | intermediatePath
  | targetFileName
  deriving DecidableEq

/-- The name of a field in messages. -/
def ScalarField.name : ScalarField → String
  | outputKind => "output_kind"
  | outputPath => "output_path"
  | intermediatePath => "intermediate_path"
  | targetFileName => "target_file_name"

/-- Two rules of one rule set that gave different values to one scalar field. -/
structure ScalarConflict where
  field : ScalarField
  ruleSet : String
  firstRule : String
  firstValue : String
  secondRule : String
  secondValue : String
  deriving DecidableEq

/-- Why a declaration was refused or a resolution failed. A pool of workers that cannot be started is left out, since workers
have no part in what is resolved. -/
inductive BuildError
  | invalidAxis (axis : Axis) (fault : AxisFault)
  | cyclicDependency (target : Target) (cycle : List String)
  | missingVariant (dependency dependent : String) (target : Target)
  | scalarConflict (project : String) (conflict : ScalarConflict)
  | incompleteDescriptor (project dependency : String) (target : Target)
  | duplicateProject (name : String) (first second : Option String)
  | duplicateRuleSet (id : String)
  | unknownProject (name : String) (reference : ProjectReference)
  | unknownRuleSet (id : String) (reference : RuleSetReference)
  | ruleChainCycle (ids : List String)
  | duplicateDescriptor (project : String) (target : Target)
  | duplicateSolution (name : String)
  | unknownSolution (name : String)
  | load (error : LoadError)
  | malformedText
  deriving DecidableEq

/-- The categories of errors that a failure report names. -/
inductive ErrorKind
  | invalidAxis
  | cyclicDependency
  | missingTargetVariant
  | conflictingScalarOverride
  | incompleteDescriptor
  | duplicateProjectDeclaration
  | declaration
  | internal
  deriving DecidableEq

/-- The name of a category. -/
def ErrorKind.name : ErrorKind → String
  | invalidAxis => "InvalidAxisError"
  | cyclicDependency => "CyclicDependencyError"
  | missingTargetVariant => "MissingTargetVariantError"
  | conflictingScalarOverride => "ConflictingScalarOverrideError"
  | incompleteDescriptor => "IncompleteDescriptorError"
  | duplicateProjectDeclaration => "DuplicateProjectDeclarationError"
  | declaration => "DeclarationError"
  | internal => "InternalError"

namespace BuildError

/-- The names of a path through a graph as one text. -/
def arrows (names : List String) : String := Text.join " -> " names

/-- The remark that says in which files a project was declared twice. -/
def originRemark : Option String → Option String → String
  | some a, some b => " (in " ++ a ++ " and " ++ b ++ ")"
  | some a, none => " (in " ++ a ++ ")"
  | none, some b => " (in " ++ b ++ ")"
  | none, none => ""

/-- The message of an error. -/
def message : BuildError → String
  | invalidAxis axis fault => "Invalid target axis '" ++ axis.name ++ "': " ++ fault.reason
  | cyclicDependency t cycle => "Circular dependency detected for target " ++ t.key ++ ": " ++ arrows cycle
  | missingVariant dep p t => "Project '" ++ dep ++ "' (required by '" ++ p ++ "') has no variant for target " ++ t.key
  | scalarConflict p c =>
    "Conflicting values for '" ++ c.field.name ++ "' in rule set '" ++ c.ruleSet ++ "' of project '" ++ p ++ "': rule '" ++
      c.firstRule ++ "' set " ++ Text.quoted c.firstValue ++ ", rule '" ++ c.secondRule ++ "' set " ++
      Text.quoted c.secondValue ++ " at the same priority"
  | incompleteDescriptor p dep t =>
    "Descriptor for '" ++ p ++ "' references '" ++ dep ++ "' which is not emitted for target " ++ t.key
  | duplicateProject n a b => "Project '" ++ n ++ "' is declared more than once" ++ originRemark a b
  | duplicateRuleSet id => "Rule set '" ++ id ++ "' is declared more than once"
  | unknownProject n r => "Project not found: " ++ n ++ r.remark
  | unknownRuleSet id r => "Rule set not found: " ++ id ++ " (referenced by " ++ r.words ++ ")"
  | ruleChainCycle ids => "Rule set base chain is circular: " ++ arrows ids
  | duplicateDescriptor p t => "Descriptor for '" ++ p ++ "' on target " ++ t.key ++ " was written twice"
  | duplicateSolution n => "Invalid declaration: solution '" ++ n ++ "' is declared more than once"
  | unknownSolution n => "Invalid declaration: unknown solution '" ++ n ++ "'"
  | load e => "Configuration error: " ++ e.message
  | malformedText => "Serialization error"

/-- The category of an error. -/
def kind : BuildError → ErrorKind
  | invalidAxis .. => .invalidAxis
  | cyclicDependency .. => .cyclicDependency
  | missingVariant .. => .missingTargetVariant
  | scalarConflict .. => .conflictingScalarOverride
  | incompleteDescriptor .. => .incompleteDescriptor
  | duplicateProject .. => .duplicateProjectDeclaration
  | duplicateRuleSet .. => .declaration
  | unknownProject .. => .declaration
  | unknownRuleSet .. => .declaration
  | ruleChainCycle .. => .declaration
  | duplicateSolution .. => .declaration
  | unknownSolution .. => .declaration
  | load .. => .declaration
  | duplicateDescriptor .. => .internal
  | malformedText => .internal

/-- The project an error is attributed to. Of a cycle it is the text before the first arrow. -/
def project? : BuildError → Option String
  | cyclicDependency _ cycle => some (Text.before " -> " (arrows cycle))
  | missingVariant _ p _ => some p
  | scalarConflict p _ => some p
  | incompleteDescriptor p _ _ => some p
  | duplicateDescriptor p _ => some p
  | duplicateProject n _ _ => some n
  | _ => none

end BuildError

end BuildPlan
