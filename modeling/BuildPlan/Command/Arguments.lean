import BuildPlan.Settings

/-!
# Arguments of the command line

The arguments are taken one by one: options of the program, the name of a command, and the options of the command. An option
with a value takes the rest of its argument or the next argument; short options without values may share an argument.
After `--` no argument is an option. The first argument that is wrong, or that asks for the version, ends the reading. A
value in an argument of its own is checked only when the next option or operand comes; one right before the command is
checked last of all.
-/

namespace BuildPlan

/-- What the program is called. -/
def programName : String := "trellis"

/-- The version of the program. -/
def programVersion : String := "0.2.0"

/-- The variable of the environment that names the manifest. -/
def manifestVariable : String := "TRELLIS_MANIFEST"

/-- The commands by name. -/
inductive Verb
  | plan
  | targets
  | order
  | graph
  | check
  deriving DecidableEq

namespace Verb

/-- The name on the command line. -/
def name : Verb → String
  | plan => "plan"
  | targets => "targets"
  | order => "order"
  | graph => "graph"
  | check => "check"

/-- The command of a name; some have a short name too. -/
def ofName? (s : String) : Option Verb :=
  match s with
  | "plan" => some plan
  | "p" => some plan
  | "targets" => some targets
  | "t" => some targets
  | "order" => some order
  | "graph" => some graph
  | "check" => some check
  | "c" => some check
  | _ => none

end Verb

/-- The options. -/
inductive OptionKey
  | manifest
  | verbose
  | version
  | target
  | solution
  | strict
  | jobs
  | noParallel
  | output
  | jsonLines
  deriving DecidableEq

namespace OptionKey

/-- The name after two dashes. -/
def long : OptionKey → String
  | manifest => "manifest"
  | verbose => "verbose"
  | version => "version"
  | target => "target"
  | solution => "solution"
  | strict => "strict"
  | jobs => "jobs"
  | noParallel => "no-parallel"
  | output => "output"
  | jsonLines => "jsonl"

/-- The letter after one dash. -/
def short? : OptionKey → Option Char
  | manifest => some 'm'
  | verbose => some 'v'
  | version => some 'V'
  | target => some 't'
  | solution => some 's'
  | jobs => some 'j'
  | output => some 'o'
  | _ => none

/-- Whether an option has a value. -/
def takesValue : OptionKey → Bool
  | manifest => true
  | target => true
  | solution => true
  | jobs => true
  | output => true
  | _ => false

/-- Whether a value can be the value of an option: paths are not empty, and a number of jobs is a number. -/
def accepts : OptionKey → String → Bool
  | manifest, v => !v.isEmpty
  | output, v => !v.isEmpty
  | jobs, v => (RunSettings.naturalBelow? RunSettings.jobLimit v).isSome
  | _, _ => true

/-- The options that may stand before the command, and those that may stand after it. -/
def allowed : Option Verb → List OptionKey
  | none => [manifest, verbose, version]
  | some .plan =>
    [manifest, verbose, version, target, solution, strict, jobs, noParallel, output, jsonLines]
  | some .targets => [manifest, verbose, version]
  | some .order => [manifest, verbose, version, target, solution]
  | some .graph => [manifest, verbose, version, target, solution]
  | some .check => [manifest, verbose, version, solution, strict]

/-- Whether an option may be repeated. -/
def repeats (verb : Option Verb) (key : OptionKey) : Bool := verb == some .plan && key == target

end OptionKey

/-- What a command is to do. -/
inductive Command
  | plan (flags : PlanFlags) (output : Option String) (lines : Bool)
  | targets (project : Option String)
  | order (target : String) (solution : Option String)
  | graph (target : String) (solution : Option String)
  | check (flags : PlanFlags)
  deriving DecidableEq

/-- A command and the options that every command has. -/
structure Invocation where
  /-- The path of the manifest; if absent, the nearest one is taken. -/
  manifest : Option String := none
  verbose : Bool := false
  command : Command
  deriving DecidableEq

/-- Why the reading of arguments ends without a command. -/
inductive ArgumentStop
  /-- The arguments are wrong. -/
  | usage
  /-- They ask for the version of the program or of a command. -/
  | version (verb : Option Verb)
  deriving DecidableEq

/-- Options with their values, in order; the value of one that takes none is empty. -/
abbrev GivenOptions := List (OptionKey × String)

namespace GivenOptions

/-- Whether an option is given. -/
def has (g : GivenOptions) (key : OptionKey) : Bool := g.any (fun o => o.1 == key)

/-- The value of an option. -/
def value? (g : GivenOptions) (key : OptionKey) : Option String := g.lookup key

/-- All values of an option. -/
def values (g : GivenOptions) (key : OptionKey) : List String := (g.filter (fun o => o.1 == key)).map Prod.snd

end GivenOptions

/-- How far the arguments have been read. -/
structure ArgumentScan where
  verb : Option Verb := none
  /-- The options before the command. -/
  outer : GivenOptions := []
  /-- The options before the command as long as there is none, and then those after it. -/
  given : GivenOptions := []
  /-- An option whose value is the next argument. -/
  pending : Option OptionKey := none
  /-- An option with a value that is not checked yet. -/
  unchecked : Option (OptionKey × String) := none
  /-- Such an option right before the command. -/
  outerUnchecked : Option (OptionKey × String) := none
  /-- Whether no argument is an option any more. -/
  plain : Bool := false
  /-- The argument of the command that is no option. -/
  operand : Option String := none

namespace ArgumentScan

/-- Some options with one more. -/
def extend (verb : Option Verb) (given : GivenOptions) (key : OptionKey) (v : String) :
    Except ArgumentStop GivenOptions :=
  if key = .version then .error (.version verb)
  else if given.has key && !OptionKey.repeats verb key then .error .usage
  else if key.accepts v then .ok (given ++ [(key, v)])
  else .error .usage

/-- An option is given with a value. -/
def give (s : ArgumentScan) (key : OptionKey) (v : String) : Except ArgumentStop ArgumentScan := do
  return { s with given := ← extend s.verb s.given key v }

/-- Checks the value that is not checked yet. -/
def settle (s : ArgumentScan) : Except ArgumentStop ArgumentScan :=
  match s.unchecked with
  | none => .ok s
  | some (key, v) => give { s with unchecked := none } key v

/-- Checks the value right before the command. -/
def settleOuter (s : ArgumentScan) : Except ArgumentStop ArgumentScan :=
  match s.outerUnchecked with
  | none => .ok s
  | some (key, v) => do return { s with outer := ← extend none s.outer key v, outerUnchecked := none }

/-- An argument that is no option. -/
def takeOperand (s : ArgumentScan) (arg : String) : Except ArgumentStop ArgumentScan :=
  if s.verb = some .targets ∧ s.operand = none then .ok { s with operand := some arg } else .error .usage

/-- The characters before the first `=` and those after it, if there is one. -/
def cutEquals (cs : List Char) : String × Option String :=
  match cs.span (fun c => c != '=') with
  | (name, '=' :: v) => (String.ofList name, some (String.ofList v))
  | (name, _) => (String.ofList name, none)

/-- An argument with two dashes. -/
def takeLong (s : ArgumentScan) (cs : List Char) : Except ArgumentStop ArgumentScan :=
  let (name, v) := cutEquals cs
  match (OptionKey.allowed s.verb).find? (fun k => k.long == name), v with
  | none, _ => .error .usage
  | some key, some v => if key.takesValue then s.give key v else .error .usage
  | some key, none => if key.takesValue then .ok { s with pending := some key } else s.give key ""

/-- The letters of an argument with one dash. -/
def takeShort (s : ArgumentScan) : List Char → Except ArgumentStop ArgumentScan
  | [] => .ok s
  | c :: rest =>
    match (OptionKey.allowed s.verb).find? (fun k => k.short? == some c) with
    | none => .error .usage
    | some key =>
      if key.takesValue then
        match rest with
        | [] => .ok { s with pending := some key }
        | '=' :: v => s.give key (String.ofList v)
        | v => s.give key (String.ofList v)
      else
        match s.give key "" with
        | .error stop => .error stop
        | .ok s => takeShort s rest

/-- The name of the command. -/
def takeVerb (s : ArgumentScan) (verb : Verb) : ArgumentScan :=
  { s with verb := some verb, outer := s.given, given := [], unchecked := none, outerUnchecked := s.unchecked }

/-- An argument that is not the value of an option. -/
def takeFree (s : ArgumentScan) (arg : String) : Except ArgumentStop ArgumentScan :=
  match s.verb, Verb.ofName? arg with
  | none, some verb => .ok (s.takeVerb verb)
  | _, _ => do
    let s ← s.settle
    match arg.toList with
    | ['-', '-'] => .ok { s with plain := true }
    | '-' :: '-' :: cs => s.takeLong cs
    | '-' :: c :: cs => s.takeShort (c :: cs)
    | _ => s.takeOperand arg

/-- Whether an argument looks like an option. -/
def isDashed (arg : String) : Bool := '-' == (arg.toList.head?).getD ' ' && 2 ≤ arg.length

/-- The scan after one more argument. -/
def step (s : ArgumentScan) (arg : String) : Except ArgumentStop ArgumentScan :=
  if s.plain then s.settle.bind (fun s => s.takeOperand arg)
  else
    match s.pending with
    | some key => if isDashed arg then .error .usage else .ok { s with pending := none, unchecked := some (key, arg) }
    | none => s.takeFree arg

/-- The path of the manifest: the option after the command wins over the one before it, and both over the environment. An
empty path in the environment is wrong, unless both options are given. -/
def manifest (s : ArgumentScan) (environment : Option String) : Except ArgumentStop (Option String) :=
  let inner := s.given.value? .manifest
  let outer := s.outer.value? .manifest
  if environment = some "" ∧ (inner.isNone ∨ outer.isNone) then .error .usage
  else .ok ((inner.or outer).or environment)

/-- The flags that bear on planning. -/
def planFlags (s : ArgumentScan) : PlanFlags where
  targets := s.given.values .target
  solution := s.given.value? .solution
  strict := s.given.has .strict
  jobs := (s.given.value? .jobs).bind (RunSettings.naturalBelow? RunSettings.jobLimit)
  noParallel := s.given.has .noParallel

/-- The command of the arguments. -/
def command (s : ArgumentScan) : Except ArgumentStop Command :=
  match s.verb, s.given.value? .target with
  | some .plan, _ => .ok (.plan s.planFlags (s.given.value? .output) (s.given.has .jsonLines))
  | some .targets, _ => .ok (.targets s.operand)
  | some .order, some target => .ok (.order target (s.given.value? .solution))
  | some .graph, some target => .ok (.graph target (s.given.value? .solution))
  | some .check, _ => .ok (.check s.planFlags)
  | _, _ => .error .usage

end ArgumentScan

namespace Invocation

/-- The invocation that some arguments ask for; `environment` is the value of the variable that names the manifest. -/
def ofArguments (environment : Option String) (arguments : List String) : Except ArgumentStop Invocation := do
  let s ← arguments.foldlM ArgumentScan.step {}
  if s.pending.isSome then throw .usage
  let s ← s.settle
  let s ← s.settleOuter
  let command ← s.command
  let manifest ← s.manifest environment
  return { manifest, verbose := s.given.has .verbose || s.outer.has .verbose, command }

end Invocation

/-- The line that tells the version of the program or of a command. -/
def versionLine (verb : Option Verb) : String :=
  let name := match verb with
    | none => programName
    | some v => programName ++ "-" ++ v.name
  name ++ " " ++ programVersion ++ "\n"

end BuildPlan
