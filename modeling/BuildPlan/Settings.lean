import BuildPlan.Manifest
import BuildPlan.Plan
import BuildPlan.Settings.User
import BuildPlan.Text.Digits

/-!
# Settings of a run

What a run does is settled by four sources: the settings of the user, the manifest over them, the variables of the
environment over these, and the flags of the command line over all.
-/

namespace BuildPlan

/-- The settings of a run before the flags of the command line. -/
structure RunSettings where
  strict : Bool := false
  parallel : Bool := true
  jobs : Option Nat := none
  format : OutputFormat := .json
  logFilter : Option String := none
  deriving DecidableEq

namespace RunSettings

/-- The settings of the user, with what the manifest says over them. -/
def ofFiles (user : UserSettings) (manifest : Manifest) : RunSettings :=
  let defaults : RunSettings := {}
  { strict := ((manifest.strict).or user.strict).getD defaults.strict
    parallel := user.parallel.getD defaults.parallel
    jobs := user.jobs
    format := (user.format.bind OutputFormat.ofName?).getD defaults.format
    logFilter := user.logFilter }

/-- Whether a text switches something on. -/
def isYes (s : String) : Bool := ["true", "1", "yes"].contains (Text.lower s)

/-- The number of some decimal digits, with an optional plus sign in front, if it is below `limit`. -/
def naturalBelow? (limit : Nat) (s : String) : Option Nat :=
  let digits := match s.toList with
    | '+' :: cs => cs
    | cs => cs
  if digits.isEmpty || !digits.all Char.isDigit then none
  else
    let n := Text.digitsValue 10 digits
    if n < limit then some n else none

/-- The greatest number of jobs plus one. -/
def jobLimit : Nat := UInt64.size

/-- The number of jobs that a text asks for; there must be one at least. -/
def readJobs (s : String) : Except LoadError Nat :=
  match naturalBelow? jobLimit (Text.trim s) with
  | some (n + 1) => .ok (n + 1)
  | _ => .error (.invalidValue "TRELLIS_JOBS" (.notPositive s))

/-- The settings with the variables of an environment over them. -/
def withEnvironment (s : RunSettings) (environment : Keyed String) : Except LoadError RunSettings := do
  let jobs ←
    match environment.lookup "TRELLIS_JOBS" with
    | none => pure s.jobs
    | some text => (readJobs text).map some
  let format ←
    match environment.lookup "TRELLIS_FORMAT" with
    | none => pure s.format
    | some name => OutputFormat.read "TRELLIS_FORMAT" name
  return { s with
    strict := ((environment.lookup "TRELLIS_STRICT").map isYes).getD s.strict
    parallel := ((environment.lookup "TRELLIS_PARALLEL").map isYes).getD s.parallel
    jobs, format }

end RunSettings

/-- The flags of the command line that bear on planning. -/
structure PlanFlags where
  targets : List String := []
  solution : Option String := none
  strict : Bool := false
  jobs : Option Nat := none
  noParallel : Bool := false
  deriving DecidableEq

namespace PlanFlags

/-- What to plan: a flag that is given wins over the settings. -/
def planConfig (f : PlanFlags) (s : RunSettings) : PlanConfig where
  strict := f.strict || s.strict
  parallel := !f.noParallel && s.parallel
  jobs := f.jobs.or s.jobs
  targets := f.targets
  solution := f.solution

end PlanFlags

/-- The format of a plan: lines if a flag asks for them, else what the settings say. -/
def RunSettings.outputFormat (s : RunSettings) (lines : Bool) : OutputFormat := if lines then .jsonLines else s.format

/-- What to log: the variable of the environment unless it is blank, then the settings of the user, then a default. -/
def logDirective (environment configured : Option String) (verbose : Bool) : String :=
  match environment.filter (fun s => !Text.isBlankText s) with
  | some s => s
  | none => configured.getD (if verbose then "debug" else "warn")

end BuildPlan
