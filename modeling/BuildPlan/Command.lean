import BuildPlan.Command.Arguments
import BuildPlan.Command.Error
import BuildPlan.Emission
import BuildPlan.Emission.Dot
import BuildPlan.Loading

/-!
# Commands

What each command prints, and where to. A plan is written even if some targets fail; the failures are reported after it.
-/

namespace BuildPlan

/-- A loaded manifest and the workspace that it describes. -/
structure Session where
  loaded : Loaded
  workspace : Workspace

/-- What a command prints. -/
inductive CommandOutput
  | text (s : String)
  /-- The numbers of targets and of descriptors that were checked. -/
  | checked (targets descriptors : Nat)
  deriving DecidableEq

/-- The text of an output, perhaps with a word in color; `elapsed` are the seconds that planning took. -/
def CommandOutput.render (colored : Bool) (elapsed : String) : CommandOutput → String
  | text s => s
  | checked targets descriptors =>
    Text.emphasized colored .green "Checked" ++ " " ++ toString targets ++ " target(s), " ++ toString descriptors ++
      " descriptor(s) in " ++ elapsed ++ "s\n"

/-- What comes of a command. -/
structure CommandResult where
  output : CommandOutput := .text ""
  /-- The path of the file that the output goes to, if it is not printed. -/
  destination : Option String := none
  error : Option CommandError := none

namespace CommandResult

/-- Nothing but an error. -/
def failed (e : CommandError) : CommandResult := { error := some e }

/-- A result, or nothing but an error. -/
def ofExcept : Except CommandError CommandResult → CommandResult
  | .ok r => r
  | .error e => failed e

end CommandResult

/-- The error of some failures, if there are any. -/
def PlanOutcome.error (o : PlanOutcome) : Option CommandError :=
  if o.isSuccess then none else some (.failures o.failures)

namespace Session

/-- The session of a loaded manifest. -/
def ofLoaded (l : Loaded) : Except CommandError Session :=
  match l.workspace with
  | .ok workspace => .ok ⟨l, workspace⟩
  | .error e => .error (.declarations l.manifestPath e)

/-- Plans with flags over the settings of the session. -/
def plan (s : Session) (flags : PlanFlags) : Except CommandError PlanOutcome :=
  match s.workspace.plan (flags.planConfig s.loaded.settings) with
  | .ok outcome => .ok outcome
  | .error e => .error (.build e)

/-- The text of an executor input in a format. -/
def render (format : OutputFormat) (x : ExecutorInput) : String :=
  match format with
  | .json => x.document ++ "\n"
  | .jsonLines => x.lines

/-- Writes a plan. -/
def runPlan (s : Session) (flags : PlanFlags) (output : Option String) (lines : Bool) :
    Except CommandError CommandResult := do
  let outcome ← s.plan flags
  match ExecutorInput.ofOutcome outcome with
  | .error e => throw (.emission e)
  | .ok input =>
    return {
      output := .text (render (s.loaded.settings.outputFormat lines) input)
      destination := output
      error := outcome.error }

/-- The targets of one project, or of all. -/
def listTargets (s : Session) : Option String → Except BuildError (List Target)
  | none => s.workspace.targets
  | some name => do
    let p ← s.workspace.project name
    p.targets

/-- Lists targets with the names of their build configurations. -/
def runTargets (s : Session) (project : Option String) : Except CommandError CommandResult :=
  match s.listTargets project with
  | .error e => .error (.build e)
  | .ok ts => .ok { output := .text (Text.join "" (ts.map (fun t => t.key ++ "\t" ++ t.configurationName ++ "\n"))) }

/-- The resolution of one target. -/
def resolveOne (s : Session) (target : String) (solution : Option String) : Except CommandError Resolution := do
  let outcome ← s.plan { targets := [target], solution }
  match outcome.error, outcome.resolutions with
  | some e, _ => throw e
  | none, r :: _ => return r
  | none, [] => throw (.nothingBuilt target)

/-- Lists the projects of a target in dependency order. -/
def runOrder (s : Session) (target : String) (solution : Option String) : Except CommandError CommandResult := do
  let r ← s.resolveOne target solution
  return { output := .text (Text.join "" (r.order.map (· ++ "\n"))) }

/-- Draws the graph of a target. -/
def runGraph (s : Session) (target : String) (solution : Option String) : Except CommandError CommandResult := do
  let r ← s.resolveOne target solution
  return { output := .text r.dot }

/-- Resolves every target and counts. -/
def runCheck (s : Session) (flags : PlanFlags) : Except CommandError CommandResult := do
  let outcome ← s.plan flags
  match outcome.error with
  | some e => throw e
  | none => return { output := .checked outcome.stats.planned outcome.stats.descriptors }

/-- Runs a command. -/
def run (s : Session) : Command → CommandResult
  | .plan flags output lines => .ofExcept (s.runPlan flags output lines)
  | .targets project => .ofExcept (s.runTargets project)
  | .order target solution => .ofExcept (s.runOrder target solution)
  | .graph target solution => .ofExcept (s.runGraph target solution)
  | .check flags => .ofExcept (s.runCheck flags)

end Session

/-! ### The whole program -/

namespace Surroundings

/-- Whether words in what is printed stand out. -/
def isColored (s : Surroundings) : Bool := Text.isColored s.environment s.onTerminal

/-- Loads the manifest at a path, or the nearest one above the directory `start`. -/
def loadFor (s : Surroundings) (start : String) (manifest : Option String) : Except LoadError Loaded :=
  match manifest with
  | some path => s.load path
  | none => s.loadFrom start

/-- Runs an invocation; `start` is the path of the working directory. -/
def run (s : Surroundings) (start : String) (i : Invocation) : CommandResult :=
  match s.loadFor start i.manifest with
  | .error e => .failed (.load i.manifest e)
  | .ok loaded =>
    match Session.ofLoaded loaded with
    | .error e => .failed e
    | .ok session => session.run i.command

end Surroundings

/-- What a finished run leaves behind. -/
structure RunReport where
  exitCode : Nat
  /-- What it printed. -/
  output : String := ""
  /-- What it printed about errors. -/
  errors : String := ""
  /-- Whether other words follow those about errors. -/
  hasForeignCause : Bool := false
  /-- The files and directories after the run. -/
  tree : FileTree

namespace RunReport

/-- The report of an error, after some output. -/
def ofError (colored : Bool) (tree : FileTree) (output : String) (e : CommandError) : RunReport where
  exitCode := 1
  output
  errors := e.report colored
  hasForeignCause := e.hasForeignCause
  tree

/-- The report of an output that may have an error after it. -/
def ofOutput (colored : Bool) (tree : FileTree) (output : String) : Option CommandError → RunReport
  | none => { exitCode := 0, output, tree }
  | some e => ofError colored tree output e

end RunReport

namespace CommandResult

/-- Prints the output of a result or writes it to its file. -/
def deliver (r : CommandResult) (s : Surroundings) (elapsed : String) : RunReport :=
  let text := r.output.render s.isColored elapsed
  match r.destination with
  | none => .ofOutput s.isColored s.tree text r.error
  | some path =>
    match s.tree.write? s.workingDirectory path text with
    | none => .ofError s.isColored s.tree "" (.notCreated path)
    | some tree => .ofOutput s.isColored tree "" r.error

end CommandResult

namespace Surroundings

/-- Runs the program with some arguments. -/
def runProgram (s : Surroundings) (start : String) (elapsed : String) (arguments : List String) : RunReport :=
  match Invocation.ofArguments (s.environment.lookup manifestVariable) arguments with
  | .error .usage => { exitCode := 2, tree := s.tree }
  | .error (.version verb) => { exitCode := 0, output := versionLine verb, tree := s.tree }
  | .ok i => (s.run start i).deliver s elapsed

end Surroundings

end BuildPlan
