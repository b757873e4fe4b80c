import BuildPlan.Json.Record
import BuildPlan.LoadError
import BuildPlan.Text.Path
import BuildPlan.Toml.Document
import BuildPlan.Toml.Record

/-!
# Settings of the user

A user may keep settings for all workspaces in a file: defaults of a run and a filter for the log. Merging two such files
takes each of the two tables as a whole from the later file that has it.
-/

namespace BuildPlan

/-- Defaults of a run. -/
structure RunDefaults where
  jobs : Option Nat := none
  parallel : Option Bool := none
  strict : Option Bool := none
  format : Option String := none
  deriving DecidableEq

/-- What to log. -/
structure LogSettings where
  filter : Option String := none
  deriving DecidableEq

/-- The settings of a user. -/
structure UserSettings where
  defaults : Option RunDefaults := none
  log : Option LogSettings := none
  deriving DecidableEq

namespace UserSettings

/-- The path of the settings of a user with a home directory. An empty home is none. -/
def path (home : Option String) : Except LoadError String :=
  match home.filter (· ≠ "") with
  | none => .error .homeNotFound
  | some home => .ok (Text.Path.join home ".trellis/config.toml")

/-- The number of jobs, if it is set. -/
def jobs (u : UserSettings) : Option Nat := u.defaults.bind RunDefaults.jobs

/-- Whether targets are planned at the same time, if it is set. -/
def parallel (u : UserSettings) : Option Bool := u.defaults.bind RunDefaults.parallel

/-- Whether conflicts are errors, if it is set. -/
def strict (u : UserSettings) : Option Bool := u.defaults.bind RunDefaults.strict

/-- The name of the format of plans, if it is set. -/
def format (u : UserSettings) : Option String := u.defaults.bind RunDefaults.format

/-- What to log, if it is set. -/
def logFilter (u : UserSettings) : Option String := u.log.bind LogSettings.filter

/-- The settings with those of a later file over them, table by table. -/
def merge (u later : UserSettings) : UserSettings where
  defaults := later.defaults.or u.defaults
  log := later.log.or u.log

end UserSettings

/-! ### Formats of a plan -/

/-- How a plan is written. -/
inductive OutputFormat
  /-- One JSON document. -/
  | json
  /-- One JSON object on each line. -/
  | jsonLines
  deriving DecidableEq

namespace OutputFormat

/-- The name in settings. -/
def name : OutputFormat → String
  | json => "json"
  | jsonLines => "jsonl"

/-- The format of a name. -/
def ofName? (s : String) : Option OutputFormat :=
  match s with
  | "json" => some json
  | "jsonl" => some jsonLines
  | _ => none

/-- The format of a name that was given for `field`. -/
def read (field name : String) : Except LoadError OutputFormat :=
  match ofName? name with
  | some f => .ok f
  | none => .error (.invalidValue field (.unknownFormat name))

end OutputFormat

namespace UserSettings

/-- Checks that the number of jobs is positive and that the format is known. -/
def validate (u : UserSettings) : Except LoadError Unit :=
  if u.jobs = some 0 then .error (.invalidValue "defaults.jobs" .zeroJobs)
  else
    match u.format with
    | none => .ok ()
    | some name => (OutputFormat.read "defaults.format" name).map (fun _ => ())

/-! ### As texts -/

/-- The defaults of a record. -/
def defaultsOfToml? (v : Toml) : Option RunDefaults := do
  match ← Toml.fields? [("jobs", .optionalByName), ("parallel", .optionalByName), ("strict", .optionalByName),
      ("format", .optionalByName)] v with
  | [jobs, parallel, strict, format] =>
    return {
      jobs := (← Toml.optional? (Toml.intIn? 0 Int64.maxValue.toInt) jobs).map Int.toNat
      parallel := ← Toml.optional? Toml.bool? parallel
      strict := ← Toml.optional? Toml.bool? strict
      format := ← Toml.optional? Toml.str? format }
  | _ => none

/-- The log settings of a record. -/
def logOfToml? (v : Toml) : Option LogSettings := do
  match ← Toml.fields? [("filter", .optionalByName)] v with
  | [filter] => return { filter := ← Toml.optional? Toml.str? filter }
  | _ => none

/-- The settings of a record. -/
def ofToml? (v : Toml) : Option UserSettings := do
  match ← Toml.fields? [("defaults", .optionalByName), ("log", .optionalByName)] v with
  | [defaults, log] =>
    return { defaults := ← Toml.optional? defaultsOfToml? defaults, log := ← Toml.optional? logOfToml? log }
  | _ => none

/-- The settings of a text, valid or not; `file` is where the text comes from. -/
def parse (file text : String) : Except LoadError UserSettings :=
  match (Toml.ofText? text).bind ofToml? with
  | some u => .ok u
  | none => .error (.malformed file)

/-- The valid settings of a text. -/
def ofText (file text : String) : Except LoadError UserSettings := do
  let u ← parse file text
  u.validate
  return u

/-- A field as a member of a record, if it is set. -/
def member {α : Type} (field : String) (write : α → Json) (value : Option α) : List (String × Json) :=
  (value.map (fun a => (field, write a))).toList

/-- The record of the settings that are set. -/
def toJson (u : UserSettings) : Json :=
  .obj (
    member "defaults"
      (fun d => .obj (
        member "jobs" (fun (n : Nat) => Json.int n) d.jobs ++ member "parallel" Json.bool d.parallel ++
          member "strict" Json.bool d.strict ++ member "format" Json.str d.format))
      u.defaults ++
    member "log" (fun l => .obj (member "filter" Json.str l.filter)) u.log)

end UserSettings

end BuildPlan
