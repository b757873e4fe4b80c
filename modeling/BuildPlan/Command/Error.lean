import BuildPlan.Error
import BuildPlan.Plan
import BuildPlan.Text.Emphasis

/-!
# Errors of commands

Why a command fails, as a message and the causes behind it. One cause stands alone under the message, several are
numbered; a cause of several lines is indented as a whole.
-/

namespace BuildPlan

/-- Why a command fails. -/
inductive CommandError
  /-- The manifest cannot be loaded; its path is absent if it was looked for. -/
  | load (manifest : Option String) (error : LoadError)
  /-- The declarations of the manifest at a path are refused. -/
  | declarations (manifest : String) (error : BuildError)
  | build (error : BuildError)
  | emission (error : BuildError)
  /-- The file at a path cannot be created. -/
  | notCreated (path : String)
  /-- Nothing is built for a target. -/
  | nothingBuilt (target : String)
  /-- Some targets failed. -/
  | failures (failures : List Failure)
  deriving DecidableEq

namespace CommandError

/-- The message of an error and of the causes behind it. -/
def chain : BuildError → List String
  | .load e => [(BuildError.load e).message, e.message]
  | e => [e.message]

/-- The message and the causes behind it. -/
def messages : CommandError → List String
  | load (some path) e => ["Failed to load manifest " ++ path, e.message]
  | load none e => ["Failed to find " ++ manifestFileName ++ " in this directory or any parent", e.message]
  | declarations path e => ("Invalid declarations in " ++ path) :: chain e
  | build e => chain e
  | emission e => "Failed to emit plan" :: chain e
  | notCreated path => ["Failed to create " ++ path]
  | nothingBuilt target => ["No projects are built for target '" ++ target ++ "'"]
  | failures fs => [toString fs.length ++ " target(s) failed to resolve"]

/-- Whether the causes end with words of the file system or of the TOML reader. -/
def hasForeignCause : CommandError → Bool
  | load _ e => e.hasForeignCause
  | notCreated _ => true
  | _ => false

/-- A text with something in front of its first line and in front of the lines after it. -/
def indented (first later text : String) : String :=
  first ++ String.ofList (text.toList.flatMap (fun c => if c = '\n' then '\n' :: later.toList else [c]))

/-- The numbered lines of some causes. -/
def numbered (n : Nat) : List String → String
  | [] => ""
  | cause :: rest => "\n" ++ indented ("    " ++ toString n ++ ": ") "       " cause ++ numbered (n + 1) rest

/-- The lines of the causes. -/
def causes : List String → String
  | [] => ""
  | [cause] => "\n\nCaused by:\n" ++ indented "    " "    " cause
  | several => "\n\nCaused by:" ++ numbered 0 several

/-- What is printed before the message: the report of the targets that failed. -/
def preface (colored : Bool) : CommandError → String
  | failures fs => Text.emphasized colored .red "error:" ++ " " ++ Text.trimEnd (Failure.report fs) ++ "\n"
  | _ => ""

/-- The text that is printed for an error, perhaps with a word in color. -/
def report (colored : Bool) (e : CommandError) : String :=
  match e.messages with
  | [] => ""
  | message :: behind => e.preface colored ++ "Error: " ++ message ++ causes behind ++ "\n"

end CommandError

end BuildPlan
