/-!
# Errors of manifests and settings

What can be wrong with a declaration file, a settings file or a setting of the environment, and the message of each.
Where the reader of a format or the file system has more to say about the cause, `hasForeignCause` holds.
-/

namespace BuildPlan

/-- What is wrong with the value of a field. -/
inductive ValueFault
  | emptyName
  | emptyId
  | unnamedDefine (define : String)
  | notMember (project : String)
  | unknownPreset (name : String)
  | zeroJobs
  | unknownFormat (text : String)
  | notPositive (text : String)
  deriving DecidableEq

/-- The reason given for a fault. -/
def ValueFault.reason : ValueFault → String
  | emptyName => "name cannot be empty"
  | emptyId => "id cannot be empty"
  | unnamedDefine d => "define '" ++ d ++ "' has no name"
  | notMember p => "'" ++ p ++ "' is not one of the solution's projects"
  | unknownPreset n => "unknown axis preset '" ++ n ++ "'"
  | zeroJobs => "must be at least 1"
  | unknownFormat t => "must be 'json' or 'jsonl', got '" ++ t ++ "'"
  | notPositive t => "expected a positive integer, got '" ++ t ++ "'"

/-- The name of the manifest that `findManifest` looks for. -/
def manifestFileName : String := "trellis.toml"

/-- Why a manifest or the settings could not be loaded. -/
inductive LoadError
  | notFound (path : String)
  | unreadable (path : String)
  /-- The directory at a path cannot be searched for fragments. -/
  | unsearchable (path : String)
  | malformed (file : String)
  | workspaceInFragment (file : String)
  | presetTwice (name file : String)
  | invalidValue (field : String) (fault : ValueFault)
  | includeNotFound (path file : String)
  | homeNotFound
  deriving DecidableEq

namespace LoadError

/-- Whether the message ends with words of the file system or of the TOML reader. -/
def hasForeignCause : LoadError → Bool
  | unreadable _ => true
  | unsearchable _ => true
  | malformed _ => true
  | _ => false

/-- The message of an error. -/
def message : LoadError → String
  | notFound p => "Configuration file not found: " ++ p
  | unreadable p => "Failed to read configuration file: " ++ p
  | unsearchable p => "Failed to scan " ++ p
  | malformed f => "Invalid TOML syntax in " ++ f
  | workspaceInFragment f =>
    "Invalid configuration: [workspace] is only allowed in " ++ manifestFileName ++ ", found in " ++ f
  | presetTwice n f => "Invalid configuration: axis preset '" ++ n ++ "' is declared more than once (again in " ++ f ++ ")"
  | invalidValue field fault => "Invalid value for '" ++ field ++ "': " ++ fault.reason
  | includeNotFound p f => "Include '" ++ p ++ "' in " ++ f ++ " does not exist"
  | homeNotFound => "Home directory not found"

end LoadError

end BuildPlan
