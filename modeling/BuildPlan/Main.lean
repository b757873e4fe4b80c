import BuildPlan.Command

/-!
# The program

Runs one invocation in the surroundings of the process. The disk is read first, as far as the run can look: the manifests
that may be meant, all that they include, and the settings of the user. The run itself is a function of what was read.
-/

namespace BuildPlan

/-- The variables of the environment that bear on a run. -/
def readEnvironment : IO (Keyed String) := do
  let names := ["HOME", manifestVariable, "TRELLIS_STRICT", "TRELLIS_PARALLEL", "TRELLIS_JOBS", "TRELLIS_FORMAT",
    "CLICOLOR_FORCE", "NO_COLOR", "CLICOLOR"]
  let values ← names.mapM (fun name => return (← IO.getEnv name).map (name, ·))
  return Catalog.ofList (values.filterMap id)

namespace Surroundings

/-- The path of a place on the disk. -/
def diskPath (place : Place) : String := "/" ++ Text.join "/" place

/-- Adds what is on the disk at a place; nothing comes back if nothing is there. -/
def see? (s : Surroundings) (place : Place) : IO (Option Surroundings) := do
  let here := (← IO.currentDir) / diskPath place
  if ← here.isDir then
    return some { s with tree := s.tree.makeDirectory place }
  else if ← here.pathExists then
    let text ← IO.FS.readFile here
    return some { s with tree := FileTree.put (.file text) place s.tree }
  else
    return none

/-- Adds what is on the disk along some steps from a place. -/
def seeAlong (s : Surroundings) (place : Place) : List String → IO Surroundings
  | [] => return s
  | step :: rest => do
    if step = "" ∨ step = "." then
      s.seeAlong place rest
    else if step = ".." then
      s.seeAlong place.dropLast rest
    else
      match ← s.see? (place ++ [step]) with
      | some s => s.seeAlong (place ++ [step]) rest
      | none => return s

/-- Adds what a path leads to, and everything on the way. -/
def seePath (s : Surroundings) (path : String) : IO Surroundings :=
  s.seeAlong (if Text.Path.isAbsolute path then [] else s.workingDirectory) (Text.Path.segments path)

/-- Adds the fragments below the directory at a place. Links are not followed. -/
partial def seeFragments (s : Surroundings) (place : Place) : IO Surroundings := do
  let here := (← IO.currentDir) / diskPath place
  (← here.readDir).foldlM
    (fun s entry => do
      let inside := place ++ [entry.fileName]
      match (← entry.path.symlinkMetadata).type with
      | .dir => s.seeFragments inside
      | .file => if Place.isFragment inside then return (← s.see? inside).getD s else return s
      | _ => return s)
    s

/-- Adds what some paths lead to, and all that loading goes to from there; `seen` are the places that are done. -/
partial def seeAll (s : Surroundings) (seen : List Place) : List String → IO Surroundings
  | [] => return s
  | path :: rest => do
    let s ← s.seePath path
    match s.tree.locate s.workingDirectory path with
    | .error _ => s.seeAll seen rest
    | .ok place =>
      if place ∈ seen then
        s.seeAll seen rest
      else
        let s ← if s.tree.isFile [] (diskPath place) then pure s else s.seeFragments place
        s.seeAll (place :: seen) (s.onward path ++ rest)

/-- The surroundings of the process, as far as a run looks that starts in a directory with a manifest or without one. -/
def ofProcess (start : String) (environment : Keyed String) (manifest : Option String) : IO Surroundings := do
  let userFile := (UserSettings.path (environment.lookup "HOME")).toOption
  let s : Surroundings := {
    tree := .empty
    workingDirectory := (Text.Path.segments start).filter (· ≠ "")
    environment, userFile
    onTerminal := ← (← IO.getStdout).isTty }
  let s ← s.seePath start
  let s ← userFile.toList.foldlM seePath s
  let candidates := match manifest with
    | some path => [path]
    | none => manifestCandidates start
  let s ← candidates.foldlM seePath s
  match manifest.or (s.findManifest start).toOption with
  | some path => s.seeAll [] [path]
  | none => return s

end Surroundings

/-- Prints the output of a result or writes it to its file on the disk. -/
def CommandResult.deliverToDisk (r : CommandResult) (s : Surroundings) (elapsed : String) : IO RunReport := do
  match r.destination with
  | none => return r.deliver s elapsed
  | some path =>
    try
      IO.FS.writeFile path (r.output.render s.isColored elapsed)
      return .ofOutput s.isColored s.tree "" r.error
    catch _ =>
      return .ofError s.isColored s.tree "" (.notCreated path)

/-- A number of milliseconds in seconds with two decimals. -/
def secondsText (milliseconds : Nat) : String :=
  let hundredths := (milliseconds + 5) / 10
  let decimals := hundredths % 100
  toString (hundredths / 100) ++ "." ++ toString (decimals / 10) ++ toString (decimals % 10)

/-- Runs an invocation on the disk and measures the time that the run takes. -/
def Invocation.perform (i : Invocation) (environment : Keyed String) : IO RunReport := do
  let start := (← IO.currentDir).toString
  let s ← Surroundings.ofProcess start environment i.manifest
  let begun ← IO.monoMsNow
  let result ← IO.lazyPure (fun _ => s.run start i)
  let ended ← IO.monoMsNow
  result.deliverToDisk s (secondsText (ended - begun))

end BuildPlan

open BuildPlan in
/-- Runs the program and answers its exit code. -/
def main (arguments : List String) : IO UInt32 := do
  let environment ← readEnvironment
  match Invocation.ofArguments (environment.lookup manifestVariable) arguments with
  | .error .usage =>
    IO.eprintln ("error: wrong arguments\n\nUsage: " ++ programName ++ " [OPTIONS] <COMMAND>")
    return 2
  | .error (.version verb) =>
    IO.print (versionLine verb)
    return 0
  | .ok invocation =>
    let report ← invocation.perform environment
    IO.print report.output
    IO.eprint report.errors
    return report.exitCode.toUInt32
