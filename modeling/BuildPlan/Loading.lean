import BuildPlan.FileTree
import BuildPlan.Manifest.Registration
import BuildPlan.Manifest.Toml
import BuildPlan.Reach
import BuildPlan.Settings

/-!
# Loading

A run loads a manifest with all fragments that it includes, directly or through others, and the settings that go with it.
The fragments are merged depth first, in the order of the includes; a file that is reached again is not merged again, and
a directory stands for the fragments below it in the order of their names.
-/

namespace BuildPlan

/-- What a run finds around it. -/
structure Surroundings where
  tree : FileTree
  workingDirectory : Place := []
  /-- The variables of the environment. -/
  environment : Keyed String := ∅
  /-- The path of the settings of the user; there is none for a user without a home. -/
  userFile : Option String := none
  /-- Whether what is printed goes to a terminal. -/
  onTerminal : Bool := false

/-- A manifest with its fragments, and the settings of the run. -/
structure Loaded where
  /-- The manifest with every fragment merged into it. -/
  manifest : Manifest
  user : UserSettings
  /-- The directory of the manifest. -/
  rootDirectory : String
  manifestPath : String
  /-- The fragments in the order in which they were merged. -/
  fragments : List String
  settings : RunSettings
  deriving DecidableEq

namespace Loaded

/-- The name of the workspace: the one declared, or else the name of the manifest's directory. -/
def workspaceName (l : Loaded) : Option String := l.manifest.name.or (Text.Path.fileName? l.rootDirectory)

/-- A path of the manifest, seen from where the manifest is. -/
def resolvePath (l : Loaded) (path : String) : String := Text.Path.join l.rootDirectory path

/-- The workspace that the manifest describes. -/
def workspace (l : Loaded) : Except BuildError Workspace := l.manifest.registered l.rootDirectory

end Loaded

/-! ### Fragments -/

/-- The order of places: by the first name in which they differ. -/
def Place.le : Place → Place → Bool
  | [], _ => true
  | _ :: _, [] => false
  | a :: p, b :: q => a < b || (a == b && Place.le p q)

/-- Whether the file at a place has the name of a fragment. -/
def Place.isFragment (place : Place) : Bool :=
  match place.getLast? with
  | none => false
  | some name => fragmentEnding.toList.isSuffixOf name.toList

/-- The path of a place below the directory at a path. -/
def Place.pathBelow (path : String) (place : Place) : String := place.foldl Text.Path.join path

/-- The paths of the fragments below the directory at a path. -/
def fragmentsBelow (path : String) (directory : FileTree) : List String :=
  ((directory.files.filter Place.isFragment).mergeSort Place.le).map (Place.pathBelow path)

/-- Whether the directory at a path can be searched: every directory below it has a path that can be looked up. -/
def isSearchable (path : String) (directory : FileTree) : Bool :=
  directory.directories.all (fun place => FileTree.isUsablePath (place.pathBelow path))

/-- A step that merging still has to take. -/
inductive Pending
  /-- An include of a file. -/
  | inclusion (file path : String)
  | fragment (path : String)
  deriving DecidableEq

/-- The number of includes among some steps. -/
def inclusions : List Pending → Nat
  | [] => 0
  | .inclusion .. :: rest => inclusions rest + 1
  | .fragment _ :: rest => inclusions rest

theorem inclusions_fragments (paths : List String) (rest : List Pending) :
    inclusions (paths.map Pending.fragment ++ rest) = inclusions rest := by
  induction paths with
  | nil => rfl
  | cons p paths ih => simpa [inclusions] using ih

/-- How far merging has come. -/
structure Merging where
  manifest : Manifest
  /-- The places of the files that are merged, the manifest's own among them. -/
  visited : List Place
  /-- The fragments, the latest first. -/
  latestFirst : List String := []

/-- The path that an include of a file stands for. -/
def includedPath (file path : String) : String := Text.Path.join ((Text.Path.parent? file).getD ".") path

namespace Surroundings

/-- The manifest of a text that comes from a file. -/
def manifestOf (file text : String) : Except LoadError Manifest :=
  (Manifest.ofText file text).map (fun m => m.withOrigin file)

/-- The manifest of a file. -/
def readManifest (s : Surroundings) (file : String) : Except LoadError Manifest :=
  match s.tree.read s.workingDirectory file with
  | .missing => .error (.notFound file)
  | .unreadable => .error (.unreadable file)
  | .content text => manifestOf file text

/-- Merging after one more fragment. -/
def mergeOne (m : Merging) (place : Place) (file : String) (fragment : Manifest) : Except LoadError Merging :=
  match m.manifest.merge fragment file with
  | (some e, _) => .error e
  | (none, manifest) => .ok ⟨manifest, place :: m.visited, file :: m.latestFirst⟩

set_option linter.unusedVariables false in
/-- Takes the steps that are pending, and the steps that these lead to before those after them. -/
def mergeAll (s : Surroundings) (m : Merging) (pending : List Pending) : Except LoadError Merging :=
  match pending with
  | [] => .ok m
  | .inclusion file path :: rest =>
    match s.tree.find? s.workingDirectory (includedPath file path) with
    | some (.file _) => mergeAll s m (.fragment (includedPath file path) :: rest)
    | some (.directory entries) =>
      if isSearchable (includedPath file path) (.directory entries) then
        mergeAll s m ((fragmentsBelow (includedPath file path) (.directory entries)).map Pending.fragment ++ rest)
      else .error (.unsearchable (includedPath file path))
    | none => .error (.includeNotFound path file)
  | .fragment file :: rest =>
    match s.tree.locate s.workingDirectory file with
    | .error .missing => .error (.notFound file)
    | .error _ => .error (.unreadable file)
    | .ok place =>
      if hv : place ∈ m.visited then mergeAll s m rest
      else
        match ha : s.tree.at? place with
        | some (.file text) =>
          match manifestOf file text with
          | .error e => .error e
          | .ok fragment =>
            match hm : mergeOne m place file fragment with
            | .error e => .error e
            | .ok merged => mergeAll s merged (fragment.includes.map (Pending.inclusion file) ++ rest)
        | _ => .error (.unreadable file)
termination_by ((Reach.unseen s.tree.files m.visited).length, inclusions pending, pending.length)
decreasing_by
  · exact Prod.Lex.right _ (Prod.Lex.left _ _ (by simp [inclusions]))
  · exact Prod.Lex.right _ (Prod.Lex.left _ _ (by rw [inclusions_fragments]; simp [inclusions]))
  · exact Prod.Lex.right _ (by simp [inclusions, Prod.lex_def])
  · refine Prod.Lex.left _ _ ?_
    have : merged.visited = place :: m.visited := by
      unfold mergeOne at hm
      split at hm
      · simp at hm
      · simp only [Except.ok.injEq] at hm
        rw [← hm]
    rw [this]
    exact Reach.unseen_cons_lt (FileTree.mem_files_of_at? ha) hv

/-- A manifest with all its fragments, and the fragments in the order in which they were merged. -/
def loadTree (s : Surroundings) (file : String) : Except LoadError (Manifest × List String) := do
  let manifest ← s.readManifest file
  let place ←
    match s.tree.locate s.workingDirectory file with
    | .ok place => pure place
    | .error _ => throw (.notFound file)
  let merged ← s.mergeAll { manifest, visited := [place] } (manifest.includes.map (Pending.inclusion file))
  return (merged.manifest, merged.latestFirst.reverse)

/-- The paths that merging goes to from a path: what the file there includes, or the fragments below the directory. -/
def onward (s : Surroundings) (path : String) : List String :=
  match s.tree.find? s.workingDirectory path with
  | some (.file text) =>
    match manifestOf path text with
    | .ok manifest => manifest.includes.map (includedPath path)
    | .error _ => []
  | some (.directory entries) => fragmentsBelow path (.directory entries)
  | none => []

/-! ### Settings -/

/-- The settings of the user; a file that is not there sets nothing. -/
def loadUser (s : Surroundings) : Except LoadError UserSettings :=
  match s.userFile with
  | none => .ok {}
  | some file =>
    match s.tree.read s.workingDirectory file with
    | .content text => UserSettings.ofText file text
    | .missing => .ok {}
    | .unreadable => if (s.tree.find? s.workingDirectory file).isSome then .error (.unreadable file) else .ok {}

/-! ### Loading a run -/

/-- Loads the manifest at a path. -/
def load (s : Surroundings) (file : String) : Except LoadError Loaded := do
  let (manifest, fragments) ← s.loadTree file
  let user ← s.loadUser
  let settings ← (RunSettings.ofFiles user manifest).withEnvironment s.environment
  return {
    manifest, user
    rootDirectory := (Text.Path.parent? file).getD ""
    manifestPath := file
    fragments, settings }

/-- The paths that the manifest of a directory may have, the nearest first. -/
def manifestCandidates (directory : String) : List String :=
  (Text.Path.ancestors directory).map (fun d => Text.Path.join d manifestFileName)

/-- The manifest in a directory or in the nearest one above it. -/
def findManifest (s : Surroundings) (directory : String) : Except LoadError String :=
  match (manifestCandidates directory).find? (s.tree.isFile s.workingDirectory) with
  | some file => .ok file
  | none => .error (.notFound (Text.Path.join directory manifestFileName))

/-- Loads the manifest in a directory or in the nearest one above it. -/
def loadFrom (s : Surroundings) (directory : String) : Except LoadError Loaded := do
  let file ← s.findManifest directory
  s.load file

end Surroundings

end BuildPlan
