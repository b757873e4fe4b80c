import BuildPlan.Text.Path

/-!
# File trees

A directory with all that is in it, as an immutable value. A place in it is the list of names that lead to it from the
root. A path text is followed from a working directory: `..` leads to the parent, empty steps and single dots stay where
they are, and every step needs a directory to start from. There are no links, so a place is all that tells two files
apart. A path and each of its steps may only be so long.
-/

namespace BuildPlan

/-- A file with its content, or a directory. -/
inductive FileTree
  | file (content : String)
  | directory (entries : List (String × FileTree))
  deriving Inhabited

/-- The names that lead to a file or a directory from the root. -/
abbrev Place := List String

namespace FileTree

/-- The directory without entries. -/
def empty : FileTree := directory []

/-- What is at a place. -/
def at? : FileTree → Place → Option FileTree
  | t, [] => some t
  | file _, _ :: _ => none
  | directory entries, name :: place =>
    match entries.lookup name with
    | none => none
    | some t => t.at? place

mutual

/-- The places of all files. -/
def files : FileTree → List Place
  | file _ => [[]]
  | directory entries => filesOf entries

/-- The places of all files in the entries of a directory. -/
def filesOf : List (String × FileTree) → List Place
  | [] => []
  | (name, t) :: rest => t.files.map (name :: ·) ++ filesOf rest

end

/-- The places of the files of an entry lead through its name. -/
theorem mem_filesOf {entries : List (String × FileTree)} {name : String} {t : FileTree} {place : Place}
    (hl : entries.lookup name = some t) (hp : place ∈ t.files) : name :: place ∈ filesOf entries := by
  induction entries with
  | nil => simp at hl
  | cons e rest ih =>
    obtain ⟨n, u⟩ := e
    rw [filesOf, List.mem_append]
    rw [List.lookup_cons] at hl
    by_cases h : name == n
    · simp only [h, Option.some.injEq] at hl
      subst hl
      exact Or.inl (List.mem_map.mpr ⟨place, hp, by rw [eq_of_beq h]⟩)
    · simp only [h] at hl
      exact Or.inr (ih hl)

/-- The place of a file is one of the places of files. -/
theorem mem_files_of_at? {t : FileTree} {place : Place} {content : String} (h : t.at? place = some (file content)) :
    place ∈ t.files := by
  induction place generalizing t with
  | nil =>
    cases t with
    | file c => simp [files]
    | directory entries => simp [at?] at h
  | cons name place ih =>
    cases t with
    | file c => simp [at?] at h
    | directory entries =>
      rw [at?] at h
      split at h
      · simp at h
      · next u hu =>
        rw [files]
        exact mem_filesOf hu (ih h)

mutual

/-- The places of all directories, that of the tree itself among them. -/
def directories : FileTree → List Place
  | file _ => []
  | directory entries => [] :: directoriesOf entries

/-- The places of all directories in the entries of a directory. -/
def directoriesOf : List (String × FileTree) → List Place
  | [] => []
  | (name, t) :: rest => t.directories.map (name :: ·) ++ directoriesOf rest

end

/-! ### Following paths -/

/-- Why a path leads nowhere. -/
inductive PathFault
  /-- Nothing has this name. -/
  | missing
  /-- A step starts from something that is no directory. -/
  | notDirectory
  /-- The path or a step of it is none that a name could be given by: it is too long or holds a null character. -/
  | unusable
  deriving DecidableEq

/-- A path has fewer bytes than this. -/
def pathLimit : Nat := 4096

/-- A name has at most this many bytes. -/
def nameLimit : Nat := 255

/-- Whether a path can be looked up at all. -/
def isUsablePath (path : String) : Bool := path.utf8ByteSize < pathLimit && !path.toList.contains '\x00'

/-- Follows steps from a place. -/
def follow (root : FileTree) (place : Place) : List String → Except PathFault Place
  | [] => .ok place
  | step :: rest =>
    match root.at? place with
    | some (directory entries) =>
      if step = "" ∨ step = "." then follow root place rest
      else if step = ".." then follow root place.dropLast rest
      else if nameLimit < step.utf8ByteSize then .error .unusable
      else if (entries.lookup step).isSome then follow root (place ++ [step]) rest
      else .error .missing
    | some (file _) => .error .notDirectory
    | none => .error .missing

/-- The place that a path leads to, seen from a working directory. The empty path leads nowhere. -/
def locate (root : FileTree) (workingDirectory : Place) (path : String) : Except PathFault Place :=
  if path = "" then .error .missing
  else if !isUsablePath path then .error .unusable
  else follow root (if Text.Path.isAbsolute path then [] else workingDirectory) (Text.Path.segments path)

/-- What a path leads to. -/
def find? (root : FileTree) (workingDirectory : Place) (path : String) : Option FileTree :=
  match root.locate workingDirectory path with
  | .ok place => root.at? place
  | .error _ => none

/-- Whether a path leads to a file. -/
def isFile (root : FileTree) (workingDirectory : Place) (path : String) : Bool :=
  match root.find? workingDirectory path with
  | some (file _) => true
  | _ => false

/-- What comes of reading a path. -/
inductive Reading
  | content (text : String)
  | missing
  /-- It is a directory, or the path has another fault. -/
  | unreadable
  deriving DecidableEq

/-- Reads the file that a path leads to. -/
def read (root : FileTree) (workingDirectory : Place) (path : String) : Reading :=
  match root.locate workingDirectory path with
  | .error .missing => .missing
  | .error _ => .unreadable
  | .ok place =>
    match root.at? place with
    | some (file text) => .content text
    | _ => .unreadable

/-! ### Writing -/

/-- The entries with another tree for a name, in the place of the old one if there is one. -/
def putEntry (entries : List (String × FileTree)) (name : String) (t : FileTree) : List (String × FileTree) :=
  match entries with
  | [] => [(name, t)]
  | e :: rest => if e.1 = name then (name, t) :: rest else e :: putEntry rest name t

/-- The tree with a file or a directory at a place; directories that are missing on the way are made. Nothing changes if
something on the way is a file. -/
def put (new : FileTree) : Place → FileTree → FileTree
  | [], _ => new
  | _ :: _, file content => file content
  | name :: place, directory entries =>
    directory (putEntry entries name (put new place ((entries.lookup name).getD empty)))

/-- The tree with a directory at a place, unless there is something already. -/
def makeDirectory (t : FileTree) (place : Place) : FileTree := if (t.at? place).isSome then t else put empty place t

/-- The tree with a file written to a path. The directory must exist, and the path must not lead to a directory. -/
def write? (root : FileTree) (workingDirectory : Place) (path content : String) : Option FileTree :=
  match root.locate workingDirectory path with
  | .ok place =>
    match root.at? place with
    | some (file _) => some (put (file content) place root)
    | _ => none
  | .error .notDirectory => none
  | .error .unusable => none
  | .error .missing =>
    match (Text.Path.segments path).reverse with
    | [] => none
    | name :: stepsRev =>
      let start := if Text.Path.isAbsolute path then [] else workingDirectory
      match follow root start stepsRev.reverse with
      | .error _ => none
      | .ok parent =>
        if name = "" ∨ name = "." ∨ name = ".." then none
        else some (put (file content) (parent ++ [name]) root)

end FileTree

end BuildPlan
