/-!
# Path texts

Paths with `/` between their segments, as texts. Joining, the parent and the last name of a path look at the text alone;
whether anything exists there is the business of `FileTree`.
-/

namespace BuildPlan.Text.Path

/-- A path from the root of the tree. -/
def isAbsolute (p : String) : Bool := p.toList.head? == some '/'

/-- `p` seen from `base`: an absolute `p` stands alone, otherwise one separator is put between unless `base` is empty or
ends with one. -/
def join (base p : String) : String :=
  if isAbsolute p then p
  else if base.isEmpty || base.toList.getLast? == some '/' then base ++ p
  else base ++ "/" ++ p

/-- The texts between the separators, the empty ones included. -/
def splitSlash : List Char → List (List Char)
  | [] => [[]]
  | c :: cs =>
    match splitSlash cs with
    | [] => [[c]]
    | s :: rest => if c = '/' then [] :: s :: rest else (c :: s) :: rest

/-- The segments of a path in order, the empty ones included. -/
def segments (p : String) : List String := (splitSlash p.toList).map String.ofList

/-- A segment that stands for no step: nothing between two separators, or a single dot. -/
def isIdle (segment : List Char) : Bool := segment == [] || segment == ['.']

/-- The segments of a relative path, last first, without the idle ones at the end of the path; a dot in front is a step of
its own. -/
def dropIdleEnd (segmentsRev : List (List Char)) : List (List Char) :=
  match segmentsRev with
  | [] => []
  | [s] => if s == [] then [] else [s]
  | s :: rest => if isIdle s then dropIdleEnd rest else s :: rest

/-- The texts put together again with separators. -/
def joinSlash : List (List Char) → List Char
  | [] => []
  | [s] => s
  | s :: rest => s ++ '/' :: joinSlash rest

/-- The segments of a relative path, last first, without idle ones at the end. An absolute path is given without its first
separator, and none of its segments is kept for being first. -/
def stepsRev (p : String) : List (List Char) :=
  match p.toList with
  | '/' :: cs => (splitSlash cs).reverse.dropWhile isIdle
  | cs => dropIdleEnd (splitSlash cs).reverse

/-- The path without its last step, or nothing for the root and the empty path. -/
def parent? (p : String) : Option String :=
  match stepsRev p with
  | [] => none
  | _ :: rest =>
    if isAbsolute p then some (String.ofList ('/' :: joinSlash (rest.dropWhile isIdle).reverse))
    else some (String.ofList (joinSlash (dropIdleEnd rest).reverse))

/-- The last step of a path when it is a name and not `.` or `..`. -/
def fileName? (p : String) : Option String :=
  match stepsRev p with
  | [] => none
  | last :: _ => if last == ['.'] || last == ['.', '.'] then none else some (String.ofList last)

/-- A path and those above it, as far as a number of steps goes. -/
def ancestorsWithin : Nat → String → List String
  | 0, p => [p]
  | steps + 1, p =>
    match parent? p with
    | none => [p]
    | some q => p :: ancestorsWithin steps q

/-- A path and all paths above it, the nearest first. There are no more of them than the path has segments. -/
def ancestors (p : String) : List String := ancestorsWithin (segments p).length p

end BuildPlan.Text.Path
