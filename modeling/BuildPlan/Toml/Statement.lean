import BuildPlan.Toml.Lexeme
import BuildPlan.Toml.Scalar
import BuildPlan.Toml.Tree

/-!
# Statements of TOML

A TOML text is a list of statements: keys with their values, and headers, which say what table the keys after them belong
to. The reader takes the text lexeme by lexeme. It keeps the values that are open, the innermost first, and a mode that
says what may come next. How deep values nest and how many parts a key has is limited.
-/

namespace BuildPlan.Toml

/-- A line of a TOML text, or several lines if its value goes on over line ends. -/
inductive Statement
  /-- A dotted key and its value. -/
  | entry (key : List String) (v : Toml)
  /-- The header of a table. -/
  | header (key : List String)
  /-- The header of one more table of an array of tables. -/
  | itemHeader (key : List String)

/-! ### Keys -/

/-- Whether a word can be a key without quotes. -/
def isBareKey (s : String) : Bool := s.toList.all (fun c => c.isAlphanum || c == '_' || c == '-')

/-- The part of a key that a token writes. -/
def keyPart? : Token → Option String
  | .word s => if isBareKey s then some s else none
  | .text s false => some s
  | _ => none

/-! ### The reader -/

namespace Statement

/-- A value that is open. Parts of a key, items and members are kept latest first. -/
inductive Frame
  /-- The value of a statement is to come. -/
  | entry (key : List String)
  | array (items : List Toml)
  /-- A table written as a value, between two members. -/
  | table (members : List (List String × Toml))
  /-- Such a table with the value of a member still to come. -/
  | member (members : List (List String × Toml)) (key : List String)

/-- What may come next. Parts of a key are kept latest first. -/
inductive Mode
  /-- A statement or a line end. -/
  | line
  /-- The end of the line. -/
  | lineEnd
  /-- After the bracket of a header: the second bracket of an item header, or a part of the key. -/
  | headerStart
  /-- A part of the key of a header. -/
  | header (item : Bool) (key : List String)
  /-- A dot, or the end of a header. -/
  | headerNext (item : Bool) (key : List String)
  /-- The second bracket at the end of an item header. -/
  | headerClose (key : List String)
  /-- A part of the key of a value. -/
  | key (key : List String)
  /-- The key of the first member of a table written as a value, or the end of this table. -/
  | firstKey
  /-- A dot, or the equals sign after a key. -/
  | keyNext (key : List String)
  /-- A value. -/
  | value
  /-- More of a scalar: words and dots that belong to it, with the blanks between them. -/
  | scalar (read : String)
  /-- An item of an array, or the end of the array. -/
  | item
  /-- A comma, or the end of the innermost array or table. -/
  | separator
  deriving DecidableEq

/-- Arrays and tables that are written as values nest less deep than this, and a key has fewer parts. -/
def depthLimit : Nat := 80

/-- A state of the reader. -/
structure Machine where
  /-- The statements that are complete, latest first. -/
  done : List Statement := []
  frames : List Frame := []
  mode : Mode := .line

namespace Machine

/-- One more statement is complete. -/
def emit (m : Machine) (s : Statement) : Machine := ⟨s :: m.done, [], .lineEnd⟩

/-- A value is complete: it goes into the innermost frame. -/
def complete (m : Machine) (frames : List Frame) (v : Toml) : Option Machine :=
  match frames with
  | .entry key :: _ => some (m.emit (.entry key.reverse v))
  | .array items :: rest => some ⟨m.done, .array (v :: items) :: rest, .separator⟩
  | .member members key :: rest => some ⟨m.done, .table ((key.reverse, v) :: members) :: rest, .separator⟩
  | _ => none

/-- The end of an array or of a table written as a value. -/
def close (m : Machine) (c : Char) : Option Machine :=
  match m.frames, c with
  | .array items :: rest, ']' => m.complete rest (arr items.reverse)
  | .table members :: rest, '\x7d' => (inlineTable? members.reverse).bind (m.complete rest)
  | _, _ => none

/-- The first token of an array or of a table written as a value. Below the open ones lies the frame of the statement. -/
def nest (m : Machine) (frame : Frame) (mode : Mode) : Option Machine :=
  if m.frames.length < depthLimit then some { m with frames := frame :: m.frames, mode } else none

/-- The first token of a value. -/
def openValue (m : Machine) (t : Token) : Option Machine :=
  match t with
  | .word s => some { m with mode := .scalar s }
  | .text s _ => m.complete m.frames (str s)
  | .mark '[' => m.nest (.array []) .item
  | .mark '\x7b' => m.nest (.table []) .firstKey
  | _ => none

/-- The end of a scalar. -/
def closeScalar (m : Machine) (read : String) : Option Machine := (ofScalar? read).bind (m.complete m.frames)

/-- The equals sign after a key: the value of a statement or of a member is to come. -/
def openEntry (m : Machine) (key : List String) : Machine :=
  match m.frames with
  | .table members :: rest => { m with frames := .member members key :: rest, mode := .value }
  | frames => { m with frames := .entry key :: frames, mode := .value }

/-- A token after a value. -/
def separate (m : Machine) (t : Token) : Option Machine :=
  match m.frames, t with
  | .array _ :: _, .lineEnd => some m
  | .array _ :: _, .mark ',' => some { m with mode := .item }
  | .table _ :: _, .mark ',' => some { m with mode := .key [] }
  | _, .mark c => m.close c
  | _, _ => none

/-- A part of a key, after which the mode is `next` of the longer key. -/
def addPart (m : Machine) (t : Token) (key : List String) (next : List String → Mode) : Option Machine :=
  if key.length + 1 < depthLimit then (keyPart? t).map (fun part => { m with mode := next (part :: key) }) else none

/-- A token after a part of the key of a header. -/
def stepHeaderNext (m : Machine) (item : Bool) (key : List String) (t : Token) : Option Machine :=
  match t with
  | .mark '.' => some { m with mode := .header item key }
  | .mark ']' => some (if item then { m with mode := .headerClose key } else m.emit (.header key.reverse))
  | _ => none

/-- A token after a part of the key of a value. -/
def stepKeyNext (m : Machine) (key : List String) (t : Token) : Option Machine :=
  match t with
  | .mark '.' => some { m with mode := .key key }
  | .mark '=' => some (m.openEntry key)
  | _ => none

/-- The first token of a line. -/
def stepLine (m : Machine) (t : Token) : Option Machine :=
  match t with
  | .lineEnd => some m
  | .mark '[' => some { m with mode := .headerStart }
  | t => m.addPart t [] .keyNext

/-- A lexeme that is no part of a scalar. -/
def stepApart (m : Machine) (l : Lexeme) : Option Machine :=
  match m.mode with
  | .line => m.stepLine l.token
  | .lineEnd => if l.token = .lineEnd then some { m with mode := .line } else none
  | .headerStart =>
    if l.token = .mark '[' ∧ l.isGlued then some { m with mode := .header true [] }
    else m.addPart l.token [] (.headerNext false)
  | .header item key => m.addPart l.token key (.headerNext item)
  | .headerNext item key => m.stepHeaderNext item key l.token
  | .headerClose key => if l.token = .mark ']' ∧ l.isGlued then some (m.emit (.itemHeader key.reverse)) else none
  | .key key => m.addPart l.token key .keyNext
  | .firstKey => if l.token = .mark '\x7d' then m.close '\x7d' else m.addPart l.token [] .keyNext
  | .keyNext key => m.stepKeyNext key l.token
  | .value => m.openValue l.token
  | .item =>
    if l.token = .lineEnd then some m else if l.token = .mark ']' then m.close ']' else m.openValue l.token
  | .separator => m.separate l.token
  | .scalar _ => none

/-- A lexeme after a part of a scalar: more of the scalar, or what comes after it. Words and dots always go on with it,
because neither may follow a value that is complete. -/
def stepScalar (m : Machine) (read : String) (l : Lexeme) : Option Machine :=
  match l.token with
  | .word s => some { m with mode := .scalar (read ++ l.gap ++ s) }
  | .mark '.' => some { m with mode := .scalar (read ++ l.gap ++ ".") }
  | _ => (m.closeScalar read).bind (fun m => m.stepApart l)

/-- The reader after one more lexeme, unless no text goes on like this. -/
def step (m : Machine) (l : Lexeme) : Option Machine :=
  match m.mode with
  | .scalar read => m.stepScalar read l
  | _ => m.stepApart l

/-- The reader when the lexemes end: a scalar may end with them. -/
def finish (m : Machine) : Option Machine :=
  match m.mode with
  | .scalar read => m.closeScalar read
  | _ => some m

/-- The statements when the lexemes end. -/
def statements? (m : Machine) : Option (List Statement) :=
  m.finish.bind (fun m => if m.mode = .line ∨ m.mode = .lineEnd then some m.done.reverse else none)

end Machine

/-- The statements of some lexemes. -/
def ofLexemes? (ls : List Lexeme) : Option (List Statement) := (ls.foldlM Machine.step {}).bind Machine.statements?

end Statement

end BuildPlan.Toml
