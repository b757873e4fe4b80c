import BuildPlan.Text.Digits

/-!
# Lexemes of TOML

A TOML text is cut into lexemes: marks, line ends, words and quoted texts. Comments are dropped; a lexeme keeps the blanks
between the one before it and itself. A word is a longest run of the characters of bare keys, numbers and dates; what it
means depends on where it stands.

The text is taken character by character, with a mode that says what the characters read so far have begun.
-/

namespace BuildPlan.Toml

/-- The two ways to quote a text: with escapes, or as it is. -/
inductive Quote
  | double
  | single
  deriving DecidableEq

/-- The character of a quote. -/
def Quote.mark : Quote → Char
  | double => '"'
  | single => '\''

/-- A piece of a text. -/
inductive Token
  | lineEnd
  /-- One of the marks `=`, `,`, `.`, `[`, `]` and the two braces. -/
  | mark (c : Char)
  | word (s : String)
  /-- A quoted text, with one mark on each side or with three. -/
  | text (s : String) (triple : Bool)
  deriving DecidableEq

/-- A token, and the blanks between the one before it and itself. -/
structure Lexeme where
  token : Token
  gap : String
  deriving DecidableEq

namespace Lexeme

/-- Whether a lexeme follows the one before it without a blank. -/
def isGlued (l : Lexeme) : Bool := l.gap.isEmpty

/-- The characters of quoted texts and comments, the marks of quotes among them. -/
def isPlainChar (c : Char) : Bool := c == '\t' || (0x20 ≤ c.toNat && c.toNat != 0x7F)

/-- The blanks within a line. -/
def isGap (c : Char) : Bool := c == ' ' || c == '\t'

/-- The characters of words. -/
def isWordChar (c : Char) : Bool := c.isAlphanum || c == '_' || c == '-' || c == '+' || c == ':'

/-- The marks. -/
def isMark (c : Char) : Bool := ['=', ',', '.', '[', ']', '\x7b', '\x7d'].contains c

/-- The character that a backslash and a letter stand for. -/
def unescape? : Char → Option Char
  | 'b' => some '\x08'
  | 't' => some '\t'
  | 'n' => some '\n'
  | 'f' => some '\x0c'
  | 'r' => some '\r'
  | '"' => some '"'
  | '\\' => some '\\'
  | _ => none

/-- The character of a code point, if there is one. -/
def charOf? (n : Nat) : Option Char := if n.isValidChar then some (Char.ofNat n) else none

/-- What the characters read so far have begun, and the blanks before that. Characters of words and texts are kept latest
first. -/
inductive Mode
  /-- Nothing: the next character starts a lexeme. -/
  | between (gap : String)
  | word (read : List Char) (gap : String)
  | comment
  /-- A carriage return, which a line feed must follow. -/
  | carriage
  /-- One mark of a quote, or two. -/
  | opening (q : Quote) (two : Bool) (gap : String)
  /-- A text between single marks. -/
  | line (q : Quote) (read : List Char) (gap : String)
  /-- The place after three opening marks, where a line end is dropped. -/
  | blockStart (q : Quote) (gap : String)
  /-- A text between triple marks, with some marks in a row that may end it. -/
  | block (q : Quote) (read : List Char) (marks : Nat) (gap : String)
  /-- A carriage return in such a text; `drop` says that the line end is no part of the text. -/
  | blockCarriage (q : Quote) (read : List Char) (drop : Bool) (gap : String)
  /-- A backslash. -/
  | escape (triple : Bool) (read : List Char) (gap : String)
  /-- The digits of an escape, of which some are missing. -/
  | hex (triple : Bool) (read : List Char) (missing value : Nat) (gap : String)
  /-- A backslash at the end of a line, before or after the line end: blanks and further line ends are dropped. -/
  | joining (read : List Char) (lineEnded : Bool) (gap : String)
  /-- A carriage return at such a place. -/
  | joiningCarriage (read : List Char) (gap : String)

/-- A state of the lexer. -/
structure Machine where
  /-- The lexemes that are complete, latest first. -/
  done : List Lexeme := []
  mode : Mode := .between ""

namespace Machine

/-- The text of some characters, latest first. -/
def textOf (read : List Char) : String := String.ofList read.reverse

/-- One more lexeme is complete, and no blank is read after it. -/
def emit (m : Machine) (token : Token) (gap : String) : Machine := ⟨⟨token, gap⟩ :: m.done, .between ""⟩

/-- The mode of a quoted text with some characters read. -/
def textMode (triple : Bool) (read : List Char) (gap : String) : Mode :=
  if triple then .block .double read 0 gap else .line .double read gap

/-- The first character of a lexeme, or one between lexemes. -/
def stepBetween (m : Machine) (gap : String) (c : Char) : Option Machine :=
  if isGap c then some { m with mode := .between (gap.push c) }
  else if c == '\n' then some (m.emit .lineEnd gap)
  else if c == '\r' then some { m with mode := .carriage }
  else if c == '#' then some { m with mode := .comment }
  else if c == '"' then some { m with mode := .opening .double false gap }
  else if c == '\'' then some { m with mode := .opening .single false gap }
  else if isMark c then some (m.emit (.mark c) gap)
  else if isWordChar c then some { m with mode := .word [c] gap }
  else none

/-- A character of a text between single marks. -/
def stepLine (m : Machine) (q : Quote) (read : List Char) (gap : String) (c : Char) : Option Machine :=
  if c == q.mark then some (m.emit (.text (textOf read) false) gap)
  else if q = .double ∧ c = '\\' then some { m with mode := .escape false read gap }
  else if isPlainChar c then some { m with mode := .line q (c :: read) gap }
  else none

/-- A character of a text between triple marks that is none of its marks. -/
def stepBlock (m : Machine) (q : Quote) (read : List Char) (gap : String) (c : Char) : Option Machine :=
  if q = .double ∧ c = '\\' then some { m with mode := .escape true read gap }
  else if c == '\n' then some { m with mode := .block q ('\n' :: read) 0 gap }
  else if c == '\r' then some { m with mode := .blockCarriage q read false gap }
  else if isPlainChar c then some { m with mode := .block q (c :: read) 0 gap }
  else none

/-- Some marks in a row and some characters before them. -/
def withMarks (q : Quote) (marks : Nat) (read : List Char) : List Char := List.replicate marks q.mark ++ read

/-- One more mark, or another character, in a text between triple marks. Three marks in a row end the text; up to two more
before them belong to it. -/
def stepMarks (m : Machine) (q : Quote) (read : List Char) (marks : Nat) (gap : String) (c : Char) : Option Machine :=
  if c == q.mark then
    if marks < 5 then some { m with mode := .block q read (marks + 1) gap } else none
  else if marks < 3 then stepBlock m q (withMarks q marks read) gap c
  else stepBetween (m.emit (.text (textOf (withMarks q (marks - 3) read)) true) gap) "" c

/-- The letter of an escape. -/
def stepEscape (m : Machine) (triple : Bool) (read : List Char) (gap : String) (c : Char) : Option Machine :=
  if c == 'u' then some { m with mode := .hex triple read 4 0 gap }
  else if c == 'U' then some { m with mode := .hex triple read 8 0 gap }
  else if triple && isGap c then some { m with mode := .joining read false gap }
  else if triple && c == '\n' then some { m with mode := .joining read true gap }
  else if triple && c == '\r' then some { m with mode := .joiningCarriage read gap }
  else (unescape? c).map (fun d => { m with mode := textMode triple (d :: read) gap })

/-- A digit of an escape. -/
def stepHex (m : Machine) (triple : Bool) (read : List Char) (missing value : Nat) (gap : String) (c : Char) :
    Option Machine := do
  let d ← Text.digitValue? c
  if missing ≤ 1 then
    let e ← charOf? (16 * value + d)
    return { m with mode := textMode triple (e :: read) gap }
  else return { m with mode := .hex triple read (missing - 1) (16 * value + d) gap }

/-- A character after a backslash at the end of a line. -/
def stepJoining (m : Machine) (read : List Char) (lineEnded : Bool) (gap : String) (c : Char) : Option Machine :=
  if isGap c then some { m with mode := .joining read lineEnded gap }
  else if c == '\n' then some { m with mode := .joining read true gap }
  else if c == '\r' then some { m with mode := .joiningCarriage read gap }
  else if lineEnded then stepMarks m .double read 0 gap c
  else none

/-- The character after one mark of a quote, or after two. Two marks and no third are an empty text. -/
def stepOpening (m : Machine) (q : Quote) (two : Bool) (gap : String) (c : Char) : Option Machine :=
  if c == q.mark then some { m with mode := if two then .blockStart q gap else .opening q true gap }
  else if two then stepBetween (m.emit (.text "" false) gap) "" c
  else stepLine m q [] gap c

/-- The lexer after one more character, unless no text goes on like this. -/
def step (m : Machine) (c : Char) : Option Machine :=
  match m.mode with
  | .between gap => stepBetween m gap c
  | .word read gap =>
    if isWordChar c then some { m with mode := .word (c :: read) gap }
    else stepBetween (m.emit (.word (textOf read)) gap) "" c
  | .comment =>
    if c == '\n' then some (m.emit .lineEnd "")
    else if c == '\r' then some { m with mode := .carriage }
    else if isPlainChar c then some m
    else none
  | .carriage => if c == '\n' then some (m.emit .lineEnd "") else none
  | .opening q two gap => stepOpening m q two gap c
  | .line q read gap => stepLine m q read gap c
  | .blockStart q gap =>
    if c == '\n' then some { m with mode := .block q [] 0 gap }
    else if c == '\r' then some { m with mode := .blockCarriage q [] true gap }
    else stepMarks m q [] 0 gap c
  | .block q read marks gap => stepMarks m q read marks gap c
  | .blockCarriage q read drop gap =>
    if c == '\n' then some { m with mode := .block q (if drop then read else '\n' :: read) 0 gap } else none
  | .escape triple read gap => stepEscape m triple read gap c
  | .hex triple read missing value gap => stepHex m triple read missing value gap c
  | .joining read lineEnded gap => stepJoining m read lineEnded gap c
  | .joiningCarriage read gap => if c == '\n' then some { m with mode := .joining read true gap } else none

/-- The lexemes when the text ends. -/
def lexemes? (m : Machine) : Option (List Lexeme) :=
  match m.mode with
  | .between _ => some m.done.reverse
  | .comment => some m.done.reverse
  | .word read gap => some (m.emit (.word (textOf read)) gap).done.reverse
  | .opening _ true gap => some (m.emit (.text "" false) gap).done.reverse
  | .block q read marks gap =>
    if marks < 3 then none
    else some (m.emit (.text (textOf (withMarks q (marks - 3) read)) true) gap).done.reverse
  | _ => none

end Machine

/-- The characters of a text without a byte order mark in front. -/
def withoutOrderMark : List Char → List Char
  | '\ufeff' :: cs => cs
  | cs => cs

/-- The lexemes of a text, or nothing if it cannot be cut. -/
def ofText? (s : String) : Option (List Lexeme) :=
  ((withoutOrderMark s.toList).foldlM Machine.step {}).bind Machine.lexemes?

end Lexeme

end BuildPlan.Toml
