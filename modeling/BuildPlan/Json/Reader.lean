import BuildPlan.Json
import BuildPlan.Text.Digits

/-!
# Reading JSON texts

The reader takes a text character by character. It keeps the arrays and objects that are open, the innermost first, and
a mode that says what may come next. A text is read when its last character leaves no frame open and one value done.
-/

namespace BuildPlan.Json

/-! ### Numbers and texts -/

/-- Digits without a superfluous zero in front. -/
def isWholePart (ds : List Char) : Bool :=
  match ds with
  | [] => false
  | ['0'] => true
  | d :: _ => d != '0' && ds.all Char.isDigit

/-- One digit or more. -/
def isDigits (ds : List Char) : Bool := !ds.isEmpty && ds.all Char.isDigit

/-- Whether characters form an exponent: `e` or `E`, perhaps a sign, and digits. -/
def isExponent : List Char → Bool
  | e :: '+' :: ds => (e == 'e' || e == 'E') && isDigits ds
  | e :: '-' :: ds => (e == 'e' || e == 'E') && isDigits ds
  | e :: ds => (e == 'e' || e == 'E') && isDigits ds
  | [] => false

/-- Whether characters can follow the whole part of a decimal number: a fraction, an exponent, or both. -/
def isDecimalTail : List Char → Bool
  | '.' :: cs =>
    let (fraction, rest) := cs.span Char.isDigit
    !fraction.isEmpty && (rest.isEmpty || isExponent rest)
  | cs => isExponent cs

/-- The number that some characters write. -/
def readNumber? (cs : List Char) : Option Json :=
  let (negative, body) := match cs with
    | '-' :: rest => (true, rest)
    | rest => (false, rest)
  let (whole, tail) := body.span Char.isDigit
  if !isWholePart whole then none
  else if tail.isEmpty then
    if !negative then some (int (Text.digitsValue 10 whole))
    else if whole = ['0'] then some (decimal "-0")
    else some (int (-(Text.digitsValue 10 whole : Int)))
  else if isDecimalTail tail then some (decimal (String.ofList cs))
  else none

/-- The text of some code units: a high surrogate and the low one after it are one character. There is no text if a
surrogate stands alone. -/
def textOfUnits? : List Nat → Option (List Char)
  | [] => some []
  | u :: rest =>
    if 0xD800 ≤ u ∧ u < 0xDC00 then
      match rest with
      | v :: rest' =>
        if 0xDC00 ≤ v ∧ v < 0xE000 then
          (textOfUnits? rest').map (Char.ofNat (0x10000 + (u - 0xD800) * 0x400 + (v - 0xDC00)) :: ·)
        else none
      | [] => none
    else if 0xDC00 ≤ u ∧ u < 0xE000 then none
    else (textOfUnits? rest).map (Char.ofNat u :: ·)

/-- The character that a backslash and a letter stand for. -/
def unescape? : Char → Option Char
  | '"' => some '"'
  | '\\' => some '\\'
  | '/' => some '/'
  | 'b' => some '\x08'
  | 'f' => some '\x0c'
  | 'n' => some '\n'
  | 'r' => some '\r'
  | 't' => some '\t'
  | _ => none

/-! ### The machine -/

/-- An array or an object that is open. Items and members are kept latest first; a name that is no text is absent. -/
inductive Frame
  | array (items : List Json)
  /-- An object between two members. -/
  | object (members : List (Option String × Json))
  /-- An object with the value of a member still to come. -/
  | member (members : List (Option String × Json)) (name : Option String)

/-- What may come next. Code units are kept latest first. -/
inductive Mode
  /-- A value. -/
  | value
  /-- A value, or the end of the array that was just opened. -/
  | firstItem
  /-- The name of a member. -/
  | name
  /-- The name of a member, or the end of the object that was just opened. -/
  | firstName
  /-- The colon after a name. -/
  | colon
  /-- A comma, or the end of the innermost array or object. -/
  | separator
  /-- Nothing but blanks: the text is read. -/
  | finished (j : Json)
  /-- More of a string. -/
  | text (units : List Nat)
  /-- The letter of an escape. -/
  | escape (units : List Nat)
  /-- The hexadecimal digits of an escape, of which some are read. -/
  | hex (units : List Nat) (missing value : Nat)
  /-- More of a number. -/
  | number (read : List Char)
  /-- The rest of `null`, `true` or `false`. -/
  | word (rest : List Char) (j : Json)

/-- A state of the reader. -/
structure Machine where
  /-- What is open, the innermost first. -/
  frames : List Frame := []
  mode : Mode := .value

/-- The members of an object as a value. -/
def ofMembers (members : List (Option String × Json)) : Json :=
  match members.mapM (fun m => m.1.map (·, m.2)) with
  | some ms => obj ms
  | none => unpaired

/-- The characters that may stand between the parts of a text. -/
def isGap (c : Char) : Bool := c == ' ' || c == '\t' || c == '\n' || c == '\r'

/-- The characters of which numbers are made. -/
def isNumberChar (c : Char) : Bool := c.isDigit || c == '+' || c == '-' || c == '.' || c == 'e' || c == 'E'

namespace Machine

/-- A value is complete: it goes into the innermost frame. -/
def complete (frames : List Frame) (j : Json) : Machine :=
  match frames with
  | [] => ⟨[], .finished j⟩
  | .array items :: rest => ⟨.array (j :: items) :: rest, .separator⟩
  | .object members :: rest => ⟨.object members :: rest, .separator⟩
  | .member members name :: rest => ⟨.object ((name, j) :: members) :: rest, .separator⟩

/-- A string is complete: it is the name of a member if the innermost frame waits for one, else a value. -/
def completeText (frames : List Frame) (units : List Nat) : Machine :=
  let text := (textOfUnits? units.reverse).map String.ofList
  match frames with
  | .object members :: rest => ⟨.member members text :: rest, .colon⟩
  | _ => complete frames ((text.map str).getD unpaired)

/-- The end of an array or an object. -/
def close (frames : List Frame) (c : Char) : Option Machine :=
  match frames, c with
  | .array items :: rest, ']' => some (complete rest (arr items.reverse))
  | .object members :: rest, '\x7d' => some (complete rest (ofMembers members.reverse))
  | _, _ => none

/-- The first character of a value. -/
def openValue (frames : List Frame) (c : Char) : Option Machine :=
  match c with
  | '[' => some ⟨.array [] :: frames, .firstItem⟩
  | '\x7b' => some ⟨.object [] :: frames, .firstName⟩
  | '"' => some ⟨frames, .text []⟩
  | 'n' => some ⟨frames, .word ['u', 'l', 'l'] null⟩
  | 't' => some ⟨frames, .word ['r', 'u', 'e'] (bool true)⟩
  | 'f' => some ⟨frames, .word ['a', 'l', 's', 'e'] (bool false)⟩
  | c => if c == '-' || c.isDigit then some ⟨frames, .number [c]⟩ else none

/-- A character after a value. -/
def separate (frames : List Frame) (c : Char) : Option Machine :=
  if isGap c then some ⟨frames, .separator⟩
  else
    match frames, c with
    | .array _ :: _, ',' => some ⟨frames, .value⟩
    | .object _ :: _, ',' => some ⟨frames, .name⟩
    | _, _ => close frames c

/-- A character of a string that is neither its end nor an escape. -/
def stepText (frames : List Frame) (units : List Nat) (c : Char) : Option Machine :=
  if c.toNat < 0x20 then none else some ⟨frames, .text (c.toNat :: units)⟩

/-- A character after a value: blanks may follow the text as a whole. -/
def stepAfter (m : Machine) (c : Char) : Option Machine :=
  match m.mode with
  | .finished j => if isGap c then some ⟨m.frames, .finished j⟩ else none
  | _ => separate m.frames c

/-- The reader after one more character, unless no text goes on like this. -/
def step (m : Machine) (c : Char) : Option Machine :=
  match m.mode with
  | .value => if isGap c then some m else openValue m.frames c
  | .firstItem => if isGap c then some m else if c == ']' then close m.frames c else openValue m.frames c
  | .name => if isGap c then some m else if c == '"' then some ⟨m.frames, .text []⟩ else none
  | .firstName =>
    if isGap c then some m
    else if c == '\x7d' then close m.frames c
    else if c == '"' then some ⟨m.frames, .text []⟩
    else none
  | .colon => if isGap c then some m else if c == ':' then some ⟨m.frames, .value⟩ else none
  | .separator => separate m.frames c
  | .finished _ => stepAfter m c
  | .text units =>
    if c == '"' then some (completeText m.frames units)
    else if c == '\\' then some ⟨m.frames, .escape units⟩
    else stepText m.frames units c
  | .escape units =>
    if c == 'u' then some ⟨m.frames, .hex units 4 0⟩
    else (unescape? c).map (fun d => ⟨m.frames, .text (d.toNat :: units)⟩)
  | .hex units missing value =>
    (Text.digitValue? c).map fun d =>
      if missing ≤ 1 then ⟨m.frames, .text ((16 * value + d) :: units)⟩
      else ⟨m.frames, .hex units (missing - 1) (16 * value + d)⟩
  | .number read =>
    if isNumberChar c then some ⟨m.frames, .number (c :: read)⟩
    else (readNumber? read.reverse).bind (fun j => stepAfter (complete m.frames j) c)
  | .word rest j =>
    match rest with
    | [] => none
    | [d] => if c == d then some (complete m.frames j) else none
    | d :: more => if c == d then some ⟨m.frames, .word more j⟩ else none

/-- The value that was read when the text ends. -/
def result? (m : Machine) : Option Json :=
  match m.frames, m.mode with
  | [], .finished j => some j
  | [], .number read => readNumber? read.reverse
  | _, _ => none

end Machine

/-- The value of a text, or nothing if the text is not JSON. -/
def ofText? (s : String) : Option Json := (s.toList.foldlM Machine.step {}).bind Machine.result?

end BuildPlan.Json
