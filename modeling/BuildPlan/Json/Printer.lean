import BuildPlan.Json
import BuildPlan.Text.Digits

/-!
# JSON texts

Two ways to write a value: `compact` without any blank, on one line, and `pretty` with every item on a line of its own,
indented by two blanks for each level. Both write the members of an object in their order and escape only what a JSON
string cannot hold.
-/

namespace BuildPlan.Json

/-- How a character is written in a string. -/
def escape (c : Char) : List Char :=
  if c = '"' then ['\\', '"']
  else if c = '\\' then ['\\', '\\']
  else if c = '\x08' then ['\\', 'b']
  else if c = '\x0c' then ['\\', 'f']
  else if c = '\n' then ['\\', 'n']
  else if c = '\r' then ['\\', 'r']
  else if c = '\t' then ['\\', 't']
  else if c.toNat < 0x20 then ['\\', 'u'] ++ Text.lastHexDigits 4 c.toNat
  else [c]

/-- A text as a string. -/
def stringChars (s : String) : List Char := '"' :: (s.toList.flatMap escape ++ ['"'])

/-- A number in decimal digits. -/
def intChars : Int → List Char
  | .ofNat n => Nat.toDigits 10 n
  | .negSucc n => '-' :: Nat.toDigits 10 (n + 1)

/-- The characters of a value that holds no other values. -/
def leafChars : Json → List Char
  | null => "null".toList
  | bool true => "true".toList
  | bool false => "false".toList
  | int i => intChars i
  | decimal d => d.toList
  | str s => stringChars s
  | unpaired => "\"\\ud800\"".toList
  | arr _ => []
  | obj _ => []

/-! ### On one line -/

mutual

/-- The characters of a value on one line. -/
def compactChars : Json → List Char
  | arr items => '[' :: (compactItems items ++ [']'])
  | obj members => '\x7b' :: (compactMembers members ++ ['\x7d'])
  | leaf => leafChars leaf

/-- The items of an array with commas between them. -/
def compactItems : List Json → List Char
  | [] => []
  | [j] => compactChars j
  | j :: rest => compactChars j ++ ',' :: compactItems rest

/-- The members of an object with commas between them. -/
def compactMembers : List (String × Json) → List Char
  | [] => []
  | [(k, j)] => stringChars k ++ ':' :: compactChars j
  | (k, j) :: rest => stringChars k ++ ':' :: (compactChars j ++ ',' :: compactMembers rest)

end

/-- The value on one line. -/
def compact (j : Json) : String := String.ofList (compactChars j)

/-! ### With indentation -/

/-- A line break and the indentation of a level. -/
def newLine (level : Nat) : List Char := '\n' :: List.replicate (2 * level) ' '

mutual

/-- The characters of a value at a level of indentation. -/
def prettyChars (level : Nat) : Json → List Char
  | arr [] => ['[', ']']
  | arr (j :: rest) => '[' :: (prettyItems (level + 1) (j :: rest) ++ newLine level ++ [']'])
  | obj [] => ['\x7b', '\x7d']
  | obj (m :: rest) => '\x7b' :: (prettyMembers (level + 1) (m :: rest) ++ newLine level ++ ['\x7d'])
  | leaf => leafChars leaf

/-- The items of an array, each on a line of its own. -/
def prettyItems (level : Nat) : List Json → List Char
  | [] => []
  | [j] => newLine level ++ prettyChars level j
  | j :: rest => newLine level ++ prettyChars level j ++ ',' :: prettyItems level rest

/-- The members of an object, each on a line of its own. -/
def prettyMembers (level : Nat) : List (String × Json) → List Char
  | [] => []
  | [(k, j)] => newLine level ++ stringChars k ++ ':' :: ' ' :: prettyChars level j
  | (k, j) :: rest =>
    newLine level ++ stringChars k ++ ':' :: ' ' :: (prettyChars level j ++ ',' :: prettyMembers level rest)

end

/-- The value with its items on lines of their own. -/
def pretty (j : Json) : String := String.ofList (prettyChars 0 j)

end BuildPlan.Json
