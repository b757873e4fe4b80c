/-!
# Names that ignore case

Names of platforms, kinds and flags are compared without regard to case. `lower` is for comparing with a name written in
ASCII lowercase: it lowers exactly the characters whose Unicode lowercase is one ASCII letter. Every other character has
a lowercase that no ASCII name contains, so leaving it as it is gives the same verdict.
-/

namespace BuildPlan.Text

/-- The lowercase of an ASCII capital; of the other characters only the Kelvin sign has an ASCII lowercase. -/
def lowerChar (c : Char) : Char := if c.toNat = 0x212A then 'k' else c.toLower

/-- The text with every character lowered that has an ASCII lowercase. -/
def lower (s : String) : String := String.ofList (s.toList.map lowerChar)

/-- Equality of two names up to the case of their ASCII letters. -/
def sameAsciiName (a b : String) : Bool := a.toList.map Char.toLower == b.toList.map Char.toLower

/-- The text with every small ASCII letter made a capital. -/
def upperAscii (s : String) : String := String.ofList (s.toList.map Char.toUpper)

/-- The texts with a separator between them. -/
def join (separator : String) : List String → String
  | [] => ""
  | [a] => a
  | a :: rest => a ++ separator ++ join separator rest

/-- The characters before the first occurrence of a separator, or all of them. -/
def beforeChars (separator : List Char) : List Char → List Char
  | [] => []
  | c :: cs => if separator.isPrefixOf (c :: cs) then [] else c :: beforeChars separator cs

/-- The text before the first occurrence of a separator, or the whole text. -/
def before (separator s : String) : String := String.ofList (beforeChars separator.toList s.toList)

end BuildPlan.Text
