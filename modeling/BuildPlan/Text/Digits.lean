/-!
# Digits

Digits of numbers written in a base up to sixteen, and the numbers they write. Letters stand for the digits from ten on;
they are read in both cases and written in lowercase.
-/

namespace BuildPlan.Text

/-- The value of a digit in base sixteen. -/
def digitValue? (c : Char) : Option Nat :=
  if c.isDigit then some (c.toNat - '0'.toNat)
  else if 'a' ≤ c ∧ c ≤ 'f' then some (c.toNat - 'a'.toNat + 10)
  else if 'A' ≤ c ∧ c ≤ 'F' then some (c.toNat - 'A'.toNat + 10)
  else none

/-- Whether a character is a digit in a base. -/
def isDigitIn (base : Nat) (c : Char) : Bool := (digitValue? c).any (fun d => d < base)

/-- The number that some digits write in a base. -/
def digitsValue (base : Nat) (digits : List Char) : Nat :=
  digits.foldl (fun n d => base * n + (digitValue? d).getD 0) 0

/-- The decimal text of a number with zeros in front, so that it has at least some number of digits. -/
def padded (width n : Nat) : String :=
  let digits := Nat.toDigits 10 n
  String.ofList (List.replicate (width - digits.length) '0' ++ digits)

/-- The digits of a number in base sixteen, without leading zeros. -/
def hexDigits (n : Nat) : List Char := Nat.toDigits 16 n

/-- The last digits of a number in base sixteen, as many as are asked for. -/
def lastHexDigits : Nat → Nat → List Char
  | 0, _ => []
  | count + 1, n => Nat.digitChar ((n >>> (4 * count)) % 16) :: lastHexDigits count n

end BuildPlan.Text
