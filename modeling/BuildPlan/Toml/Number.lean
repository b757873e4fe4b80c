import BuildPlan.Text.Digits

/-!
# Numbers of TOML

The numbers that TOML writes: integers in four bases, and decimals with a fraction, an exponent or both. Of a decimal only
its size matters here: a positive one must not be rounded to infinity by a number of 64 bits.
-/

namespace BuildPlan.Toml

/-- The digits of a number without the underscores that stand between two digits. -/
def groupedDigits? (isDigit : Char → Bool) : List Char → Option (List Char)
  | [] => none
  | [c] => if isDigit c then some [c] else none
  | c :: '_' :: rest => if isDigit c then (groupedDigits? isDigit rest).map (c :: ·) else none
  | c :: rest => if isDigit c then (groupedDigits? isDigit rest).map (c :: ·) else none

/-! ### Integers -/

/-- The number of some digits in a base. -/
def naturalIn? (base : Nat) (cs : List Char) : Option Int :=
  (groupedDigits? (Text.isDigitIn base) cs).map (fun ds => (Text.digitsValue base ds : Int))

/-- The digits of the whole part of a decimal number. A zero in front of other digits is refused. -/
def wholeDigits? : List Char → Option (List Char)
  | ['0'] => some ['0']
  | '0' :: _ => none
  | cs => groupedDigits? Char.isDigit cs

/-- The number of some decimal digits. -/
def decimal? (cs : List Char) : Option Int := (wholeDigits? cs).map (fun ds => (Text.digitsValue 10 ds : Int))

/-- The integer that some characters write, in base ten with an optional sign or in another base without one. -/
def integer? : List Char → Option Int
  | '0' :: 'x' :: cs => naturalIn? 16 cs
  | '0' :: 'o' :: cs => naturalIn? 8 cs
  | '0' :: 'b' :: cs => naturalIn? 2 cs
  | '+' :: cs => decimal? cs
  | '-' :: cs => (decimal? cs).map Neg.neg
  | cs => decimal? cs

/-! ### Decimals -/

/-- A decimal number without its sign: a whole number times a power of ten. -/
structure Decimal where
  digits : List Char
  exponent : Int
  deriving DecidableEq

namespace Decimal

/-- The number that the digits of an exponent write. Once it is 65536 or more, further digits are not looked at. -/
def exponentValue (digits : List Char) : Nat :=
  digits.foldl (fun n c => if n < 65536 then 10 * n + Text.digitsValue 10 [c] else n) 0

/-- The exponent that the characters after the letter write. -/
def exponent? : List Char → Option Int
  | '+' :: cs => (groupedDigits? Char.isDigit cs).map (fun ds => (exponentValue ds : Int))
  | '-' :: cs => (groupedDigits? Char.isDigit cs).map (fun ds => -(exponentValue ds : Int))
  | cs => (groupedDigits? Char.isDigit cs).map (fun ds => (exponentValue ds : Int))

/-- Whether a character begins an exponent. -/
def isExponentMark (c : Char) : Bool := c == 'e' || c == 'E'

/-- The decimal with a whole part and an exponent, which may be missing after a fraction. -/
def withExponent? (digits : List Char) (places : Nat) : List Char → Option Decimal
  | [] => some ⟨digits, -places⟩
  | _ :: cs => (exponent? cs).map (fun e => ⟨digits, e - places⟩)

/-- The decimal that some characters without a sign write: a whole part, and a fraction or an exponent or both. -/
def ofChars? (cs : List Char) : Option Decimal := do
  let whole ← wholeDigits? (cs.takeWhile (fun c => c.isDigit || c == '_'))
  match cs.dropWhile (fun c => c.isDigit || c == '_') with
  | '.' :: rest =>
    let fraction ← groupedDigits? Char.isDigit (rest.takeWhile (fun c => !isExponentMark c))
    withExponent? (whole ++ fraction) fraction.length (rest.dropWhile (fun c => !isExponentMark c))
  | c :: rest => if isExponentMark c then withExponent? whole 0 (c :: rest) else none
  | [] => none

/-- The least number that is rounded to infinity: half a step above the largest number with 53 binary digits and an
exponent of 971. -/
def infinityBound : Nat := (1 <<< 54 - 1) <<< 970

/-- Whether a decimal is rounded to infinity. The bound has 309 digits, so that only numbers with as many before the
point need to be compared with it. -/
def isInfinite (d : Decimal) : Bool :=
  let significant := d.digits.dropWhile (· == '0')
  let places : Int := significant.length + d.exponent
  if significant.isEmpty ∨ places < 309 then false
  else if 309 < places then true
  else
    let value := Text.digitsValue 10 significant
    match d.exponent with
    | .ofNat e => decide (infinityBound ≤ value * Nat.pow 10 e)
    | .negSucc e => decide (infinityBound * Nat.pow 10 (e + 1) ≤ value)

end Decimal

/-- The names of infinity and of what is no number. -/
def isSpecialName (cs : List Char) : Bool := cs == ['i', 'n', 'f'] || cs == ['n', 'a', 'n']

/-- Whether some characters write a number with a fraction or an exponent, infinity, or what is no number. A number that is
rounded to infinity must be negative. -/
def isReal : List Char → Bool
  | '-' :: cs => isSpecialName cs || (Decimal.ofChars? cs).isSome
  | '+' :: cs => isSpecialName cs || (Decimal.ofChars? cs).any (fun d => !d.isInfinite)
  | cs => isSpecialName cs || (Decimal.ofChars? cs).any (fun d => !d.isInfinite)

end BuildPlan.Toml
