import BuildPlan.Text.Digits

/-!
# Moments

Dates and times of day, alone or together, as TOML writes them. A text may write a moment in several ways; the text of a
moment is the one that separates the date and the time by a capital T and drops the zeros at the end of a fraction.
-/

namespace BuildPlan

/-- A day of the calendar. -/
structure Date where
  year : Nat
  month : Nat
  day : Nat
  deriving DecidableEq

/-- A time of day. The second 60 is a leap second. -/
structure TimeOfDay where
  hour : Nat
  minute : Nat
  second : Nat
  nanosecond : Nat := 0
  deriving DecidableEq

/-- How far a clock is from universal time. -/
inductive ClockOffset
  /-- The clock shows universal time. -/
  | universal
  /-- The clock is ahead by some minutes, or behind. -/
  | ahead (minutes : Int)
  deriving DecidableEq

/-- A date, a time of day or both. Only a date with a time may have an offset. -/
inductive Moment
  | date (d : Date)
  | time (t : TimeOfDay)
  | instant (d : Date) (t : TimeOfDay) (offset : Option ClockOffset)
  deriving DecidableEq

/-- The number that some decimal digits write, if there are as many as are asked for. -/
def fixedDigits? (count : Nat) (cs : List Char) : Option Nat :=
  if cs.length = count ∧ cs.all Char.isDigit then some (Text.digitsValue 10 cs) else none

/-- The number that two digits write, if it does not exceed a bound. -/
def twoDigits? (most : Nat) (a b : Char) : Option Nat := (fixedDigits? 2 [a, b]).filter (fun n => n ≤ most)

/-! ### Dates -/

namespace Date

/-- Whether a year has 366 days. -/
def isLeapYear (year : Nat) : Bool := year % 4 == 0 && (year % 100 != 0 || year % 400 == 0)

/-- The number of days of a month. -/
def daysIn (year month : Nat) : Nat :=
  if month = 2 then if isLeapYear year then 29 else 28
  else if [4, 6, 9, 11].contains month then 30
  else 31

/-- Whether the calendar has this day. -/
def isValid (d : Date) : Bool :=
  1 ≤ d.month && d.month ≤ 12 && 1 ≤ d.day && d.day ≤ daysIn d.year d.month

/-- The date that some characters write. -/
def ofChars? : List Char → Option Date
  | [y₁, y₂, y₃, y₄, '-', m₁, m₂, '-', d₁, d₂] => do
    let date : Date := {
      year := ← fixedDigits? 4 [y₁, y₂, y₃, y₄]
      month := ← fixedDigits? 2 [m₁, m₂]
      day := ← fixedDigits? 2 [d₁, d₂] }
    if date.isValid then return date else none
  | _ => none

/-- The text of a date. -/
def text (d : Date) : String := Text.padded 4 d.year ++ "-" ++ Text.padded 2 d.month ++ "-" ++ Text.padded 2 d.day

end Date

/-! ### Times of day -/

namespace TimeOfDay

/-- The number of nanoseconds that the digits of a fraction of a second write. Digits after the ninth are cut off. -/
def nanoseconds? (digits : List Char) : Option Nat :=
  if digits.isEmpty ∨ !digits.all Char.isDigit then none
  else
    let kept := digits.take 9
    some (Text.digitsValue 10 (kept ++ List.replicate (9 - kept.length) '0'))

/-- The time of day that some characters write. -/
def ofChars? : List Char → Option TimeOfDay
  | h₁ :: h₂ :: ':' :: m₁ :: m₂ :: ':' :: s₁ :: s₂ :: fraction => do
    return {
      hour := ← twoDigits? 23 h₁ h₂
      minute := ← twoDigits? 59 m₁ m₂
      second := ← twoDigits? 60 s₁ s₂
      nanosecond := ←
        match fraction with
        | [] => some 0
        | '.' :: digits => nanoseconds? digits
        | _ => none }
  | _ => none

/-- The text of a fraction of a second: nothing if there is none. -/
def fractionText (nanosecond : Nat) : String :=
  if nanosecond = 0 then ""
  else "." ++ String.ofList ((Text.padded 9 nanosecond).toList.reverse.dropWhile (· == '0')).reverse

/-- The text of a time of day. -/
def text (t : TimeOfDay) : String :=
  Text.padded 2 t.hour ++ ":" ++ Text.padded 2 t.minute ++ ":" ++ Text.padded 2 t.second ++ fractionText t.nanosecond

end TimeOfDay

/-! ### Offsets -/

namespace ClockOffset

/-- The offset that some characters write. -/
def ofChars? : List Char → Option ClockOffset
  | ['Z'] => some universal
  | ['z'] => some universal
  | [sign, h₁, h₂, ':', m₁, m₂] => do
    let minutes : Int := 60 * (← twoDigits? 23 h₁ h₂) + (← twoDigits? 59 m₁ m₂)
    if sign = '+' then return ahead minutes
    else if sign = '-' then return ahead (-minutes)
    else none
  | _ => none

/-- The text of an offset. -/
def text : ClockOffset → String
  | universal => "Z"
  | ahead minutes =>
    (if minutes < 0 then "-" else "+") ++ Text.padded 2 (minutes.natAbs / 60) ++ ":" ++
      Text.padded 2 (minutes.natAbs % 60)

end ClockOffset

/-! ### Moments -/

namespace Moment

/-- Whether a character may stand between a date and a time. -/
def isDelimiter (c : Char) : Bool := c == 'T' || c == 't' || c == ' '

/-- Whether a character can be part of a time of day. -/
def isTimeChar (c : Char) : Bool := c.isDigit || c == ':' || c == '.'

/-- The offset that the characters after a time write; there may be none. -/
def offset? : List Char → Option (Option ClockOffset)
  | [] => some none
  | cs => (ClockOffset.ofChars? cs).map some

/-- The moment that a date and the characters after it write. -/
def ofDate? (d : Date) : List Char → Option Moment
  | [] => some (date d)
  | delimiter :: rest => do
    let t ← TimeOfDay.ofChars? (rest.takeWhile isTimeChar)
    let offset ← offset? (rest.dropWhile isTimeChar)
    if isDelimiter delimiter then return instant d t offset else none

/-- The moment that some characters write. -/
def ofChars? (cs : List Char) : Option Moment :=
  match Date.ofChars? (cs.take 10) with
  | some d => ofDate? d (cs.drop 10)
  | none => (TimeOfDay.ofChars? cs).map time

/-- The text of a moment. -/
def text : Moment → String
  | date d => d.text
  | time t => t.text
  | instant d t offset => d.text ++ "T" ++ t.text ++ (offset.map ClockOffset.text).getD ""

end Moment

end BuildPlan
