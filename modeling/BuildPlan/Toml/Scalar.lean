import BuildPlan.Toml
import BuildPlan.Toml.Number

/-!
# Scalars of TOML

The values that are written without quotes and brackets: truth values, numbers, dates and times. The forms exclude each
other, so that no text has two values.
-/

namespace BuildPlan.Toml

/-- The integer that some characters write, if 64 bits can hold it. -/
def storedInteger? (cs : List Char) : Option Int :=
  (integer? cs).filter (fun i => Int64.minValue.toInt ≤ i ∧ i ≤ Int64.maxValue.toInt)

/-- The value of a scalar's text. -/
def ofScalar? (s : String) : Option Toml :=
  match s with
  | "true" => some (bool true)
  | "false" => some (bool false)
  | _ =>
    match Moment.ofChars? s.toList, storedInteger? s.toList with
    | some m, _ => some (moment m)
    | none, some i => some (int i)
    | none, none => if isReal s.toList then some real else none

end BuildPlan.Toml
