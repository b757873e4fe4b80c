import BuildPlan.Toml.Moment

/-!
# TOML values

The values of TOML texts as far as declarations use them. A table keeps its entries in the order of the text. No
declaration takes a number that is not an integer, so that of such a number only its presence is kept.
-/

namespace BuildPlan

/-- A TOML value. -/
inductive Toml
  | str (s : String)
  | int (i : Int)
  /-- A number with a fraction or an exponent, infinity, or what is no number. -/
  | real
  | bool (b : Bool)
  | moment (m : Moment)
  | arr (items : List Toml)
  | table (entries : List (String × Toml))
  deriving Inhabited

namespace Toml

/-- The text of a value. -/
def str? : Toml → Option String
  | str s => some s
  | _ => none

/-- The truth value of a value. -/
def bool? : Toml → Option Bool
  | bool b => some b
  | _ => none

/-- The items of an array. -/
def arr? : Toml → Option (List Toml)
  | arr items => some items
  | _ => none

/-- The number of a value, if it lies in a range. -/
def intIn? (least most : Int) : Toml → Option Int
  | int i => if least ≤ i ∧ i ≤ most then some i else none
  | _ => none

/-- Whether a value is an array or a table without anything in it. -/
def isEmptyCollection : Toml → Bool
  | arr [] => true
  | table [] => true
  | _ => false

end Toml

end BuildPlan
