/-!
# JSON values

The values of JSON texts. An object keeps its members in the order of the text, repeated names included: what a repeated
name means is for the reader of a record to say (`Json.Record`).
-/

namespace BuildPlan

/-- A JSON value. -/
inductive Json
  | null
  | bool (b : Bool)
  /-- A number written without a fraction and an exponent; `-0` is not among them. -/
  | int (i : Int)
  /-- Any other number, as it is written. -/
  | decimal (digits : String)
  | str (s : String)
  | arr (items : List Json)
  | obj (members : List (String × Json))
  /-- A text, or an object with a name, in which an escape names half of a surrogate pair without its other half. It is
  well formed, but no field can hold it. -/
  | unpaired
  deriving Inhabited

namespace Json

/-- The text of a value, or nothing if it is no text. -/
def str? : Json → Option String
  | str s => some s
  | _ => none

/-- The items of an array. -/
def arr? : Json → Option (List Json)
  | arr items => some items
  | _ => none

/-- The truth value of a value. -/
def bool? : Json → Option Bool
  | bool b => some b
  | _ => none

/-- The number of a value, if it is an integer from zero to below `limit`. -/
def natBelow? (limit : Nat) : Json → Option Nat
  | int (.ofNat n) => if n < limit then some n else none
  | _ => none

/-- The value of a member of an object: of members with the same name the last one. -/
def member? (j : Json) (name : String) : Option Json :=
  match j with
  | obj members => (members.reverse.find? (fun m => m.1 == name)).map Prod.snd
  | _ => none

/-- An array of texts. -/
def ofStrings (texts : List String) : Json := arr (texts.map str)

/-- A text, or null. -/
def ofOption (text : Option String) : Json := (text.map str).getD null

end Json

end BuildPlan
