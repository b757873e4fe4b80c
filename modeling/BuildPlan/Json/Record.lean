import BuildPlan.Catalog
import BuildPlan.Json

/-!
# Records in JSON

A record is an object whose members are its fields, in any order; members that are no fields are ignored and no field may
come twice. It may also be written as an array of the values of all its fields in order. A value out of a fixed list of
names is its name, or an object with the name as the only member and null as its value.
-/

namespace BuildPlan.Json

/-- Whether a name is repeated among some members. -/
def isRepeated (members : List (String × Json)) (field : String) : Bool :=
  1 < (members.filter (fun m => m.1 == field)).length

/-- Whether a field may be left out. -/
inductive Presence
  | required
  | optional
  /-- It may be left out of an object, but not of an array. -/
  | optionalByName
  deriving DecidableEq

/-- The fields of a record by position: the values in order, and then absent ones for the fields that may be left out. -/
def fieldsInOrder? : List (String × Presence) → List Json → Option (List (Option Json))
  | [], [] => some []
  | [], _ :: _ => none
  | _ :: fields, j :: rest => (fieldsInOrder? fields rest).map (some j :: ·)
  | (_, presence) :: fields, [] => if presence == .optional then (fieldsInOrder? fields []).map (none :: ·) else none

/-- The values of the fields of a record, in the order of the fields. -/
def fields? (fields : List (String × Presence)) : Json → Option (List (Option Json))
  | obj members =>
    if fields.any (fun f => isRepeated members f.1) then none
    else
      fields.mapM fun f =>
        match members.lookup f.1 with
        | some j => some (some j)
        | none => if f.2 == .required then none else some none
  | arr items => fieldsInOrder? fields items
  | _ => none

/-- The values of the fields of a record of which none may be left out. -/
def required? (names : List String) (j : Json) : Option (List Json) :=
  (fields? (names.map (·, .required)) j).bind (fun values => values.mapM id)

/-- The name of a value out of a fixed list. -/
def variantName? : Json → Option String
  | str s => some s
  | obj [(name, null)] => some name
  | _ => none

/-- The value out of a list that has this name. -/
def variant? {α : Type} (all : List α) (name : α → String) (j : Json) : Option α :=
  (variantName? j).bind (fun n => all.find? (fun a => name a == n))

/-- An array of texts. -/
def strings? (j : Json) : Option (List String) := j.arr?.bind (fun items => items.mapM str?)

/-- A value that may be null. -/
def nullable? {α : Type} (read : Json → Option α) : Json → Option (Option α)
  | null => some none
  | j => (read j).map some

/-- The value of a field that may be left out or null. -/
def absentOr? {α : Type} (read : Json → Option α) : Option Json → Option (Option α)
  | none => some none
  | some j => nullable? read j

/-- The entries of an object by key. A later entry of a key replaces the value of the earlier one. -/
def keyed? {β : Type} (read : Json → Option β) : Json → Option (Keyed β)
  | obj members => (members.mapM (fun m => (read m.2).map (m.1, ·))).map Catalog.ofList
  | _ => none

end BuildPlan.Json
