import BuildPlan.Catalog
import BuildPlan.Toml

/-!
# Records in TOML

A record is a table whose entries are its fields, in any order; an entry that is no field is refused. It may also be
written as an array of the values of its fields in order, where only fields with a default may be missing at the end. A
value out of a fixed list of names is its name, or a table with the name as its only key and an empty array or table as
its value.
-/

namespace BuildPlan.Toml

/-- Whether a field may be missing. -/
inductive Presence
  | required
  /-- It may be missing, and has a default. -/
  | optional
  /-- It may be missing in a table, but not in an array. -/
  | optionalByName
  deriving DecidableEq

/-- The fields of a record by position. Items after the last field are not looked at. -/
def fieldsInOrder? : List (String × Presence) → List Toml → Option (List (Option Toml))
  | [], _ => some []
  | _ :: fields, v :: rest => (fieldsInOrder? fields rest).map (some v :: ·)
  | (_, presence) :: fields, [] => if presence = .optional then (fieldsInOrder? fields []).map (none :: ·) else none

/-- The values of the fields of a record, in the order of the fields. -/
def fields? (fields : List (String × Presence)) : Toml → Option (List (Option Toml))
  | table entries =>
    if entries.all (fun e => fields.any (fun f => f.1 == e.1)) then
      fields.mapM fun f =>
        match entries.lookup f.1 with
        | some v => some (some v)
        | none => if f.2 = .required then none else some none
    else none
  | arr items => fieldsInOrder? fields items
  | _ => none

/-- The value of a field, if it is there. -/
def optional? {α : Type} (read : Toml → Option α) : Option Toml → Option (Option α)
  | none => some none
  | some v => (read v).map some

/-- The value of a field, or its default. -/
def fieldOr? {α : Type} (default : α) (read : Toml → Option α) : Option Toml → Option α
  | none => some default
  | some v => read v

/-- The items of an array, all of one kind. -/
def list? {α : Type} (read : Toml → Option α) (v : Toml) : Option (List α) := v.arr?.bind (fun items => items.mapM read)

/-- An array of texts. -/
def strings? (v : Toml) : Option (List String) := list? str? v

/-- The key of the only entry of a moment that is read as a table. -/
def momentKey : String := "$__toml_private_datetime"

/-- The entries of a table by key. A moment stands for a table with its text as the only entry. -/
def keyed? {β : Type} (read : Toml → Option β) : Toml → Option (Keyed β)
  | table entries => (entries.mapM (fun e => (read e.2).map (e.1, ·))).map Catalog.ofList
  | moment m => (read (str m.text)).map (fun v => Catalog.ofList [(momentKey, v)])
  | _ => none

/-- The name of a value out of a list: a text, or the only key of a table, with nothing under it. -/
def variantName? : Toml → Option String
  | str s => some s
  | table [(key, content)] => if content.isEmptyCollection then some key else none
  | _ => none

/-- The value out of a list that has this name. -/
def variant? {α : Type} (all : List α) (name : α → String) (v : Toml) : Option α :=
  v.variantName?.bind (fun n => all.find? (fun a => name a == n))

end BuildPlan.Toml
