/-!
# Catalogs

A catalog holds items with pairwise distinct names in the order in which the names came. Putting an item under a name
that is there already replaces the item in its place. The keyed fields of a configuration, the projects, rule sets and
solutions of a workspace and the nodes of a target graph are catalogs.

The lists that keep the first of equal values are built by `addNew` and `addAll`; `distinct` is what they make of any
list.
-/

namespace BuildPlan

/-! ### Lists that keep the first of equal values -/

/-- The list with `a` at its end, unless it holds `a` already. -/
def addNew {α : Type} [DecidableEq α] (l : List α) (a : α) : List α := if a ∈ l then l else l ++ [a]

/-- The list with the values of another one added in order, each one once. -/
def addAll {α : Type} [DecidableEq α] (l more : List α) : List α := more.foldl addNew l

/-- The values of a list in the order in which they first occur. -/
def distinct {α : Type} [DecidableEq α] (l : List α) : List α := addAll [] l

/-! ### Catalogs -/

/-- Things that have a name. -/
class Named (α : Type) where
  /-- The name an item is found by. -/
  name : α → String

instance {β : Type} : Named (String × β) := ⟨Prod.fst⟩

/-- Items with distinct names, in the order in which the names came. -/
structure Catalog (α : Type) [Named α] where
  /-- The items in order. -/
  items : List α
  nodup : (items.map Named.name).Nodup

/-- Values found by a key. -/
abbrev Keyed (β : Type) := Catalog (String × β)

namespace Catalog

variable {α : Type} [Named α]

theorem ext {c d : Catalog α} (h : c.items = d.items) : c = d := by
  cases c
  cases d
  cases h
  rfl

instance [DecidableEq α] : DecidableEq (Catalog α) := fun c d =>
  if h : c.items = d.items then isTrue (ext h) else isFalse (fun e => h (by rw [e]))

/-- The catalog without items. -/
def empty : Catalog α := ⟨[], List.nodup_nil⟩

instance : EmptyCollection (Catalog α) := ⟨empty⟩
instance : Inhabited (Catalog α) := ⟨empty⟩

/-- The names in order. -/
def names (c : Catalog α) : List String := c.items.map Named.name

/-- The number of items. -/
def size (c : Catalog α) : Nat := c.items.length

/-- Whether there is no item. -/
def isEmpty (c : Catalog α) : Bool := c.items.isEmpty

/-- The item of a name. -/
def get? (c : Catalog α) (n : String) : Option α := c.items.find? (fun a => Named.name a == n)

/-- A name with an item is one of the names. -/
theorem mem_names_of_get? {c : Catalog α} {n : String} {a : α} (h : c.get? n = some a) : n ∈ c.names := by
  have hn : Named.name a = n := by simpa using List.find?_some h
  exact List.mem_map.mpr ⟨a, List.mem_of_find?_eq_some h, hn⟩

/-- Whether there is an item of this name. -/
def contains (c : Catalog α) (n : String) : Bool := c.names.contains n

/-- The position of a name. -/
def indexOf? (c : Catalog α) (n : String) : Option Nat := c.names.idxOf? n

/-- The position of a name, or the number of items if it is not there. -/
def indexOf (c : Catalog α) (n : String) : Nat := c.names.idxOf n

/-- Replacing the item of a name changes no name. -/
theorem map_name_replace (a : α) (l : List α) :
    (l.map (fun b => if Named.name b = Named.name a then a else b)).map Named.name = l.map Named.name := by
  induction l with
  | nil => rfl
  | cons b l ih =>
    simp only [List.map_cons, ih]
    split
    · next h => rw [h]
    · rfl

/-- The catalog with `a` in it: in the place of the item of its name if there is one, else at the end. -/
def put (c : Catalog α) (a : α) : Catalog α :=
  if h : Named.name a ∈ c.names then
    ⟨c.items.map (fun b => if Named.name b = Named.name a then a else b), by rw [map_name_replace]; exact c.nodup⟩
  else
    ⟨c.items ++ [a], by
      rw [List.map_append, List.nodup_append]
      refine ⟨c.nodup, by simp, ?_⟩
      intro x hx y hy e
      simp only [List.map_cons, List.map_nil, List.mem_singleton] at hy
      exact h (by rw [← hy, ← e]; exact hx)⟩

/-- The catalog with `a` at its end, unless its name is taken. -/
def putNew (c : Catalog α) (a : α) : Catalog α := if Named.name a ∈ c.names then c else c.put a

/-- The catalog of a list: a later item replaces an earlier one of its name in its place. -/
def ofList (l : List α) : Catalog α := l.foldl put empty

/-- The items that satisfy `p`. -/
def filter (c : Catalog α) (p : α → Bool) : Catalog α :=
  ⟨c.items.filter p, (List.filter_sublist.map Named.name).nodup c.nodup⟩

/-- The catalog without the item of a name. -/
def erase (c : Catalog α) (n : String) : Catalog α := c.filter (fun a => Named.name a != n)

end Catalog

namespace Keyed

variable {β γ : Type}

/-- The value of a key. -/
def lookup (c : Keyed β) (k : String) : Option β := (c.get? k).map Prod.snd

/-- The catalog with `v` as the value of `k`, in the place of `k` if it is there. -/
def set (c : Keyed β) (k : String) (v : β) : Keyed β := c.put (k, v)

/-- The same keys with a function applied to their values. -/
def mapValues (c : Keyed β) (f : β → γ) : Keyed γ :=
  ⟨c.items.map (fun kv => (kv.1, f kv.2)), by
    have h := c.nodup
    rw [List.map_map]
    exact h⟩

end Keyed

end BuildPlan
