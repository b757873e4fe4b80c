import BuildPlan.Proofs.Catalog

/-!
# Catalogs without an item

A catalog is known by its names in order and by what it gives for each of them (`Catalog.ext_get?`). So it makes no difference
whether an item is erased before or after items of other names are put, and what is put under a name leaves no trace once the
name is erased.
-/

namespace BuildPlan.Catalog

variable {α : Type} [Named α] {c d : Catalog α} {a b : α} {m n : String}

/-- A catalog lists what it has under its names, in order. -/
theorem items_eq (c : Catalog α) : c.items = c.names.filterMap c.get? := by
  rw [names, List.filterMap_map]
  calc c.items = c.items.filterMap some := List.filterMap_some.symm
    _ = c.items.filterMap (c.get? ∘ Named.name) := List.filterMap_congr (fun a ha => (get?_name ha).symm)

/-- Catalogs with the same names in the same order that give the same items are equal. -/
theorem ext_get? (hnames : c.names = d.names) (h : ∀ n, c.get? n = d.get? n) : c = d := by
  refine ext ?_
  rw [items_eq c, items_eq d, hnames, funext h]

/-- An item that is put again is put once. -/
theorem put_put (h : Named.name b = Named.name a) : (c.put a).put b = c.put b := by
  refine ext_get? ?_ (fun n => ?_)
  · rw [names_put_of_taken (mem_names_put.mpr (Or.inr h)), names_put, names_put, h]
  · rw [get?_put, get?_put, get?_put, h]
    split <;> rfl

/-! ### Erasing an item -/

/-- An erased name is left out, and the others keep their order. -/
theorem names_erase (c : Catalog α) (n : String) : (c.erase n).names = c.names.filter (fun m => m != n) := by
  rw [names, names, List.filter_map]
  rfl

/-- Under an erased name there is nothing, and under the others what was there. -/
theorem get?_erase (c : Catalog α) (n m : String) : (c.erase n).get? m = if m = n then none else c.get? m := by
  split
  · rename_i h
    subst h
    rw [get?_eq_none_iff, names_erase, List.mem_filter]
    simp
  · rename_i h
    ext a
    rw [get?_eq_some_iff, get?_eq_some_iff]
    simp only [erase, filter, List.mem_filter, and_assoc]
    refine and_congr_right (fun _ => ⟨And.right, fun hname => ⟨?_, hname⟩⟩)
    rw [hname, bne_iff_ne]
    exact h

/-- The names that are left are the others. -/
theorem mem_names_erase : m ∈ (c.erase n).names ↔ m ∈ c.names ∧ m ≠ n := by
  rw [names_erase, List.mem_filter, bne_iff_ne]

/-- Erasing a name that is not there changes nothing. -/
theorem erase_of_not_mem (h : n ∉ c.names) : c.erase n = c := by
  refine ext (List.filter_eq_self.mpr (fun a ha => ?_))
  rw [bne_iff_ne]
  exact fun hname => h (hname ▸ List.mem_map_of_mem ha)

/-- Two names can be erased in any order. -/
theorem erase_comm (c : Catalog α) (m n : String) : (c.erase m).erase n = (c.erase n).erase m :=
  ext (List.filter_comm _ _ _)

/-- An item of another name can be put before or after. -/
theorem erase_put_of_ne (h : Named.name a ≠ n) : (c.put a).erase n = (c.erase n).put a := by
  refine ext_get? ?_ (fun m => ?_)
  · by_cases ha : Named.name a ∈ c.names
    · rw [names_put_of_taken (mem_names_erase.mpr ⟨ha, h⟩), names_erase, names_erase, names_put_of_taken ha]
    · rw [names_put_of_new (fun hmem => ha (mem_names_erase.mp hmem).1), names_erase, names_erase, names_put_of_new ha,
        List.filter_append]
      simp [h]
  · rw [get?_erase, get?_put, get?_put, get?_erase]
    split
    · rename_i hm
      rw [if_neg (fun hname => h (hname.symm.trans hm))]
    · rfl

/-- What is put under the name is erased with it. -/
theorem erase_put_self (h : Named.name a = n) : (c.put a).erase n = c.erase n := by
  refine ext_get? ?_ (fun m => ?_)
  · rw [names_erase, names_erase, names_put, h, addNew]
    split
    · rfl
    · rw [List.filter_append]
      simp
  · rw [get?_erase, get?_erase, get?_put, h]
    split <;> rfl

end BuildPlan.Catalog
