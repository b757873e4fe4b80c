import BuildPlan.Proofs.Catalog

/-!
# Catalogs as histories

A catalog of values that were set one after the other is known by the list of what was set (`Keyed.Records`): its keys
stand in the order in which they came first, and each has the value it was given last.
-/

namespace BuildPlan.Keyed

variable {β γ : Type}

/-- What a catalog keeps of some settings made one after the other: the keys in the order in which they are first set, each
with the value that was set last. -/
structure Records (c : Keyed β) (settings : List (String × β)) : Prop where
  names : c.names = (settings.map Prod.fst).eraseDups
  lookup : ∀ k, c.lookup k = settings.reverse.lookup k

namespace Records

variable {c : Keyed β} {settings : List (String × β)}

theorem empty : Records (∅ : Keyed β) [] := ⟨rfl, fun _ => rfl⟩

/-- A key that is set comes last if it is new, and has the new value either way. -/
theorem set (h : Records c settings) (k : String) (v : β) : Records (c.set k v) (settings ++ [(k, v)]) where
  names := by
    have hk : Named.name (k, v) = k := rfl
    have hnames := h.names
    rw [← distinct_eq_eraseDups] at hnames
    rw [← distinct_eq_eraseDups, List.map_append, List.map_singleton, distinct_concat, ← hnames, addNew, Keyed.set]
    by_cases hmem : k ∈ c.names
    · rw [if_pos hmem, Catalog.names_put_of_taken hmem]
    · rw [if_neg hmem, Catalog.names_put_of_new hmem, hk]
  lookup := by
    intro k'
    rw [lookup_set, List.reverse_append, List.reverse_singleton, List.singleton_append, List.lookup_cons, h.lookup]
    by_cases hk : k' = k
    · simp [hk]
    · rw [if_neg hk, beq_false_of_ne hk]

/-- More settings come after those made before. -/
theorem setAll (h : Records c settings) (more : List (String × β)) :
    Records (more.foldl Catalog.put c) (settings ++ more) := by
  induction more generalizing c settings with
  | nil => rwa [List.append_nil]
  | cons a more ih =>
    have hrest := ih (h.set a.1 a.2)
    rwa [List.append_assoc, List.singleton_append] at hrest

/-- A function applied to the values of a catalog could have been applied to what was set. -/
theorem mapValues (h : Records c settings) (f : β → γ) :
    Records (c.mapValues f) (settings.map (fun s => (s.1, f s.2))) where
  names := by
    have hnames : (c.mapValues f).names = c.names := by
      simp only [Catalog.names, Keyed.mapValues, List.map_map]
      rfl
    rw [hnames, h.names, List.map_map]
    rfl
  lookup := by
    have hmap : ∀ (l : List (String × β)) k, (l.map (fun s => (s.1, f s.2))).lookup k = (l.lookup k).map f := by
      intro l k
      induction l with
      | nil => rfl
      | cons s l ih =>
        rw [List.map_cons, List.lookup_cons, List.lookup_cons, ih]
        cases k == s.1 <;> rfl
    intro k
    rw [lookup_mapValues, h.lookup, ← List.map_reverse, hmap]

theorem mem_names_iff (h : Records c settings) {k : String} : k ∈ c.names ↔ ∃ v, (k, v) ∈ settings := by
  rw [h.names, List.mem_eraseDups, List.mem_map]
  exact ⟨fun ⟨s, hs, hk⟩ => ⟨s.2, hk ▸ hs⟩, fun ⟨v, hv⟩ => ⟨(k, v), hv, rfl⟩⟩

/-- The value that was set last. -/
theorem lookup_concat {k : String} {v : β} (h : Records c (settings ++ [(k, v)])) : c.lookup k = some v := by
  rw [h.lookup, List.reverse_append, List.reverse_singleton, List.singleton_append, List.lookup_cons, beq_self_eq_true]

end Records

end BuildPlan.Keyed
