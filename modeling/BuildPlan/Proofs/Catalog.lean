import BuildPlan.Catalog
import Mathlib.Data.List.Induction
import Mathlib.Data.List.Nodup

/-!
# What catalogs hold

Statements about `addAll`, `distinct` and the operations of a catalog: which values a list holds after some are added, and
which item a catalog gives for a name after it was changed.
-/

namespace BuildPlan

section Lists

variable {α : Type} [DecidableEq α]

/-- A list with one more value holds the values that it held, and this one. -/
theorem mem_addNew {l : List α} {a x : α} : x ∈ addNew l a ↔ x ∈ l ∨ x = a := by
  unfold addNew
  split
  · rename_i h
    constructor
    · exact Or.inl
    · rintro (hx | rfl)
      · exact hx
      · exact h
  · simp

/-- Adding a value repeats none. -/
theorem nodup_addNew {l : List α} (h : l.Nodup) (a : α) : (addNew l a).Nodup := by
  unfold addNew
  split
  · exact h
  · rename_i ha
    rw [List.nodup_append]
    refine ⟨h, by simp, ?_⟩
    intro x hx y hy e
    rw [List.mem_singleton] at hy
    exact ha (by rw [← hy, ← e]; exact hx)

/-- A list to which others are added holds the values of both. -/
theorem mem_addAll {l more : List α} {x : α} : x ∈ addAll l more ↔ x ∈ l ∨ x ∈ more := by
  unfold addAll
  induction more generalizing l with
  | nil => simp
  | cons a more ih => rw [List.foldl_cons, ih, mem_addNew, List.mem_cons, or_assoc]

/-- Adding values repeats none. -/
theorem nodup_addAll {l : List α} (h : l.Nodup) (more : List α) : (addAll l more).Nodup := by
  unfold addAll
  induction more generalizing l with
  | nil => exact h
  | cons a more ih => exact ih (nodup_addNew h a)

/-- Dropping repeats loses no value. -/
theorem mem_distinct {l : List α} {x : α} : x ∈ distinct l ↔ x ∈ l := by
  simp [distinct, mem_addAll]

theorem nodup_distinct (l : List α) : (distinct l).Nodup := nodup_addAll List.nodup_nil l

/-- Values can be added in two parts. -/
theorem addAll_append (l more more' : List α) : addAll l (more ++ more') = addAll (addAll l more) more' :=
  List.foldl_append

/-- The values of a second list are added to those of the first one. -/
theorem distinct_append (l more : List α) : distinct (l ++ more) = addAll (distinct l) more := addAll_append [] l more

theorem distinct_concat (l : List α) (a : α) : distinct (l ++ [a]) = addNew (distinct l) a := distinct_append l [a]

/-- Repeats among the values that are added make no difference. -/
theorem addAll_distinct (l more : List α) : addAll l (distinct more) = addAll l more := by
  induction more using List.reverseRecOn with
  | nil => rfl
  | append_singleton more a ih =>
    have hrest : addAll l (more ++ [a]) = addNew (addAll l more) a := addAll_append l more [a]
    rw [distinct_concat, hrest, addNew]
    split
    · rename_i ha
      rw [ih, addNew, if_pos (mem_addAll.mpr (Or.inr (mem_distinct.mp ha)))]
    · rw [← ih]
      exact addAll_append l (distinct more) [a]

/-- A list without repeats is kept. -/
theorem distinct_of_nodup {l : List α} (h : l.Nodup) : distinct l = l := by
  induction l using List.reverseRecOn with
  | nil => rfl
  | append_singleton l a ih =>
    obtain ⟨hl, -, hdisjoint⟩ := List.nodup_append.mp h
    rw [distinct_concat, ih hl, addNew, if_neg (fun ha => hdisjoint a ha a List.mem_cons_self rfl)]

/-- Adding values one by one, each once, keeps the first occurrences. -/
theorem distinct_eq_eraseDups (l : List α) : distinct l = l.eraseDups := by
  induction l using List.reverseRecOn with
  | nil => rfl
  | append_singleton l a ih =>
    rw [distinct_concat, List.eraseDups_append, ih, addNew]
    by_cases ha : a ∈ l
    · rw [if_pos (List.mem_eraseDups.mpr ha)]
      simp [List.removeAll, ha]
    · rw [if_neg (fun h => ha (List.mem_eraseDups.mp h))]
      simp [List.removeAll, ha, List.eraseDups_cons]

/-- Values that a function makes equal are one value, whether repeats are dropped before it or not. -/
theorem distinct_map_distinct {β : Type} [DecidableEq β] (f : α → β) (l : List α) :
    distinct ((distinct l).map f) = distinct (l.map f) := by
  induction l using List.reverseRecOn with
  | nil => rfl
  | append_singleton l a ih =>
    rw [distinct_concat, List.map_append, List.map_singleton, distinct_concat, ← ih, addNew]
    split
    · rename_i ha
      rw [addNew, if_pos (mem_distinct.mpr (List.mem_map_of_mem ha))]
    · rw [List.map_append, List.map_singleton, distinct_concat]

/-- Distinct values stand in the order in which they first occur. -/
theorem pairwise_idxOf_distinct (l : List α) :
    (distinct l).Pairwise (fun a b => l.idxOf a < l.idxOf b) := by
  induction l using List.reverseRecOn with
  | nil => exact List.Pairwise.nil
  | append_singleton l a ih =>
    have hkept : ∀ b ∈ distinct l, (l ++ [a]).idxOf b = l.idxOf b :=
      fun b hb => List.idxOf_append_of_mem (mem_distinct.mp hb)
    have hold : (distinct l).Pairwise (fun b c => (l ++ [a]).idxOf b < (l ++ [a]).idxOf c) := by
      refine ih.imp_of_mem ?_
      intro b c hb hc hbc
      rw [hkept b hb, hkept c hc]
      exact hbc
    rw [distinct_concat, addNew]
    split
    · exact hold
    · rename_i ha
      rw [List.pairwise_append]
      refine ⟨hold, List.pairwise_singleton _ a, ?_⟩
      intro b hb c hc
      rw [List.mem_singleton] at hc
      subst hc
      have hnew : c ∉ l := fun h => ha (mem_distinct.mpr h)
      rw [hkept b hb, List.idxOf_append_of_notMem hnew]
      have hlt := List.idxOf_lt_length_of_mem (mem_distinct.mp hb)
      omega

end Lists

namespace Catalog

variable {α : Type} [Named α]

/-- A name has at most one item. -/
theorem eq_of_name_eq {c : Catalog α} {a b : α} (ha : a ∈ c.items) (hb : b ∈ c.items)
    (h : Named.name a = Named.name b) : a = b := List.inj_on_of_nodup_map c.nodup ha hb h

/-- The item of a name is the one that has the name. -/
theorem get?_eq_some_iff {c : Catalog α} {n : String} {a : α} :
    c.get? n = some a ↔ a ∈ c.items ∧ Named.name a = n := by
  constructor
  · intro h
    exact ⟨List.mem_of_find?_eq_some h, by simpa using List.find?_some h⟩
  · rintro ⟨ha, rfl⟩
    cases h : c.get? (Named.name a) with
    | none =>
      have := List.find?_eq_none.mp h a ha
      simp at this
    | some b =>
      have hb : Named.name b = Named.name a := by simpa using List.find?_some h
      rw [eq_of_name_eq (List.mem_of_find?_eq_some h) ha hb]

/-- What a catalog gives for a name is one of its items. -/
theorem mem_of_get? {c : Catalog α} {n : String} {a : α} (h : c.get? n = some a) : a ∈ c.items :=
  (get?_eq_some_iff.mp h).1

/-- What a catalog gives for a name has this name. -/
theorem name_of_get? {c : Catalog α} {n : String} {a : α} (h : c.get? n = some a) : Named.name a = n :=
  (get?_eq_some_iff.mp h).2

/-- A catalog gives every item for its name. -/
theorem get?_name {c : Catalog α} {a : α} (h : a ∈ c.items) : c.get? (Named.name a) = some a :=
  get?_eq_some_iff.mpr ⟨h, rfl⟩

/-- The names of a catalog are those for which it gives an item. -/
theorem mem_names_iff {c : Catalog α} {n : String} : n ∈ c.names ↔ ∃ a, c.get? n = some a := by
  constructor
  · intro h
    obtain ⟨a, ha, rfl⟩ := List.mem_map.mp h
    exact ⟨a, get?_name ha⟩
  · rintro ⟨a, ha⟩
    exact mem_names_of_get? ha

theorem contains_iff_mem {c : Catalog α} {n : String} : c.contains n = true ↔ n ∈ c.names := List.contains_iff_mem

/-- A catalog gives nothing exactly for the names that it does not have. -/
theorem get?_eq_none_iff {c : Catalog α} {n : String} : c.get? n = none ↔ n ∉ c.names := by
  rw [mem_names_iff]
  cases c.get? n <;> simp

/-- A catalog that holds all items of another one gives for each of its names the same item. -/
theorem get?_eq_some_of_subset {c c' : Catalog α} (h : ∀ a ∈ c.items, a ∈ c'.items) {n : String} {a : α}
    (ha : c.get? n = some a) : c'.get? n = some a :=
  get?_eq_some_iff.mpr ⟨h a (mem_of_get? ha), name_of_get? ha⟩

/-- Names that remain when others are removed compare by their places as before. -/
theorem indexOf_le_indexOf_iff {c c' : Catalog α} (h : c.items.Sublist c'.items) {x y : String} (hx : x ∈ c.names)
    (hy : y ∈ c.names) : c'.indexOf x ≤ c'.indexOf y ↔ c.indexOf x ≤ c.indexOf y := by
  have key : ∀ {l l' : List String}, l.Sublist l' → l'.Nodup → x ∈ l → y ∈ l →
      (l'.idxOf x ≤ l'.idxOf y ↔ l.idxOf x ≤ l.idxOf y) := by
    intro l l' hsub
    induction hsub with
    | slnil => exact fun _ hx _ => absurd hx List.not_mem_nil
    | @cons l l' a hsub ih =>
      intro hnodup hx hy
      rw [List.nodup_cons] at hnodup
      have hax : a ≠ x := fun e => hnodup.1 (e ▸ hsub.subset hx)
      have hay : a ≠ y := fun e => hnodup.1 (e ▸ hsub.subset hy)
      rw [List.idxOf_cons_ne _ hax, List.idxOf_cons_ne _ hay, ← ih hnodup.2 hx hy]
      omega
    | @cons_cons l l' a hsub ih =>
      intro hnodup hx hy
      rw [List.nodup_cons] at hnodup
      by_cases hax : a = x
      · subst hax
        rw [List.idxOf_cons_self, List.idxOf_cons_self]
        simp
      · by_cases hay : a = y
        · subst hay
          rw [List.idxOf_cons_self, List.idxOf_cons_self, List.idxOf_cons_ne _ hax, List.idxOf_cons_ne _ hax]
          omega
        · have hx' : x ∈ l := (List.mem_cons.mp hx).resolve_left (Ne.symm hax)
          have hy' : y ∈ l := (List.mem_cons.mp hy).resolve_left (Ne.symm hay)
          rw [List.idxOf_cons_ne _ hax, List.idxOf_cons_ne _ hay, List.idxOf_cons_ne _ hax, List.idxOf_cons_ne _ hay,
            Nat.succ_le_succ_iff, Nat.succ_le_succ_iff, ih hnodup.2 hx' hy']
  exact key (h.map Named.name) c'.nodup hx hy

/-! ### Putting an item -/

/-- An item of a new name comes last. -/
theorem items_put_of_new {c : Catalog α} {a : α} (h : Named.name a ∉ c.names) : (c.put a).items = c.items ++ [a] := by
  unfold put
  rw [dif_neg h]

/-- An item of a new name brings this name, as the last one. -/
theorem names_put_of_new {c : Catalog α} {a : α} (h : Named.name a ∉ c.names) :
    (c.put a).names = c.names ++ [Named.name a] := by
  simp [names, items_put_of_new h]

/-- An item of a name that is taken changes no name. -/
theorem names_put_of_taken {c : Catalog α} {a : α} (h : Named.name a ∈ c.names) : (c.put a).names = c.names := by
  unfold put
  rw [dif_pos h]
  exact map_name_replace a c.items

/-- A name is added unless it is taken. -/
theorem names_put (c : Catalog α) (a : α) : (c.put a).names = addNew c.names (Named.name a) := by
  unfold addNew
  split
  · rename_i h
    exact names_put_of_taken h
  · rename_i h
    exact names_put_of_new h

/-- After an item was put, its name is there besides the others. -/
theorem mem_names_put {c : Catalog α} {a : α} {n : String} : n ∈ (c.put a).names ↔ n ∈ c.names ∨ n = Named.name a := by
  by_cases h : Named.name a ∈ c.names
  · rw [names_put_of_taken h]
    constructor
    · exact Or.inl
    · rintro (hn | rfl)
      · exact hn
      · exact h
  · simp [names_put_of_new h]

/-- The catalog gives the item that was put under its name, and what it gave before under any other name. -/
theorem get?_put (c : Catalog α) (a : α) (n : String) :
    (c.put a).get? n = if n = Named.name a then some a else c.get? n := by
  by_cases h : Named.name a ∈ c.names
  · have hput : (c.put a).items = c.items.map (fun b => if Named.name b = Named.name a then a else b) := by
      unfold put
      rw [dif_pos h]
    split
    · rename_i hn
      obtain ⟨b, hb, hba⟩ := List.mem_map.mp h
      rw [get?_eq_some_iff, hput, List.mem_map]
      exact ⟨⟨b, hb, by rw [if_pos hba]⟩, hn.symm⟩
    · rename_i hn
      ext b
      rw [get?_eq_some_iff, get?_eq_some_iff, hput, List.mem_map]
      constructor
      · rintro ⟨⟨b', hb', hbb⟩, hbn⟩
        split at hbb
        · exact absurd (by rw [← hbn, ← hbb]) hn
        · subst hbb
          exact ⟨hb', hbn⟩
      · rintro ⟨hb, hbn⟩
        exact ⟨⟨b, hb, by rw [if_neg (by rw [hbn]; exact hn)]⟩, hbn⟩
  · unfold get?
    rw [items_put_of_new h, List.find?_append]
    split
    · rename_i hn
      have : c.items.find? (fun b => Named.name b == n) = none := by
        have hnone := get?_eq_none_iff.mpr h
        rw [← hn] at hnone
        exact hnone
      rw [this]
      simp [hn]
    · rename_i hn
      have : ¬Named.name a = n := fun e => hn e.symm
      simp [this]

/-- The item that was put is the one of its name. -/
theorem get?_put_of_name {c : Catalog α} {a : α} {n : String} (h : Named.name a = n) : (c.put a).get? n = some a := by
  rw [get?_put, if_pos h.symm]

/-- Putting an item changes nothing for other names. -/
theorem get?_put_of_ne {c : Catalog α} {a : α} {n : String} (h : Named.name a ≠ n) : (c.put a).get? n = c.get? n := by
  rw [get?_put, if_neg (Ne.symm h)]

/-- After an item was offered, its name is there besides the others. -/
theorem mem_names_putNew {c : Catalog α} {a : α} {n : String} :
    n ∈ (c.putNew a).names ↔ n ∈ c.names ∨ n = Named.name a := by
  unfold putNew
  split
  · rename_i h
    constructor
    · exact Or.inl
    · rintro (hn | rfl)
      · exact hn
      · exact h
  · exact mem_names_put

/-- After items were put, their names are there besides the others. -/
theorem mem_names_foldl_put {c : Catalog α} {l : List α} {n : String} :
    n ∈ (l.foldl put c).names ↔ n ∈ c.names ∨ n ∈ l.map Named.name := by
  induction l generalizing c with
  | nil => simp
  | cons a l ih => rw [List.foldl_cons, ih, mem_names_put, List.map_cons, List.mem_cons, or_assoc]

/-- Items of new and distinct names come last in their order. -/
theorem items_foldl_put_of_nodup {c : Catalog α} {l : List α} (h : ((c.items ++ l).map Named.name).Nodup) :
    (l.foldl put c).items = c.items ++ l := by
  induction l generalizing c with
  | nil => exact (List.append_nil c.items).symm
  | cons a l ih =>
    have hnew : Named.name a ∉ c.names := by
      rw [List.map_append, List.map_cons] at h
      intro hmem
      exact (List.nodup_append.mp h).2.2 _ hmem _ List.mem_cons_self rfl
    have hput : (c.put a).items ++ l = c.items ++ a :: l := by
      rw [items_put_of_new hnew, List.append_assoc, List.singleton_append]
    rw [List.foldl_cons, ih (by rw [hput]; exact h), hput]

/-- A catalog is made again of its items. -/
theorem ofList_items (c : Catalog α) : ofList c.items = c := ext (items_foldl_put_of_nodup c.nodup)

/-- After items were offered, their names are there besides the others. -/
theorem mem_names_foldl_putNew {c : Catalog α} {l : List α} {n : String} :
    n ∈ (l.foldl putNew c).names ↔ n ∈ c.names ∨ n ∈ l.map Named.name := by
  induction l generalizing c with
  | nil => simp
  | cons a l ih => rw [List.foldl_cons, ih, mem_names_putNew, List.map_cons, List.mem_cons, or_assoc]

/-- The names of items that are put one after the other come after those that are there, each once. -/
theorem names_foldl_put (c : Catalog α) (l : List α) : (l.foldl put c).names = addAll c.names (l.map Named.name) := by
  induction l generalizing c with
  | nil => rfl
  | cons a l ih =>
    rw [List.foldl_cons, ih, names_put]
    rfl

/-- Names that are new come after the others, in the order of the items. -/
theorem names_foldl_putNew (c : Catalog α) (l : List α) :
    (l.foldl putNew c).names = addAll c.names (l.map Named.name) := by
  induction l generalizing c with
  | nil => rfl
  | cons a l ih =>
    have hnames : (c.putNew a).names = addNew c.names (Named.name a) := by
      unfold putNew
      split
      · rename_i h
        rw [addNew, if_pos h]
      · exact names_put c a
    rw [List.foldl_cons, ih, hnames]
    rfl

/-- Items of distinct names that are put one after the other win over those that are there. -/
theorem get?_foldl_put (c d : Catalog α) (n : String) : (d.items.foldl put c).get? n = (d.get? n).or (c.get? n) := by
  have key : ∀ (l : List α) (c : Catalog α), (l.map Named.name).Nodup →
      (l.foldl put c).get? n = (l.find? (fun a => Named.name a == n)).or (c.get? n) := by
    intro l
    induction l with
    | nil => exact fun c _ => rfl
    | cons a l ih =>
      intro c h
      rw [List.map_cons, List.nodup_cons] at h
      rw [List.foldl_cons, ih _ h.2, get?_put, List.find?_cons]
      by_cases hn : n = Named.name a
      · have hnone : l.find? (fun b => Named.name b == n) = none := by
          rw [List.find?_eq_none]
          intro b hb hbn
          exact h.1 (hn ▸ List.mem_map.mpr ⟨b, hb, by simpa using hbn⟩)
        simp [hn.symm, hnone]
      · have hne : (Named.name a == n) = false := by simpa using fun e => hn e.symm
        rw [if_neg hn, hne]
  exact key d.items c d.nodup

/-- Items that are only put under new names give way to those that are there. -/
theorem get?_foldl_putNew (c d : Catalog α) (n : String) :
    (d.items.foldl putNew c).get? n = (c.get? n).or (d.get? n) := by
  have key : ∀ (l : List α) (c : Catalog α),
      (l.foldl putNew c).get? n = (c.get? n).or (l.find? (fun a => Named.name a == n)) := by
    intro l
    induction l with
    | nil => exact fun c => (Option.or_none).symm
    | cons a l ih =>
      intro c
      rw [List.foldl_cons, ih, List.find?_cons, putNew]
      by_cases hn : n = Named.name a
      · subst hn
        split
        · rename_i h
          obtain ⟨b, hb⟩ := mem_names_iff.mp h
          simp [hb]
        · rename_i h
          rw [get?_put, if_pos rfl, get?_eq_none_iff.mpr h]
          simp
      · have hne : (Named.name a == n) = false := by simpa using fun e => hn e.symm
        rw [hne]
        split
        · rfl
        · rw [get?_put, if_neg hn]
  exact key d.items c

end Catalog

namespace Keyed

variable {β : Type}

/-- A value is found for a key exactly if it stands there with this key. -/
theorem lookup_eq_some_iff {c : Keyed β} {k : String} {v : β} : c.lookup k = some v ↔ (k, v) ∈ c.items := by
  unfold lookup
  rw [Option.map_eq_some_iff]
  constructor
  · rintro ⟨⟨k', v'⟩, h, rfl⟩
    obtain ⟨hm, rfl⟩ := Catalog.get?_eq_some_iff.mp h
    exact hm
  · intro h
    exact ⟨(k, v), Catalog.get?_eq_some_iff.mpr ⟨h, rfl⟩, rfl⟩

/-- The keys are those for which a value is found. -/
theorem mem_names_iff {c : Keyed β} {k : String} : k ∈ c.names ↔ ∃ v, c.lookup k = some v := by
  rw [Catalog.mem_names_iff]
  unfold lookup
  cases c.get? k <;> simp

/-- A catalog gives the value that was set under its key, and what it gave before under any other key. -/
theorem lookup_set (c : Keyed β) (k k' : String) (v : β) :
    (c.set k v).lookup k' = if k' = k then some v else c.lookup k' := by
  have hk : Named.name (k, v) = k := rfl
  unfold lookup set
  rw [Catalog.get?_put, hk]
  split
  · rfl
  · rfl

/-- The values of a catalog that are set one after the other win over those that are there. -/
theorem lookup_foldl_put (c d : Keyed β) (k : String) :
    Keyed.lookup (d.items.foldl Catalog.put c) k = (d.lookup k).or (c.lookup k) := by
  unfold lookup
  rw [Catalog.get?_foldl_put]
  cases d.get? k <;> rfl

/-- The values of a catalog that are only set for new keys give way to those that are there. -/
theorem lookup_foldl_putNew (c d : Keyed β) (k : String) :
    Keyed.lookup (d.items.foldl Catalog.putNew c) k = (c.lookup k).or (d.lookup k) := by
  unfold lookup
  rw [Catalog.get?_foldl_putNew]
  cases c.get? k <;> rfl

/-- A function on the values leaves every value under its key. -/
theorem lookup_mapValues {γ : Type} (c : Keyed β) (f : β → γ) (k : String) :
    (c.mapValues f).lookup k = (c.lookup k).map f := by
  have hname : ((fun a : String × γ => Named.name a == k) ∘ fun kv : String × β => (kv.1, f kv.2)) =
      fun a => Named.name a == k := rfl
  unfold lookup mapValues Catalog.get?
  rw [List.find?_map, hname, Option.map_map, Option.map_map]
  rfl

/-- After a key was set, it is there besides the others. -/
theorem mem_names_set {c : Keyed β} {k k' : String} {v : β} : k' ∈ (c.set k v).names ↔ k' ∈ c.names ∨ k' = k :=
  Catalog.mem_names_put

end Keyed

end BuildPlan
