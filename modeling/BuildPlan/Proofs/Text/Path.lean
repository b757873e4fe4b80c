import BuildPlan.Text.Path
import Mathlib.Data.List.Basic

/-!
# Segments of paths

How the segments of a path come together: they are put together and taken apart again without loss (`splitSlash_joinSlash`),
and a path that is joined to a base has the segments of the base and then its own (`splitSlash_append_slash`).
-/

namespace BuildPlan.Text.Path

variable {cs : List Char} {segment : List Char}

/-- Every text has a segment, be it an empty one. -/
theorem splitSlash_ne_nil (cs : List Char) : splitSlash cs ≠ [] := by
  cases cs with
  | nil => exact List.cons_ne_nil _ _
  | cons c cs =>
    unfold splitSlash
    split
    · exact List.cons_ne_nil _ _
    · split <;> exact List.cons_ne_nil _ _

/-- A slash at the beginning ends an empty segment. -/
theorem splitSlash_slash (cs : List Char) : splitSlash ('/' :: cs) = [] :: splitSlash cs := by
  obtain ⟨s, rest, h⟩ := List.exists_cons_of_ne_nil (splitSlash_ne_nil cs)
  rw [splitSlash, h]
  rfl

/-- A character that is no slash goes to the first segment. -/
theorem splitSlash_cons {c : Char} (hc : c ≠ '/') {s : List Char} {rest : List (List Char)} (h : splitSlash cs = s :: rest) :
    splitSlash (c :: cs) = (c :: s) :: rest := by
  rw [splitSlash, h]
  exact if_neg hc

/-- The segments before a separator and those after it. -/
theorem splitSlash_append_slash (a b : List Char) : splitSlash (a ++ '/' :: b) = splitSlash a ++ splitSlash b := by
  induction a with
  | nil => exact splitSlash_slash b
  | cons c a ih =>
    by_cases hc : c = '/'
    · subst hc
      rw [List.cons_append, splitSlash_slash, splitSlash_slash, ih, List.cons_append]
    · obtain ⟨s, rest, h⟩ := List.exists_cons_of_ne_nil (splitSlash_ne_nil a)
      rw [h, List.cons_append] at ih
      rw [List.cons_append, splitSlash_cons hc ih, splitSlash_cons hc h, List.cons_append]

/-- No segment has a slash. -/
theorem slash_not_mem_of_mem_splitSlash (h : segment ∈ splitSlash cs) : '/' ∉ segment := by
  induction cs generalizing segment with
  | nil =>
    rw [List.mem_singleton.mp h]
    exact List.not_mem_nil
  | cons c cs ih =>
    by_cases hc : c = '/'
    · subst hc
      rw [splitSlash_slash] at h
      rcases List.mem_cons.mp h with rfl | h
      · exact List.not_mem_nil
      · exact ih h
    · obtain ⟨s, rest, hs⟩ := List.exists_cons_of_ne_nil (splitSlash_ne_nil cs)
      rw [splitSlash_cons hc hs] at h
      rcases List.mem_cons.mp h with rfl | h
      · rw [List.mem_cons, not_or]
        exact ⟨fun hslash => hc hslash.symm, ih (hs ▸ List.mem_cons_self)⟩
      · exact ih (hs ▸ List.mem_cons_of_mem _ h)

/-- A text without a slash is its only segment. -/
theorem splitSlash_of_not_mem (h : '/' ∉ cs) : splitSlash cs = [cs] := by
  induction cs with
  | nil => rfl
  | cons c cs ih =>
    rw [List.mem_cons, not_or] at h
    exact splitSlash_cons (fun hc => h.1 hc.symm) (ih h.2)

/-- Segments that are put together are taken apart again. -/
theorem splitSlash_joinSlash {l : List (List Char)} (hne : l ≠ []) (h : ∀ s ∈ l, '/' ∉ s) : splitSlash (joinSlash l) = l := by
  induction l with
  | nil => exact absurd rfl hne
  | cons s l ih =>
    cases l with
    | nil => exact splitSlash_of_not_mem (h s List.mem_cons_self)
    | cons s' l =>
      rw [joinSlash, splitSlash_append_slash, splitSlash_of_not_mem (h s List.mem_cons_self),
        ih (List.cons_ne_nil _ _) (fun t ht => h t (List.mem_cons_of_mem _ ht)), List.singleton_append]
      exact List.cons_ne_nil _ _

/-- A path is absolute or empty exactly if its first segment is empty. -/
theorem head?_splitSlash_eq_nil_iff : (splitSlash cs).head? = some [] ↔ cs = [] ∨ ∃ rest, cs = '/' :: rest := by
  cases cs with
  | nil => simp [splitSlash]
  | cons c cs =>
    by_cases hc : c = '/'
    · subst hc
      simp [splitSlash_slash]
    · obtain ⟨s, rest, h⟩ := List.exists_cons_of_ne_nil (splitSlash_ne_nil cs)
      simp [splitSlash_cons hc h, hc]

/-- A path is absolute exactly if it begins with a slash. -/
theorem isAbsolute_iff {p : String} : isAbsolute p = true ↔ ∃ rest, p.toList = '/' :: rest := by
  unfold isAbsolute
  cases p.toList <;> simp

/-- A path is relative exactly if it does not begin with a slash. -/
theorem isAbsolute_eq_false_iff {p : String} : isAbsolute p = false ↔ ∀ rest, p.toList ≠ '/' :: rest := by
  rw [Bool.eq_false_iff, ne_eq, isAbsolute_iff, not_exists]

/-! ### Steps from the end -/

/-- The steps of an absolute path are those of its segments that are not idle at the end. -/
theorem stepsRev_of_absolute {p : String} (h : p.toList = '/' :: cs) :
    stepsRev p = (splitSlash cs).reverse.dropWhile isIdle := by
  rw [stepsRev, h]
  rfl

/-- The steps of a relative path are its segments but for the idle ones at the end, a dot in front apart. -/
theorem stepsRev_of_relative {p : String} (h : isAbsolute p = false) :
    stepsRev p = dropIdleEnd (splitSlash p.toList).reverse := by
  unfold stepsRev
  split
  · rename_i rest hrest
    exact absurd hrest (isAbsolute_eq_false_iff.mp h rest)
  · rfl

/-- What is left without the idle segments at the end is the beginning of the path. -/
theorem dropIdleEnd_suffix (rev : List (List Char)) : dropIdleEnd rev <:+ rev := by
  fun_induction dropIdleEnd rev with
  | case1 => exact List.suffix_refl _
  | case2 s hs => exact List.nil_suffix
  | case3 s hs => exact List.suffix_refl _
  | case4 s rest hne hidle ih => exact ih.trans (List.suffix_cons _ _)
  | case5 s rest hne hidle => exact List.suffix_refl _

/-- What is kept of some segments without the idle ones at their end. -/
theorem reverse_dropIdleEnd_isPrefixOf (segments : List (List Char)) : (dropIdleEnd segments.reverse).reverse <+: segments := by
  have h := List.reverse_prefix.mpr (dropIdleEnd_suffix segments.reverse)
  rwa [List.reverse_reverse] at h

/-- The segments that stay when the idle ones at the end are dropped are a beginning of all. -/
theorem reverse_dropWhile_isIdle_isPrefixOf (segments : List (List Char)) :
    (segments.reverse.dropWhile isIdle).reverse <+: segments := by
  have h := List.reverse_prefix.mpr (List.dropWhile_suffix (l := segments.reverse) isIdle)
  rwa [List.reverse_reverse] at h

/-- Nothing is dropped where the last segment is not idle. -/
theorem dropIdleEnd_cons (h : isIdle segment = false) (rest : List (List Char)) :
    dropIdleEnd (segment :: rest) = segment :: rest := by
  cases rest with
  | nil =>
    rw [isIdle, Bool.or_eq_false_iff] at h
    rw [dropIdleEnd, h.1]
    rfl
  | cons s rest =>
    rw [dropIdleEnd, h]
    · rfl
    · exact List.cons_ne_nil _ _

end BuildPlan.Text.Path
