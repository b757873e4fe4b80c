import BuildPlan.Manifest
import Mathlib.Data.List.DropRight

/-!
# Symbols of defines

A define is checked in a manifest before it is parsed, and the two look at its text in different ways: the check takes what
is before the first `=` and asks whether it is blank, the parser splits the text at the first `=` and trims the parts. They
agree: a define gives a well formed symbol exactly if it is not found to be unnamed (`isSymbol_parseDefine_iff`).
-/

namespace BuildPlan

namespace Text

/-! ### Trimming -/

/-- No blank at either end. -/
structure IsTrimmed (cs : List Char) : Prop where
  head : ∀ c ∈ cs.head?, isBlank c = false
  getLast : ∀ c ∈ cs.getLast?, isBlank c = false

variable {cs : List Char}

/-- The end is trimmed as the library drops blanks from the right. -/
theorem trimEndChars_eq_rdropWhile (cs : List Char) : trimEndChars cs = cs.rdropWhile isBlank := rfl

/-- A text that is trimmed at its end is a beginning of the text. -/
theorem isPrefix_trimEndChars (cs : List Char) : trimEndChars cs <+: cs := List.rdropWhile_prefix isBlank cs

/-- Trimming brings no characters. -/
theorem trimChars_subset (cs : List Char) : trimChars cs ⊆ cs :=
  List.Subset.trans (isPrefix_trimEndChars _).subset (List.dropWhile_suffix isBlank).subset

/-- What is left when the blanks in front are dropped begins with no blank. -/
theorem not_isBlank_of_mem_head?_dropWhile {c : Char} (h : c ∈ (cs.dropWhile isBlank).head?) : isBlank c = false := by
  have hhead := List.head?_dropWhile_not isBlank cs
  rw [Option.mem_def.mp h] at hhead
  exact hhead

/-- A trimmed text has no blank at either end. The end is trimmed last, which leaves the first character as it is. -/
theorem isTrimmed_trimChars (cs : List Char) : IsTrimmed (trimChars cs) where
  head := by
    intro c hc
    obtain ⟨rest, hrest⟩ := isPrefix_trimEndChars (cs.dropWhile isBlank)
    have hhead : c ∈ (cs.dropWhile isBlank).head? := hrest ▸ List.mem_head?_append_of_mem_head? hc
    exact not_isBlank_of_mem_head?_dropWhile hhead
  getLast := by
    intro c hc
    rw [trimChars, trimEndChars, List.getLast?_reverse] at hc
    exact not_isBlank_of_mem_head?_dropWhile hc

/-- Trimming leaves nothing exactly if there are only blanks, since the first character that is kept is none. -/
theorem trimChars_eq_nil_iff : trimChars cs = [] ↔ cs.all isBlank = true := by
  rw [trimChars, trimEndChars_eq_rdropWhile, List.rdropWhile_eq_nil_iff, List.all_eq_true]
  constructor
  · intro h
    cases hdrop : cs.dropWhile isBlank with
    | nil => exact List.dropWhile_eq_nil_iff.mp hdrop
    | cons c rest =>
      have hblank := h c (hdrop ▸ List.mem_cons_self)
      rw [not_isBlank_of_mem_head?_dropWhile (by rw [hdrop]; rfl)] at hblank
      cases hblank
  · exact fun h c hc => h c ((List.dropWhile_suffix isBlank).subset hc)

end Text

/-! ### The name of a define -/

/-- A well formed symbol: it is not empty, holds no `=` and has no blank at either end. -/
structure IsSymbol (s : String) : Prop where
  ne_empty : s ≠ ""
  no_equals : '=' ∉ s.toList
  trimmed : Text.IsTrimmed s.toList

/-- Before the first equals sign there is none. -/
theorem not_mem_splitEquals (cs : List Char) : '=' ∉ (splitEquals cs).1 := by
  induction cs with
  | nil => exact List.not_mem_nil
  | cons c cs ih =>
    unfold splitEquals
    split
    · exact List.not_mem_nil
    · rename_i hc
      exact fun hmem => (List.mem_cons.mp hmem).elim (fun he => hc he.symm) ih

/-- The parser and the check of defines take the same characters for the name. -/
theorem beforeChars_equals (cs : List Char) : Text.beforeChars ['='] cs = (splitEquals cs).1 := by
  induction cs with
  | nil => rfl
  | cons c cs ih =>
    have hprefix : ['='].isPrefixOf (c :: cs) = true ↔ c = '=' := by
      rw [List.isPrefixOf_iff_prefix, List.singleton_prefix_cons_iff]
      exact eq_comm
    unfold Text.beforeChars splitEquals
    rw [if_congr hprefix rfl rfl, ih]
    split <;> rfl

/-- The name of a define is its text before the first equals sign, trimmed. -/
theorem toList_parseDefine (define : String) :
    (parseDefine define).1.toList = Text.trimChars (splitEquals define.toList).1 := String.toList_ofList

/-- A define counts as unnamed exactly if its name is empty. -/
theorem isUnnamed_iff {define : String} : Manifest.isUnnamed define = true ↔ (parseDefine define).1 = "" := by
  have hbefore : (Text.before "=" define).toList = (splitEquals define.toList).1 :=
    String.toList_ofList.trans (beforeChars_equals _)
  unfold Manifest.isUnnamed Text.isBlankText
  rw [hbefore, ← String.toList_eq_nil_iff, toList_parseDefine, Text.trimChars_eq_nil_iff]

/-- What the parser takes for the name of a define is a well formed symbol unless it is empty. -/
theorem isSymbol_parseDefine {define : String} (h : (parseDefine define).1 ≠ "") : IsSymbol (parseDefine define).1 where
  ne_empty := h
  no_equals := by
    rw [toList_parseDefine]
    exact fun hmem => not_mem_splitEquals _ (Text.trimChars_subset _ hmem)
  trimmed := by
    rw [toList_parseDefine]
    exact Text.isTrimmed_trimChars _

/-- A define gives a well formed symbol exactly if it has a name. -/
theorem isSymbol_parseDefine_iff {define : String} :
    IsSymbol (parseDefine define).1 ↔ Manifest.isUnnamed define = false := by
  rw [← Bool.not_eq_true, isUnnamed_iff]
  exact ⟨IsSymbol.ne_empty, isSymbol_parseDefine⟩

example : Manifest.isUnnamed " NAME\t= 1=2 " = false ∧ (parseDefine " NAME\t= 1=2 ").1 = "NAME" := by decide +kernel

end BuildPlan
