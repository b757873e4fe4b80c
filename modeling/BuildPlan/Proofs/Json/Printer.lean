import BuildPlan.Json.Printer
import BuildPlan.Json.Reader
import BuildPlan.Proofs.Text.Digits
import Mathlib.Tactic.SplitIfs

/-!
# The texts of a value

In both texts of an array or an object every item but the first one comes after a comma. The text on one line holds no
control character, so no line break (`Json.Sound.not_control`).
-/

namespace BuildPlan.Json

/-- Values whose decimal numbers, at any depth, are numbers as they are written. -/
inductive Sound : Json → Prop
  | null : Sound null
  | bool (b : Bool) : Sound (bool b)
  | int (i : Int) : Sound (int i)
  | decimal {d : String} (hchars : ∀ c ∈ d.toList, isNumberChar c = true) (hread : readNumber? d.toList = some (decimal d)) :
    Sound (decimal d)
  | str (s : String) : Sound (str s)
  | unpaired : Sound unpaired
  | arr {items : List Json} (h : ∀ j ∈ items, Sound j) : Sound (arr items)
  | obj {members : List (String × Json)} (h : ∀ m ∈ members, Sound m.2) : Sound (obj members)

@[simp] theorem sound_null : Sound null := .null

@[simp] theorem sound_int (i : Int) : Sound (int i) := .int i

@[simp] theorem sound_str (s : String) : Sound (str s) := .str s

/-- A list is sound if its items are. -/
@[simp] theorem sound_arr_iff {items : List Json} : Sound (arr items) ↔ ∀ j ∈ items, Sound j :=
  ⟨fun h => by cases h; assumption, .arr⟩

/-- A record is sound if the values of its members are. -/
@[simp] theorem sound_obj_iff {members : List (String × Json)} : Sound (obj members) ↔ ∀ m ∈ members, Sound m.2 :=
  ⟨fun h => by cases h; assumption, .obj⟩

/-- A list of texts is sound. -/
@[simp] theorem sound_ofStrings (texts : List String) : Sound (ofStrings texts) := by simp [ofStrings]

/-- A text that may be missing is sound. -/
@[simp] theorem sound_ofOption (text : Option String) : Sound (ofOption text) := by
  cases text with
  | none => exact sound_null
  | some s => exact sound_str s

/-! ### Items and members -/

/-- In a compact list each item but the first one stands after a comma. -/
theorem compactItems_cons (j : Json) (items : List Json) :
    compactItems (j :: items) = compactChars j ++ items.flatMap (fun i => ',' :: compactChars i) := by
  induction items generalizing j with
  | nil => rw [compactItems, List.flatMap_nil, List.append_nil]
  | cons i items ih => rw [compactItems, ih, List.flatMap_cons, List.cons_append]; exact List.cons_ne_nil _ _

/-- In a compact record each member but the first one stands after a comma. -/
theorem compactMembers_cons (m : String × Json) (members : List (String × Json)) :
    compactMembers (m :: members) = stringChars m.1 ++ ':' :: compactChars m.2 ++
      members.flatMap (fun n => ',' :: (stringChars n.1 ++ ':' :: compactChars n.2)) := by
  induction members generalizing m with
  | nil => rw [compactMembers, List.flatMap_nil, List.append_nil]
  | cons n members ih =>
    rw [compactMembers, ih, List.flatMap_cons]
    · simp
    · exact List.cons_ne_nil _ _

/-- In a pretty list each item stands on a line of its own, all but the first one after a comma. -/
theorem prettyItems_cons (level : Nat) (j : Json) (items : List Json) :
    prettyItems level (j :: items) = newLine level ++ prettyChars level j ++
      items.flatMap (fun i => ',' :: (newLine level ++ prettyChars level i)) := by
  induction items generalizing j with
  | nil => rw [prettyItems, List.flatMap_nil, List.append_nil]
  | cons i items ih => rw [prettyItems, ih, List.flatMap_cons, List.cons_append]; exact List.cons_ne_nil _ _

/-- In a pretty record each member stands on a line of its own, all but the first one after a comma. -/
theorem prettyMembers_cons (level : Nat) (m : String × Json) (members : List (String × Json)) :
    prettyMembers level (m :: members) = newLine level ++ (stringChars m.1 ++ ':' :: ' ' :: prettyChars level m.2) ++
      members.flatMap (fun n => ',' :: (newLine level ++ (stringChars n.1 ++ ':' :: ' ' :: prettyChars level n.2))) := by
  induction members generalizing m with
  | nil => rw [prettyMembers, List.flatMap_nil, List.append_nil, List.append_assoc]
  | cons n members ih =>
    rw [prettyMembers, ih, List.flatMap_cons]
    · simp
    · exact List.cons_ne_nil _ _

/-! ### Characters -/

/-- Numbers are written in the characters of which numbers are made. -/
theorem isNumberChar_of_mem_intChars {i : Int} {c : Char} (h : c ∈ intChars i) : isNumberChar c = true := by
  have hdigit : ∀ {n}, c ∈ Nat.toDigits 10 n → isNumberChar c = true := by
    intro n hc
    simp [isNumberChar, Text.isDigit_of_mem_toDigits hc]
  cases i with
  | ofNat n => exact hdigit h
  | negSucc n =>
    rcases List.mem_cons.mp h with rfl | hc
    · rfl
    · exact hdigit hc

/-- A check of all characters says of each that it is no control character. -/
theorem not_control_of_all {cs : List Char} (h : cs.all (fun c => 0x20 ≤ c.toNat) = true) : ∀ c ∈ cs, 0x20 ≤ c.toNat :=
  fun c hc => of_decide_eq_true (List.all_eq_true.mp h c hc)

/-- The characters of numbers are no control characters. -/
theorem not_control_of_isNumberChar {c : Char} (h : isNumberChar c = true) : 0x20 ≤ c.toNat := by
  simp only [isNumberChar, Bool.or_eq_true, beq_iff_eq] at h
  rcases h with ((((h | rfl) | rfl) | rfl) | rfl) | rfl
  · exact Nat.le_trans (by decide) (Char.isDigit_iff_toNat.mp h).1
  · decide
  · decide
  · decide
  · decide
  · decide

/-- The digits of an escape are no control characters. -/
theorem not_control_lastHexDigits (count n : Nat) : ∀ c ∈ Text.lastHexDigits count n, 0x20 ≤ c.toNat := by
  have hdigit : ∀ d < 16, 0x20 ≤ (Nat.digitChar d).toNat := by decide
  induction count with
  | zero => exact fun c hc => nomatch hc
  | succ count ih =>
    intro c hc
    rcases List.mem_cons.mp hc with rfl | hc
    · exact hdigit _ (Nat.mod_lt _ (by decide))
    · exact ih c hc

/-- What a character is written as has no control character, since all of these are escaped. -/
theorem not_control_escape (c : Char) : ∀ d ∈ escape c, 0x20 ≤ d.toNat := by
  unfold escape
  split_ifs with hquote hslash hback hform hline hreturn htab hlow
  · exact not_control_of_all rfl
  · exact not_control_of_all rfl
  · exact not_control_of_all rfl
  · exact not_control_of_all rfl
  · exact not_control_of_all rfl
  · exact not_control_of_all rfl
  · exact not_control_of_all rfl
  · intro d hd
    rcases List.mem_append.mp hd with hd | hd
    · exact not_control_of_all (rfl : ['\\', 'u'].all (fun c => 0x20 ≤ c.toNat) = true) d hd
    · exact not_control_lastHexDigits 4 c.toNat d hd
  · intro d hd
    rw [List.mem_singleton.mp hd]
    exact Nat.le_of_not_lt hlow

/-- A written text has no control character, and so no line feed. -/
theorem not_control_stringChars (s : String) : ∀ c ∈ stringChars s, 0x20 ≤ c.toNat := by
  intro c hc
  simp only [stringChars, List.mem_cons, List.mem_append, List.mem_flatMap, List.not_mem_nil, or_false] at hc
  rcases hc with rfl | ⟨d, -, hc⟩ | rfl
  · decide
  · exact not_control_escape d c hc
  · decide

/-- The text on one line holds no control character. -/
theorem Sound.not_control {j : Json} (h : Sound j) : ∀ c ∈ compactChars j, 0x20 ≤ c.toNat := by
  induction h with
  | null => exact not_control_of_all rfl
  | bool b => cases b <;> exact not_control_of_all rfl
  | int i => exact fun c hc => not_control_of_isNumberChar (isNumberChar_of_mem_intChars hc)
  | decimal hchars _ => exact fun c hc => not_control_of_isNumberChar (hchars c hc)
  | str s => exact not_control_stringChars s
  | unpaired => exact not_control_of_all rfl
  | @arr items _ ih =>
    cases items with
    | nil => exact not_control_of_all rfl
    | cons j items =>
      intro c hc
      simp only [compactChars, compactItems_cons, List.mem_cons, List.mem_append, List.mem_flatMap, List.not_mem_nil,
        or_false] at hc
      rcases hc with rfl | (hc | ⟨i, hi, rfl | hc⟩) | rfl
      · decide
      · exact ih j List.mem_cons_self c hc
      · decide
      · exact ih i (List.mem_cons_of_mem _ hi) c hc
      · decide
  | @obj members _ ih =>
    cases members with
    | nil => exact not_control_of_all rfl
    | cons m members =>
      intro c hc
      simp only [compactChars, compactMembers_cons, List.mem_cons, List.mem_append, List.mem_flatMap, List.not_mem_nil,
        or_false] at hc
      rcases hc with rfl | ((hc | rfl | hc) | ⟨n, hn, rfl | hc | rfl | hc⟩) | rfl
      · decide
      · exact not_control_stringChars _ c hc
      · decide
      · exact ih m List.mem_cons_self c hc
      · decide
      · exact not_control_stringChars _ c hc
      · decide
      · exact ih n (List.mem_cons_of_mem _ hn) c hc
      · decide

end BuildPlan.Json
