import BuildPlan.Proofs.Json.Printer
import Mathlib.Algebra.Group.Nat.Defs
import Mathlib.Data.List.TakeDrop
import Mathlib.Data.List.TakeWhile
import Mathlib.Tactic.SplitIfs

/-!
# Reading what was written

A text is legible as a value if the reader, wherever it waits for a value, comes to that value at the end of the text,
whatever follows (`Json.Legible`). Strings, numbers and the three words are legible as they are written, and arrays and
objects are if their parts are, with any gaps between them. So a value can be read back from both texts that are written
for it (`Json.ofText?_compact`, `Json.ofText?_pretty`).
-/

namespace BuildPlan.Json

namespace Machine

/-- The value that is read if the rest of the text is `cs`. -/
def read? (m : Machine) (cs : List Char) : Option Json := (cs.foldlM step m).bind result?

variable {m m' : Machine} {frames : List Frame} {c : Char} {cs rest : List Char} {j : Json}

/-- A text is read by one step for its first character and then the rest. -/
theorem read?_cons (h : m.step c = some m') (cs : List Char) : m.read? (c :: cs) = m'.read? cs := by
  unfold read?
  rw [List.foldlM_cons, h]
  rfl

/-! ### Gaps -/

/-- Whether the reader stays as it is at a gap. -/
def SkipsGaps (m : Machine) : Prop := ∀ c, isGap c = true → m.step c = some m

theorem skipsGaps_value (frames : List Frame) : SkipsGaps ⟨frames, .value⟩ := fun _ hc => if_pos hc

theorem skipsGaps_firstItem (frames : List Frame) : SkipsGaps ⟨frames, .firstItem⟩ := fun _ hc => if_pos hc

theorem skipsGaps_name (frames : List Frame) : SkipsGaps ⟨frames, .name⟩ := fun _ hc => if_pos hc

theorem skipsGaps_firstName (frames : List Frame) : SkipsGaps ⟨frames, .firstName⟩ := fun _ hc => if_pos hc

theorem skipsGaps_separator (frames : List Frame) : SkipsGaps ⟨frames, .separator⟩ := fun _ hc => if_pos hc

theorem skipsGaps_finished (frames : List Frame) (j : Json) : SkipsGaps ⟨frames, .finished j⟩ := fun _ hc => if_pos hc

/-- Gaps in front of a text make no difference to a reader that stays as it is at them. -/
theorem SkipsGaps.read?_append (h : m.SkipsGaps) {gaps : List Char} (hgaps : ∀ c ∈ gaps, isGap c = true)
    (cs : List Char) : m.read? (gaps ++ cs) = m.read? cs := by
  induction gaps with
  | nil => rfl
  | cons c gaps ih =>
    rw [List.cons_append, read?_cons (h c (hgaps c List.mem_cons_self))]
    exact ih (fun d hd => hgaps d (List.mem_cons_of_mem _ hd))

/-! ### Strings -/

/-- The digits of an escape add up to its code unit, with what the digits before them make. -/
theorem read?_hex (units : List Nat) (count value n : Nat) (rest : List Char) :
    read? ⟨frames, .hex units (count + 1) value⟩ (Text.lastHexDigits (count + 1) n ++ rest) =
      read? ⟨frames, .text ((16 ^ (count + 1) * value + n % 16 ^ (count + 1)) :: units)⟩ rest := by
  induction count generalizing value with
  | zero =>
    have hdigit := Text.digitValue?_digitChar (n % 16) (Nat.mod_lt _ (by decide))
    exact read?_cons (by simp [step, hdigit]) rest
  | succ count ih =>
    have hdigit := Text.digitValue?_digitChar ((n >>> (4 * (count + 1))) % 16) (Nat.mod_lt _ (by decide))
    have hstep : step ⟨frames, .hex units (count + 2) value⟩ (Nat.digitChar ((n >>> (4 * (count + 1))) % 16)) =
        some ⟨frames, .hex units (count + 1) (16 * value + (n >>> (4 * (count + 1))) % 16)⟩ := by
      simp [step, hdigit]
    rw [Text.lastHexDigits, List.cons_append, read?_cons hstep, ih, Text.mod_pow_succ_eq (count + 1),
      Nat.pow_succ 16 (count + 1), Nat.mul_add, Nat.mul_assoc, Nat.add_assoc]

/-- An escaped character is read as its code point. -/
theorem read?_escape (c : Char) (units : List Nat) (rest : List Char) :
    read? ⟨frames, .text units⟩ (escape c ++ rest) = read? ⟨frames, .text (c.toNat :: units)⟩ rest := by
  unfold escape
  split_ifs with hquote hslash hback hform hline hreturn htab hlow
  · subst hquote; rfl
  · subst hslash; rfl
  · subst hback; rfl
  · subst hform; rfl
  · subst hline; rfl
  · subst hreturn; rfl
  · subst htab; rfl
  · have hunit : 16 ^ 4 * 0 + c.toNat % 16 ^ 4 = c.toNat := by omega
    have hread : read? ⟨frames, .hex units 4 0⟩ (Text.lastHexDigits 4 c.toNat ++ rest) =
        read? ⟨frames, .text ((16 ^ 4 * 0 + c.toNat % 16 ^ 4) :: units)⟩ rest := read?_hex units 3 0 c.toNat rest
    rw [hunit] at hread
    exact hread
  · refine read?_cons ?_ rest
    simp [step, stepText, hquote, hslash, hlow]

/-- Escaped characters are read as their code points. -/
theorem read?_escaped (cs : List Char) (units : List Nat) (rest : List Char) :
    read? ⟨frames, .text units⟩ (cs.flatMap escape ++ rest) =
      read? ⟨frames, .text ((cs.map Char.toNat).reverse ++ units)⟩ rest := by
  induction cs generalizing units with
  | nil => rfl
  | cons c cs ih =>
    rw [List.flatMap_cons, List.append_assoc, read?_escape, ih, List.map_cons, List.reverse_cons, List.append_assoc,
      List.singleton_append]

end Machine

/-- Code points are code units of which none is half of a surrogate pair. -/
theorem textOfUnits?_map_toNat (cs : List Char) : textOfUnits? (cs.map Char.toNat) = some cs := by
  induction cs with
  | nil => rfl
  | cons c cs ih =>
    have hvalid : c.toNat < 0xd800 ∨ 0xdfff < c.toNat ∧ c.toNat < 0x110000 := c.valid
    rw [List.map_cons, textOfUnits?.eq_def]
    dsimp only
    rw [if_neg (by omega), if_neg (by omega), ih, Char.ofNat_toNat]
    rfl

namespace Machine

variable {frames : List Frame}

/-- The string of a text is read to its end. -/
theorem read?_string (s : String) (rest : List Char) :
    read? ⟨frames, .text []⟩ (s.toList.flatMap escape ++ '"' :: rest) =
      read? (completeText frames (s.toList.map Char.toNat).reverse) rest := by
  rw [read?_escaped, List.append_nil]
  exact read?_cons rfl rest

end Machine

/-! ### Legible texts -/

/-- Whether a text may stand right after a number. -/
def Ends (rest : List Char) : Prop := ∀ c, rest.head? = some c → isNumberChar c = false

/-- Whether a value may come next: an object takes one after a name only. -/
def TakesValue : List Frame → Prop
  | .object _ :: _ => False
  | _ => True

/-- Whether a text is read as a value wherever the reader waits for one. Its first character is no gap and closes nothing. -/
structure Legible (j : Json) (cs : List Char) : Prop where
  starts : ∃ c rest, cs = c :: rest ∧ isGap c = false ∧ c ≠ ']'
  reads : ∀ (frames : List Frame) (rest : List Char), TakesValue frames → Ends rest →
    Machine.read? ⟨frames, .value⟩ (cs ++ rest) = (Machine.complete frames j).read? rest

/-- A text that starts with no character of a number may stand after one. -/
theorem Ends.cons {c : Char} (hc : isNumberChar c = false) (rest : List Char) : Ends (c :: rest) := by
  intro d hd
  cases hd
  exact hc

/-- Gaps may stand after a number. -/
theorem Ends.gaps_append {gaps rest : List Char} (hgaps : ∀ c ∈ gaps, isGap c = true) (hrest : Ends rest) :
    Ends (gaps ++ rest) := by
  cases gaps with
  | nil => exact hrest
  | cons c gaps =>
    refine Ends.cons ?_ _
    have hc := hgaps c List.mem_cons_self
    simp only [isGap, Bool.or_eq_true, beq_iff_eq] at hc
    rcases hc with ((rfl | rfl) | rfl) | rfl
    · rfl
    · rfl
    · rfl
    · rfl

theorem legible_null : Legible null (leafChars null) where
  starts := ⟨'n', _, rfl, rfl, by decide⟩
  reads := fun _ _ _ _ => rfl

theorem legible_bool (b : Bool) : Legible (bool b) (leafChars (bool b)) := by
  cases b with
  | false => exact ⟨⟨'f', _, rfl, rfl, by decide⟩, fun _ _ _ _ => rfl⟩
  | true => exact ⟨⟨'t', _, rfl, rfl, by decide⟩, fun _ _ _ _ => rfl⟩

/-- Where a value may come next, a string is one. -/
theorem completeText_of_takesValue {frames : List Frame} (h : TakesValue frames) (units : List Nat) :
    Machine.completeText frames units =
      Machine.complete frames ((((textOfUnits? units.reverse).map String.ofList).map str).getD unpaired) :=
  match frames, h with
  | [], _ => rfl
  | .array _ :: _, _ => rfl
  | .member _ _ :: _, _ => rfl

/-- A string is legible between its quotes. -/
theorem legible_str (s : String) : Legible (str s) (stringChars s) where
  starts := ⟨'"', s.toList.flatMap escape ++ ['"'], rfl, rfl, by decide⟩
  reads := by
    intro frames rest hframes _
    have hstep : Machine.step ⟨frames, .value⟩ '"' = some ⟨frames, .text []⟩ := rfl
    rw [stringChars, List.cons_append, Machine.read?_cons hstep, List.append_assoc, List.singleton_append,
      Machine.read?_string, completeText_of_takesValue hframes, List.reverse_reverse, textOfUnits?_map_toNat,
      Option.map_some, String.ofList_toList]
    rfl

/-! ### Numbers -/

namespace Machine

variable {frames : List Frame} {j : Json}

/-- The characters of a number are collected. -/
theorem read?_number {cs : List Char} (hcs : ∀ c ∈ cs, isNumberChar c = true) (read rest : List Char) :
    read? ⟨frames, .number read⟩ (cs ++ rest) = read? ⟨frames, .number (cs.reverse ++ read)⟩ rest := by
  induction cs generalizing read with
  | nil => rfl
  | cons c cs ih =>
    have hc : isNumberChar c = true := hcs c List.mem_cons_self
    have hstep : step ⟨frames, .number read⟩ c = some ⟨frames, .number (c :: read)⟩ := if_pos hc
    rw [List.cons_append, read?_cons hstep, ih (fun d hd => hcs d (List.mem_cons_of_mem _ hd)),
      List.reverse_cons, List.append_assoc, List.singleton_append]

/-- Right after a value was completed, a character is taken as one that follows a value. -/
theorem step_complete (frames : List Frame) (j : Json) (c : Char) :
    (complete frames j).step c = (complete frames j).stepAfter c := by
  match frames with
  | [] => rfl
  | .array _ :: _ => rfl
  | .object _ :: _ => rfl
  | .member _ _ :: _ => rfl

/-- A number is complete with whatever comes next. With the end of the text it is the whole value or nothing, as the end
completes a number only where nothing is open. -/
theorem read?_number_done {read rest : List Char} (hread : readNumber? read.reverse = some j) (hrest : Ends rest) :
    read? ⟨frames, .number read⟩ rest = (complete frames j).read? rest := by
  cases rest with
  | nil =>
    match frames with
    | [] => exact hread
    | .array _ :: _ => rfl
    | .object _ :: _ => rfl
    | .member _ _ :: _ => rfl
  | cons c rest =>
    have hc : isNumberChar c = false := hrest c rfl
    have hstep : step ⟨frames, .number read⟩ c = (complete frames j).step c := by
      rw [step_complete, step]
      simp [hc, hread]
    unfold read?
    rw [List.foldlM_cons, List.foldlM_cons, hstep]

end Machine

/-- A number starts with a sign or a digit. -/
theorem exists_cons_of_readNumber? {cs : List Char} {j : Json} (h : readNumber? cs = some j) :
    ∃ c rest, cs = c :: rest ∧ (c = '-' ∨ c.isDigit = true) := by
  cases cs with
  | nil => cases h
  | cons c rest =>
    refine ⟨c, rest, rfl, ?_⟩
    by_cases hsign : c = '-'
    · exact Or.inl hsign
    · by_cases hdigit : c.isDigit = true
      · exact Or.inr hdigit
      · simp [readNumber?, List.span_eq_takeWhile_dropWhile, hsign, hdigit, isWholePart] at h

/-- Where a value may come, a sign or a digit opens a number. -/
theorem openValue_number {c : Char} (hc : c = '-' ∨ c.isDigit = true) :
    isGap c = false ∧ c ≠ ']' ∧ ∀ frames, Machine.openValue frames c = some ⟨frames, .number [c]⟩ := by
  rcases hc with rfl | hdigit
  · exact ⟨rfl, by decide, fun _ => rfl⟩
  · have hne : ∀ d : Char, d.isDigit = false → c ≠ d := by
      rintro d hd rfl
      rw [hdigit] at hd
      cases hd
    refine ⟨?_, hne ']' rfl, fun frames => ?_⟩
    · simp [isGap, hne ' ' rfl, hne '\t' rfl, hne '\n' rfl, hne '\r' rfl]
    · unfold Machine.openValue
      split
      · exact absurd rfl (hne '[' rfl)
      · exact absurd rfl (hne '\x7b' rfl)
      · exact absurd rfl (hne '"' rfl)
      · exact absurd rfl (hne 'n' rfl)
      · exact absurd rfl (hne 't' rfl)
      · exact absurd rfl (hne 'f' rfl)
      · exact if_pos (by rw [hdigit, Bool.or_true])

/-- Characters from which a number is read are legible as this number. -/
theorem legible_number {cs : List Char} {j : Json} (hcs : ∀ c ∈ cs, isNumberChar c = true)
    (h : readNumber? cs = some j) : Legible j cs := by
  obtain ⟨c, cs, rfl, hc⟩ := exists_cons_of_readNumber? h
  obtain ⟨hgap, hclose, hopen⟩ := openValue_number hc
  refine ⟨⟨c, cs, rfl, hgap, hclose⟩, fun frames rest _ hrest => ?_⟩
  have hstep : Machine.step ⟨frames, .value⟩ c = some ⟨frames, .number [c]⟩ := by
    rw [Machine.step, if_neg (by rw [hgap]; decide), hopen]
  rw [List.cons_append, Machine.read?_cons hstep,
    Machine.read?_number (fun d hd => hcs d (List.mem_cons_of_mem _ hd))]
  exact Machine.read?_number_done (by simpa using h) hrest

/-- The decimal digits of a number are the whole part of one. -/
theorem isWholePart_toDigits (n : Nat) : isWholePart (Nat.toDigits 10 n) = true := by
  by_cases hn : n = 0
  · subst hn
    rfl
  · have hhead := Text.head?_toDigits hn
    have hdigits : ∀ c ∈ Nat.toDigits 10 n, c.isDigit = true := fun c hc => Text.isDigit_of_mem_toDigits hc
    obtain ⟨d, ds, hds⟩ := List.exists_cons_of_ne_nil (Nat.toDigits_ne_nil (n := n) (b := 10))
    rw [hds] at hhead hdigits ⊢
    have hd : d ≠ '0' := fun hzero => hhead (congrArg some hzero)
    unfold isWholePart
    split
    · next heq => cases heq
    · rfl
    · next heq =>
      cases heq
      rw [List.all_eq_true.mpr hdigits, Bool.and_true, bne_iff_ne]
      exact hd

/-- A number is read from its digits. -/
theorem readNumber?_intChars (i : Int) : readNumber? (intChars i) = some (int i) := by
  have hspan : ∀ n, (Nat.toDigits 10 n).span Char.isDigit = (Nat.toDigits 10 n, []) := by
    intro n
    have hdigits : ∀ c ∈ Nat.toDigits 10 n, c.isDigit = true := fun c hc => Text.isDigit_of_mem_toDigits hc
    rw [List.span_eq_takeWhile_dropWhile, List.takeWhile_eq_self_iff.mpr hdigits, List.dropWhile_eq_nil_iff.mpr hdigits]
  unfold readNumber?
  cases i with
  | ofNat n =>
    split
    · next hnegative =>
      split at hnegative
      · next rest hchars =>
        have hmem : '-' ∈ Nat.toDigits 10 n := by
          rw [show Nat.toDigits 10 n = '-' :: rest from hchars]
          exact List.mem_cons_self
        cases Text.isDigit_of_mem_toDigits hmem
      · cases hnegative
        simp only [intChars, hspan, isWholePart_toDigits, Text.digitsValue_toDigits]
        rfl
  | negSucc n =>
    have hzero : Nat.toDigits 10 (n + 1) ≠ ['0'] := by
      intro h
      exact Text.head?_toDigits (Nat.succ_ne_zero n) (by rw [h]; rfl)
    simp only [intChars, hspan, isWholePart_toDigits, Text.digitsValue_toDigits, if_neg hzero]
    rfl

/-- An integer is legible as its decimal digits, after a sign if it is negative. -/
theorem legible_int (i : Int) : Legible (int i) (intChars i) :=
  legible_number (fun _ hc => isNumberChar_of_mem_intChars hc) (readNumber?_intChars i)

/-! ### Arrays and objects -/

/-- What follows an item or a member may stand right after a number: a comma with more of them, or the end. -/
theorem ends_flatMap {α : Type} {last : List Char} (hlast : ∀ c ∈ last, isGap c = true) {close : Char}
    (hclose : isNumberChar close = false) (l : List α) (text : α → List Char) (rest : List Char) :
    Ends (l.flatMap (fun a => ',' :: text a) ++ (last ++ close :: rest)) := by
  cases l with
  | nil =>
    rw [List.flatMap_nil, List.nil_append]
    exact Ends.gaps_append hlast (Ends.cons hclose rest)
  | cons a l => exact Ends.cons rfl _

/-- Right after an array was opened, an item is read like any other. -/
theorem Legible.read?_firstItem {frames : List Frame} {j : Json} {cs : List Char} (h : Legible j cs) (rest : List Char) :
    Machine.read? ⟨frames, .firstItem⟩ (cs ++ rest) = Machine.read? ⟨frames, .value⟩ (cs ++ rest) := by
  obtain ⟨c, cs, rfl, hgap, hclose⟩ := h.starts
  have hstep : Machine.step ⟨frames, .firstItem⟩ c = Machine.step ⟨frames, .value⟩ c := by
    simp [Machine.step, hgap, hclose]
  unfold Machine.read?
  rw [List.cons_append, List.foldlM_cons, List.foldlM_cons, hstep]

/-- The text of a string opens and closes with a quote. -/
theorem stringChars_append (s : String) (rest : List Char) :
    stringChars s ++ rest = '"' :: (s.toList.flatMap escape ++ '"' :: rest) := by
  rw [stringChars, List.cons_append, List.append_assoc, List.singleton_append]

/-- Members whose names are all texts make an object. -/
theorem ofMembers_map (members : List (String × Json)) : ofMembers (members.map fun m => (some m.1, m.2)) = obj members := by
  have hnames : (members.map fun m => (some m.1, m.2)).mapM (fun m => m.1.map (·, m.2)) = some members := by
    induction members with
    | nil => rfl
    | cons m members ih =>
      rw [List.map_cons, List.mapM_cons, ih]
      rfl
  rw [ofMembers, hnames]

namespace Machine

/-- A member is read, once its name was begun. -/
theorem read?_member {frames : List Frame} {colon : List Char} (hcolon : ∀ c ∈ colon, isGap c = true) {j : Json}
    {cs : List Char} (h : Legible j cs) (done : List (Option String × Json)) (name : String) {rest : List Char}
    (hrest : Ends rest) :
    read? ⟨.object done :: frames, .text []⟩ (name.toList.flatMap escape ++ '"' :: ':' :: (colon ++ (cs ++ rest))) =
      read? ⟨.object ((some name, j) :: done) :: frames, .separator⟩ rest := by
  have hname : completeText (.object done :: frames) (name.toList.map Char.toNat).reverse =
      ⟨.member done (some name) :: frames, .colon⟩ := by
    rw [completeText, List.reverse_reverse, textOfUnits?_map_toNat, Option.map_some, String.ofList_toList]
  have hstep : step ⟨.member done (some name) :: frames, .colon⟩ ':' =
      some ⟨.member done (some name) :: frames, .value⟩ := rfl
  rw [read?_string, hname, read?_cons hstep, (skipsGaps_value _).read?_append hcolon,
    h.reads (.member done (some name) :: frames) rest trivial hrest]
  rfl

end Machine

section Collections

variable {gaps last : List Char} (hgaps : ∀ c ∈ gaps, isGap c = true) (hlast : ∀ c ∈ last, isGap c = true)
include hgaps hlast

namespace Machine

variable {frames : List Frame}

/-- Items, each after a comma, are read to the end of their array. -/
theorem read?_items {text : Json → List Char} {items : List Json} (h : ∀ j ∈ items, Legible j (text j))
    (done : List Json) (rest : List Char) :
    read? ⟨.array done :: frames, .separator⟩
        (items.flatMap (fun j => ',' :: (gaps ++ text j)) ++ (last ++ ']' :: rest)) =
      (complete frames (arr (done.reverse ++ items))).read? rest := by
  induction items generalizing done with
  | nil =>
    have hstep : step ⟨.array done :: frames, .separator⟩ ']' = some (complete frames (arr done.reverse)) := rfl
    rw [List.flatMap_nil, List.nil_append, (skipsGaps_separator _).read?_append hlast, read?_cons hstep, List.append_nil]
  | cons j items ih =>
    have hstep : step ⟨.array done :: frames, .separator⟩ ',' = some ⟨.array done :: frames, .value⟩ := rfl
    have hmore := ih (fun i hi => h i (List.mem_cons_of_mem _ hi)) (j :: done)
    rw [List.reverse_cons, List.append_assoc, List.singleton_append] at hmore
    rw [List.flatMap_cons, List.cons_append, List.cons_append, read?_cons hstep, List.append_assoc, List.append_assoc,
      (skipsGaps_value _).read?_append hgaps, (h j List.mem_cons_self).reads (.array done :: frames) _ trivial
        (ends_flatMap hlast rfl items _ rest)]
    exact hmore

/-- Members, each after a comma, are read to the end of their object. -/
theorem read?_members {colon : List Char} (hcolon : ∀ c ∈ colon, isGap c = true) {text : Json → List Char}
    {members : List (String × Json)} (h : ∀ m ∈ members, Legible m.2 (text m.2)) (done : List (String × Json))
    (rest : List Char) :
    read? ⟨.object (done.map fun m => (some m.1, m.2)) :: frames, .separator⟩
        (members.flatMap (fun m => ',' :: (gaps ++ (stringChars m.1 ++ ':' :: (colon ++ text m.2)))) ++
          (last ++ '\x7d' :: rest)) =
      (complete frames (obj (done.reverse ++ members))).read? rest := by
  induction members generalizing done with
  | nil =>
    have hstep : step ⟨.object (done.map fun m => (some m.1, m.2)) :: frames, .separator⟩ '\x7d' =
        some (complete frames (ofMembers (done.map fun m => (some m.1, m.2)).reverse)) := rfl
    rw [List.flatMap_nil, List.nil_append, (skipsGaps_separator _).read?_append hlast, read?_cons hstep,
      ← List.map_reverse, ofMembers_map, List.append_nil]
  | cons m members ih =>
    have hcomma : step ⟨.object (done.map fun m => (some m.1, m.2)) :: frames, .separator⟩ ',' =
        some ⟨.object (done.map fun m => (some m.1, m.2)) :: frames, .name⟩ := rfl
    have hquote : step ⟨.object (done.map fun m => (some m.1, m.2)) :: frames, .name⟩ '"' =
        some ⟨.object (done.map fun m => (some m.1, m.2)) :: frames, .text []⟩ := rfl
    have hmore := ih (fun n hn => h n (List.mem_cons_of_mem _ hn)) (m :: done)
    rw [List.reverse_cons, List.append_assoc, List.singleton_append, List.map_cons] at hmore
    rw [List.flatMap_cons, List.cons_append, List.cons_append, read?_cons hcomma]
    rw [List.append_assoc, List.append_assoc, (skipsGaps_name _).read?_append hgaps, List.append_assoc,
      List.cons_append, List.append_assoc, stringChars_append, read?_cons hquote,
      read?_member hcolon (h m List.mem_cons_self) _ _ (ends_flatMap hlast rfl members _ rest)]
    exact hmore

end Machine

/-- An array with items is legible if its items are. -/
theorem legible_arr_cons {text : Json → List Char} {j : Json} {items : List Json}
    (h : ∀ i ∈ j :: items, Legible i (text i)) :
    Legible (arr (j :: items))
      ('[' :: (gaps ++ text j ++ items.flatMap (fun i => ',' :: (gaps ++ text i)) ++ last ++ [']'])) where
  starts := ⟨'[', _, rfl, rfl, by decide⟩
  reads := by
    intro frames rest _ _
    have hj := h j List.mem_cons_self
    have hends := ends_flatMap hlast (rfl : isNumberChar ']' = false) items (fun i => gaps ++ text i) rest
    have hopen : Machine.step ⟨frames, .value⟩ '[' = some ⟨.array [] :: frames, .firstItem⟩ := rfl
    rw [List.cons_append, Machine.read?_cons hopen]
    simp only [List.append_assoc, List.singleton_append]
    rw [(Machine.skipsGaps_firstItem _).read?_append hgaps, hj.read?_firstItem,
      hj.reads (.array [] :: frames) _ trivial hends]
    exact Machine.read?_items hgaps hlast (fun i hi => h i (List.mem_cons_of_mem _ hi)) [j] rest

/-- An object with members is legible if their values are. -/
theorem legible_obj_cons {colon : List Char} (hcolon : ∀ c ∈ colon, isGap c = true) {text : Json → List Char}
    {m : String × Json} {members : List (String × Json)} (h : ∀ n ∈ m :: members, Legible n.2 (text n.2)) :
    Legible (obj (m :: members))
      ('\x7b' :: (gaps ++ (stringChars m.1 ++ ':' :: (colon ++ text m.2)) ++
        members.flatMap (fun n => ',' :: (gaps ++ (stringChars n.1 ++ ':' :: (colon ++ text n.2)))) ++ last ++
        ['\x7d'])) where
  starts := ⟨'\x7b', _, rfl, rfl, by decide⟩
  reads := by
    intro frames rest _ _
    have hends := ends_flatMap hlast (rfl : isNumberChar '\x7d' = false) members
      (fun n => gaps ++ (stringChars n.1 ++ ':' :: (colon ++ text n.2))) rest
    have hopen : Machine.step ⟨frames, .value⟩ '\x7b' = some ⟨.object [] :: frames, .firstName⟩ := rfl
    have hquote : Machine.step ⟨.object [] :: frames, .firstName⟩ '"' = some ⟨.object [] :: frames, .text []⟩ := rfl
    rw [List.cons_append, Machine.read?_cons hopen]
    simp only [List.append_assoc, List.cons_append, List.nil_append]
    rw [(Machine.skipsGaps_firstName _).read?_append hgaps, stringChars_append, Machine.read?_cons hquote,
      Machine.read?_member hcolon (h m List.mem_cons_self) _ _ hends]
    exact Machine.read?_members hgaps hlast hcolon (fun n hn => h n (List.mem_cons_of_mem _ hn)) [m] rest

end Collections

theorem legible_arr_nil : Legible (arr []) ['[', ']'] := ⟨⟨'[', [']'], rfl, rfl, by decide⟩, fun _ _ _ _ => rfl⟩

theorem legible_obj_nil : Legible (obj []) ['\x7b', '\x7d'] :=
  ⟨⟨'\x7b', ['\x7d'], rfl, rfl, by decide⟩, fun _ _ _ _ => rfl⟩

/-! ### Both texts of a value -/

/-- A text with half of a surrogate pair is legible. -/
theorem legible_unpaired : Legible unpaired (leafChars unpaired) where
  starts := ⟨'"', _, rfl, rfl, by decide⟩
  reads := by
    intro frames rest hframes _
    have hread : Machine.read? ⟨frames, .value⟩ (leafChars unpaired ++ rest) =
        (Machine.completeText frames [0xd800]).read? rest := rfl
    rw [hread, completeText_of_takesValue hframes]
    rfl

/-- The text on one line is legible. -/
theorem Sound.legible_compactChars {j : Json} (h : Sound j) : Legible j (compactChars j) := by
  have hnone : ∀ c ∈ ([] : List Char), isGap c = true := fun c hc => nomatch hc
  induction h with
  | null => exact legible_null
  | bool b => exact legible_bool b
  | int i => exact legible_int i
  | decimal hchars hread => exact legible_number hchars hread
  | str s => exact legible_str s
  | unpaired => exact legible_unpaired
  | @arr items _ ih =>
    cases items with
    | nil => exact legible_arr_nil
    | cons j items =>
      have hitems := legible_arr_cons hnone hnone ih
      rw [compactChars, compactItems_cons]
      simpa using hitems
  | @obj members _ ih =>
    cases members with
    | nil => exact legible_obj_nil
    | cons m members =>
      have hmembers := legible_obj_cons hnone hnone hnone ih
      rw [compactChars, compactMembers_cons]
      simpa using hmembers

/-- A new line with its indentation is a gap. -/
theorem isGap_newLine (level : Nat) : ∀ c ∈ newLine level, isGap c = true := by
  intro c hc
  rcases List.mem_cons.mp hc with rfl | hc
  · rfl
  · rw [List.eq_of_mem_replicate hc]
    rfl

/-- The text with indentation is legible. -/
theorem Sound.legible_prettyChars {j : Json} (h : Sound j) (level : Nat) : Legible j (prettyChars level j) := by
  induction h generalizing level with
  | null => exact legible_null
  | bool b => exact legible_bool b
  | int i => exact legible_int i
  | decimal hchars hread => exact legible_number hchars hread
  | str s => exact legible_str s
  | unpaired => exact legible_unpaired
  | @arr items _ ih =>
    cases items with
    | nil => exact legible_arr_nil
    | cons j items =>
      have hitems := legible_arr_cons (isGap_newLine (level + 1)) (isGap_newLine level)
        (fun i hi => ih i hi (level + 1))
      rw [prettyChars, prettyItems_cons]
      exact hitems
  | @obj members _ ih =>
    cases members with
    | nil => exact legible_obj_nil
    | cons m members =>
      have hblank : ∀ c ∈ [' '], isGap c = true := fun c hc => by rw [List.mem_singleton.mp hc]; rfl
      have hmembers := legible_obj_cons (isGap_newLine (level + 1)) (isGap_newLine level) hblank
        (fun n hn => ih n hn (level + 1))
      rw [prettyChars, prettyMembers_cons]
      exact hmembers

/-- What is legible is read from a text in which nothing but gaps comes after it. -/
theorem Legible.ofText?_append {j : Json} {cs gaps : List Char} (h : Legible j cs) (hgaps : ∀ c ∈ gaps, isGap c = true) :
    ofText? (String.ofList (cs ++ gaps)) = some j := by
  have hends : Ends (gaps ++ []) := Ends.gaps_append hgaps (fun _ hc => nomatch hc)
  have hread := h.reads [] (gaps ++ []) trivial hends
  have hfinished : Machine.read? (Machine.complete [] j) (gaps ++ []) = some j :=
    (Machine.skipsGaps_finished [] j).read?_append hgaps []
  rw [hfinished, List.append_nil] at hread
  rw [ofText?, String.toList_ofList]
  exact hread

/-- What is legible and all of a text is read from it. -/
theorem Legible.ofText?_eq {j : Json} {cs : List Char} (h : Legible j cs) : ofText? (String.ofList cs) = some j := by
  have hread := h.ofText?_append (fun c (hc : c ∈ []) => nomatch hc)
  rwa [List.append_nil] at hread

/-- A value is read back from its text on one line. -/
theorem ofText?_compact {j : Json} (h : Sound j) : ofText? j.compact = some j := h.legible_compactChars.ofText?_eq

/-- A value is read back from its text with indentation. -/
theorem ofText?_pretty {j : Json} (h : Sound j) : ofText? j.pretty = some j := (h.legible_prettyChars 0).ofText?_eq

/-- A value is read back from its text with indentation and a line feed at the end. -/
theorem ofText?_pretty_lineFeed {j : Json} (h : Sound j) : ofText? (j.pretty ++ "\n") = some j := by
  have hgap : ∀ c ∈ ['\n'], isGap c = true := fun c hc => by rw [List.mem_singleton.mp hc]; rfl
  have htext : j.pretty ++ "\n" = String.ofList (prettyChars 0 j ++ ['\n']) := by
    rw [String.ofList_append]
    rfl
  rw [htext, (h.legible_prettyChars 0).ofText?_append hgap]

end BuildPlan.Json
