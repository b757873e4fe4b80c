import BuildPlan.Target.Flag
import Mathlib.Data.List.Nodup
import Mathlib.Data.List.Range
import Mathlib.Logic.Function.Basic

/-!
# Sets of flags and their words

A set of flags lists its values in bit order, each once. It is as good as a word of 32 bits in which the bits of its values are
ones (`FlagSet.word_injective`): a value is looked up by a test of its bit (`FlagSet.contains_eq_word_and_bit`), it is put in by
setting its bit (`FlagSet.word_insert`), the empty set is zero (`FlagSet.word_empty`), and the number of values is that of the
ones (`FlagSet.size_eq_cpop`).
-/

namespace BuildPlan

variable {α : Type} [DecidableEq α] [Flag α]

namespace Flag

/-- The bits of the values are listed without repeats. -/
theorem nodup_map_index : ((all : List α).map index).Nodup := List.pairwise_map.mpr (sorted_all.imp Nat.ne_of_lt)

/-- No value is listed twice. -/
theorem nodup_all : (all : List α).Nodup := nodup_map_index.of_map

/-- Every value has a bit of its own. -/
theorem index_injective : Function.Injective (index : α → Nat) :=
  fun a b heq => List.inj_on_of_nodup_map nodup_map_index (mem_all a) (mem_all b) heq

end Flag

namespace FlagSet

/-! ### Values in bit order -/

/-- A set lists its values. -/
theorem mem_toList {s : FlagSet α} {a : α} : a ∈ s.toList ↔ s.contains a = true := by
  rw [toList, List.mem_filter, and_iff_right (Flag.mem_all a)]

/-- A set lists no value twice. -/
theorem nodup_toList (s : FlagSet α) : s.toList.Nodup := Flag.nodup_all.filter _

/-- The values of a set stand in bit order. -/
theorem pairwise_toList (s : FlagSet α) : s.toList.Pairwise (fun a b => Flag.index a < Flag.index b) :=
  Flag.sorted_all.filter _

/-! ### Words -/

/-- The word with the bit of a value alone. -/
def bit (a : α) : BitVec 32 := 1#32 <<< Flag.index a

/-- The word of a set, with the bits of all its values. -/
def word (s : FlagSet α) : BitVec 32 := s.toList.foldl (fun w a => w ||| bit a) 0#32

theorem getLsbD_bit (a : α) (i : Nat) : (bit a).getLsbD i = decide (Flag.index a = i) := by
  rw [bit, ← BitVec.twoPow_eq, BitVec.getLsbD_twoPow]
  simp [Flag.index_lt a]

/-- A bit is set in the word of a set exactly if it is that of one of the values. -/
theorem getLsbD_word (s : FlagSet α) (i : Nat) : s.word.getLsbD i = true ↔ ∃ a, s.contains a = true ∧ Flag.index a = i := by
  have hfold : ∀ (l : List α) (w : BitVec 32), (l.foldl (fun w a => w ||| bit a) w).getLsbD i = true ↔
      w.getLsbD i = true ∨ ∃ a ∈ l, Flag.index a = i := by
    intro l
    induction l with
    | nil => simp
    | cons a l ih =>
      intro w
      rw [List.foldl_cons, ih, BitVec.getLsbD_or, getLsbD_bit]
      simp [or_assoc]
  rw [word, hfold]
  simp [mem_toList]

/-- The bit of a value tells whether the value is in the set. -/
theorem getLsbD_word_index (s : FlagSet α) (a : α) : s.word.getLsbD (Flag.index a) = s.contains a := by
  rw [Bool.eq_iff_iff, getLsbD_word]
  constructor
  · rintro ⟨b, hb, heq⟩
    rw [← Flag.index_injective heq]
    exact hb
  · exact fun h => ⟨a, h, rfl⟩

/-- Whether a value is in a set is a test of the word against the bit of the value. -/
theorem contains_eq_word_and_bit (s : FlagSet α) (a : α) : s.contains a = (s.word &&& bit a != 0#32) := by
  have hzero : s.word &&& bit a = 0#32 ↔ s.contains a = false := by
    rw [← getLsbD_word_index]
    constructor
    · intro h
      have hbit : (s.word &&& bit a).getLsbD (Flag.index a) = false := by rw [h, BitVec.getLsbD_zero]
      rwa [BitVec.getLsbD_and, getLsbD_bit, decide_eq_true rfl, Bool.and_true] at hbit
    · intro h
      refine BitVec.eq_of_getLsbD_eq (fun i _ => ?_)
      rw [BitVec.getLsbD_and, getLsbD_bit, BitVec.getLsbD_zero]
      by_cases hi : Flag.index a = i
      · rw [← hi, h, Bool.false_and]
      · rw [decide_eq_false hi, Bool.and_false]
  rw [Bool.eq_iff_iff, bne_iff_ne, ne_eq, hzero, Bool.not_eq_false]

/-- The word of the set without values is zero. -/
theorem word_empty : (empty : FlagSet α).word = 0#32 := by
  have hlist : (empty : FlagSet α).toList = [] := List.filter_eq_nil_iff.mpr (fun _ _ => Bool.false_ne_true)
  rw [word, hlist, List.foldl_nil]

/-- A value is put into a set by setting its bit in the word. -/
theorem word_insert (s : FlagSet α) (a : α) : (s.insert a).word = s.word ||| bit a := by
  refine BitVec.eq_of_getLsbD_eq (fun i _ => ?_)
  rw [Bool.eq_iff_iff, getLsbD_word, BitVec.getLsbD_or, Bool.or_eq_true, getLsbD_word, getLsbD_bit, decide_eq_true_iff]
  simp [insert, or_and_right, exists_or, or_comm]

/-- Sets with the same word have the same values. -/
theorem word_injective : Function.Injective (word : FlagSet α → BitVec 32) := by
  intro s s' h
  have hcontains : s.contains = s'.contains := by
    funext a
    rw [← getLsbD_word_index, h, getLsbD_word_index]
  cases s
  cases s'
  exact congrArg FlagSet.mk hcontains

/-- The ones among the lowest bits of a word are counted bit by bit, and added to what was counted before. -/
theorem cpopNatRec_eq_add_countP (w : BitVec 32) (n counted : Nat) :
    w.cpopNatRec n counted = counted + (List.range n).countP (fun i => w.getLsbD i) := by
  induction n generalizing counted with
  | zero => rfl
  | succ n ih =>
    rw [BitVec.cpopNatRec_succ, ih, List.range_succ, List.countP_append, List.countP_singleton]
    cases w.getLsbD n with
    | false => rfl
    | true => exact Nat.add_right_comm counted 1 _

/-- The number of values is that of the ones in the word. -/
theorem size_eq_cpop (s : FlagSet α) : s.size = s.word.cpop.toNat := by
  have hperm : (s.toList.map Flag.index).Perm ((List.range 32).filter (fun i => s.word.getLsbD i)) := by
    refine (List.perm_ext_iff_of_nodup (s.nodup_toList.map Flag.index_injective) (List.nodup_range.filter _)).mpr ?_
    intro i
    rw [List.mem_map, List.mem_filter, List.mem_range, getLsbD_word]
    constructor
    · rintro ⟨a, ha, rfl⟩
      exact ⟨Flag.index_lt a, a, mem_toList.mp ha, rfl⟩
    · rintro ⟨-, a, ha, rfl⟩
      exact ⟨a, mem_toList.mpr ha, rfl⟩
  rw [size, BitVec.toNat_cpop, cpopNatRec_eq_add_countP, Nat.zero_add, List.countP_eq_length_filter, ← hperm.length_eq,
    List.length_map]

end FlagSet

end BuildPlan
