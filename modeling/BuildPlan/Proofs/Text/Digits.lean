import BuildPlan.Text.Digits
import Mathlib.Algebra.Group.Nat.Defs

/-!
# Digits and the numbers they write

The decimal digits of a number write the number, without a superfluous zero in front. In base sixteen the digits at the end
of a number write its remainder.
-/

namespace BuildPlan.Text

theorem digitValue?_of_isDigit {c : Char} (h : c.isDigit) : digitValue? c = some (c.toNat - '0'.toNat) := if_pos h

theorem digitValue?_digitChar : ∀ d < 16, digitValue? (Nat.digitChar d) = some d := by decide

theorem isDigit_of_mem_toDigits {n : Nat} {c : Char} (h : c ∈ Nat.toDigits 10 n) : c.isDigit = true :=
  Nat.isDigit_of_mem_toDigits (by decide) (by decide) h

/-- The decimal digits of a number write it. -/
theorem digitsValue_toDigits (n : Nat) : digitsValue 10 (Nat.toDigits 10 n) = n := by
  have key : ∀ (digits : List Char) (value : Nat), (∀ c ∈ digits, c.isDigit) →
      digits.foldl (fun n d => 10 * n + (digitValue? d).getD 0) value = Nat.ofDigitChars 10 digits value := by
    intro digits
    induction digits with
    | nil => intro value _; rfl
    | cons c digits ih =>
      intro value hdigits
      rw [List.foldl_cons, Nat.ofDigitChars_cons, digitValue?_of_isDigit (hdigits c List.mem_cons_self)]
      exact ih _ (fun d hd => hdigits d (List.mem_cons_of_mem _ hd))
  exact (key _ 0 (fun c hc => isDigit_of_mem_toDigits hc)).trans Nat.ofDigitChars_ten_toDigits

/-- A number other than zero is written without a zero in front. -/
theorem head?_toDigits {n : Nat} (h : n ≠ 0) : (Nat.toDigits 10 n).head? ≠ some '0' := by
  induction n using Nat.strongRecOn with
  | ind n ih =>
    rw [Nat.toDigits_eq_if (by decide)]
    split
    · simp [h]
    · next hlt =>
      have hhead := ih (n / 10) (by omega) (by omega)
      obtain ⟨d, digits, hdigits⟩ := List.exists_cons_of_ne_nil (Nat.toDigits_ne_nil (n := n / 10) (b := 10))
      rw [hdigits] at hhead ⊢
      exact hhead

/-! ### The last digits in base sixteen -/

@[simp] theorem length_lastHexDigits (count n : Nat) : (lastHexDigits count n).length = count := by
  induction count with
  | zero => rfl
  | succ count ih => rw [lastHexDigits, List.length_cons, ih]

/-- The first of the last digits in base sixteen stands for its multiple of a power, the others for the remainder. -/
theorem mod_pow_succ_eq (count n : Nat) :
    n % 16 ^ (count + 1) = 16 ^ count * ((n >>> (4 * count)) % 16) + n % 16 ^ count := by
  rw [Nat.pow_succ, Nat.mod_mul, Nat.shiftRight_eq_div_pow, Nat.pow_mul, Nat.add_comm]

/-- The last digits of a number in base sixteen write its remainder; digits before them are worth a power more for each. -/
theorem digitsValue_lastHexDigits (count n : Nat) : digitsValue 16 (lastHexDigits count n) = n % 16 ^ count := by
  have key : ∀ value, (lastHexDigits count n).foldl (fun n d => 16 * n + (digitValue? d).getD 0) value =
      16 ^ count * value + n % 16 ^ count := by
    induction count with
    | zero => intro value; simp [lastHexDigits, Nat.mod_one]
    | succ count ih =>
      intro value
      have hdigit := digitValue?_digitChar ((n >>> (4 * count)) % 16) (Nat.mod_lt _ (by decide))
      rw [lastHexDigits, List.foldl_cons, ih, hdigit, Option.getD_some, mod_pow_succ_eq, Nat.pow_succ, Nat.mul_add,
        Nat.mul_assoc, Nat.add_assoc]
  have hvalue := key 0
  rwa [Nat.mul_zero, Nat.zero_add] at hvalue

/-- Numbers below a power of sixteen are told apart by their last digits. -/
theorem lastHexDigits_inj {count m n : Nat} (hm : m < 16 ^ count) (hn : n < 16 ^ count) :
    lastHexDigits count m = lastHexDigits count n ↔ m = n := by
  refine ⟨fun h => ?_, fun h => h ▸ rfl⟩
  have hvalue := congrArg (digitsValue 16) h
  rwa [digitsValue_lastHexDigits, digitsValue_lastHexDigits, Nat.mod_eq_of_lt hm, Nat.mod_eq_of_lt hn] at hvalue

end BuildPlan.Text
