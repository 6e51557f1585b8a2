import Mathlib.Tactic

/-!
# Decimal digits

The value of a text of digits is below the power of ten of its length, so digits of one length are
told apart by their value, and the shortest ones are those that a number is printed with.
-/

namespace Difftest.Decimal

/-- Only decimal digits. -/
def Digits (text : List Char) : Prop := ∀ c ∈ text, c.isDigit = true

instance (text : List Char) : Decidable (Digits text) := List.decidableBAll _ text

/-- The value of a text of digits. -/
def value (text : List Char) : Nat := Nat.ofDigitChars 10 text 0

theorem value_cons (c : Char) (text : List Char) :
    value (c :: text) = 10 ^ text.length * (c.toNat - '0'.toNat) + value text := by
  rw [value, Nat.ofDigitChars_cons, Nat.mul_zero, Nat.zero_add,
    Nat.ofDigitChars_eq_ofDigitChars_zero, value]

theorem digit_bounds {c : Char} (digit : c.isDigit = true) : '0'.toNat ≤ c.toNat ∧ c.toNat ≤ 57 := by
  rw [Char.isDigit, Bool.and_eq_true, decide_eq_true_eq, decide_eq_true_eq] at digit
  exact digit

theorem value_lt {text : List Char} (digits : Digits text) : value text < 10 ^ text.length := by
  induction text with
  | nil => exact Nat.one_pos
  | cons c text inductionHypothesis =>
      have bounds := digit_bounds (digits c List.mem_cons_self)
      have rest := inductionHypothesis fun d mem => digits d (List.mem_cons_of_mem c mem)
      have digit : c.toNat - '0'.toNat ≤ 9 := by
        have zero : '0'.toNat = 48 := rfl
        omega
      have first := Nat.mul_le_mul_left (10 ^ text.length) digit
      rw [value_cons, List.length_cons, Nat.pow_succ]
      omega

/-- Digits of one length are told apart by their value. -/
theorem eq_of_value {text text' : List Char} (digits : Digits text) (digits' : Digits text')
    (length : text.length = text'.length) (same : value text = value text') : text = text' := by
  induction text generalizing text' with
  | nil => exact (List.length_eq_zero_iff.mp length.symm).symm
  | cons c text inductionHypothesis =>
      cases text' with
      | nil => cases length
      | cons c' text' =>
          have lengths : text.length = text'.length := Nat.succ.inj length
          have rest : Digits text := fun d mem => digits d (List.mem_cons_of_mem c mem)
          have rest' : Digits text' := fun d mem => digits' d (List.mem_cons_of_mem c' mem)
          have small := value_lt rest
          have small' := value_lt rest'
          rw [value_cons, value_cons, lengths] at same
          rw [lengths] at small
          have power : 0 < 10 ^ text'.length := Nat.pow_pos (by decide)
          have firsts : c.toNat - '0'.toNat = c'.toNat - '0'.toNat := by
            have quotients := congrArg (· / 10 ^ text'.length) same
            simpa only [Nat.mul_add_div power, Nat.div_eq_of_lt small, Nat.div_eq_of_lt small',
              Nat.add_zero] using quotients
          have values : value text = value text' := by
            rw [firsts] at same
            exact Nat.add_left_cancel same
          have bounds := digit_bounds (digits c List.mem_cons_self)
          have bounds' := digit_bounds (digits' c' List.mem_cons_self)
          have chars : c = c' := Char.toNat_inj.mp (by omega)
          rw [chars, inductionHypothesis rest rest' lengths values]

theorem digits_toDigits (n : Nat) : Digits (Nat.toDigits 10 n) :=
  fun _ mem => Nat.isDigit_of_mem_toDigits (by decide) le_rfl mem

theorem value_toDigits (n : Nat) : value (Nat.toDigits 10 n) = n := Nat.ofDigitChars_ten_toDigits

/-- No text of digits is shorter than the printed number. -/
theorem length_toDigits_le {text : List Char} (nonempty : text ≠ []) (digits : Digits text) :
    (Nat.toDigits 10 (value text)).length ≤ text.length :=
  (Nat.length_toDigits_le_iff (by decide) (List.length_pos_iff.mpr nonempty)).mpr (value_lt digits)

/-- Digits as short as the printed number are it. -/
theorem eq_toDigits {text : List Char} (digits : Digits text)
    (short : text.length = (Nat.toDigits 10 (value text)).length) :
    text = Nat.toDigits 10 (value text) :=
  eq_of_value digits (digits_toDigits _) short (value_toDigits _).symm

/-- Digits with a value below ten in front of others that add nothing to it. -/
theorem eq_nil_of_value_cons {c c' : Char} {text : List Char} (zero : value (c :: text) = 0)
    (one : value (c' :: text) = 1) : text = [] := by
  rw [value_cons] at zero one
  have noRest : value text = 0 := Nat.eq_zero_of_add_eq_zero_left zero
  rw [noRest, Nat.add_zero] at one
  have power := Nat.eq_one_of_mul_eq_one_right one
  rw [Nat.pow_eq_one] at power
  rcases power with ten | empty
  · cases ten
  · exact List.length_eq_zero_iff.mp empty

end Difftest.Decimal
