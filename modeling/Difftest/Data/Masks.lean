import Mathlib.Tactic

/-!
# Masks of high bits

A number and its successor differ in the trailing ones and the zero above them, so a mask
built from them selects all bits from some position on.  Comparing two numbers under such a
mask is comparing their quotients by a power of two.
-/

namespace Difftest

/-- `~value` of a 64-bit register. -/
def not64 (value : Nat) : Nat := 2 ^ 64 - 1 - value

theorem testBit_not64 {value : Nat} (fits : value < 2 ^ 64) (i : Nat) :
    (not64 value).testBit i = (decide (i < 64) && !value.testBit i) := by
  rw [not64, Nat.sub_sub, Nat.add_comm, Nat.testBit_two_pow_sub_succ fits]

/-- A bit of a number that increments to an odd multiple of a power of two. -/
theorem testBit_of_succ {m k q : Nat} (split : m + 1 = 2 ^ k * (2 * q + 1)) (i : Nat) :
    m.testBit i = if i < k then true else if i = k then false else q.testBit (i - k - 1) := by
  have pow := Nat.two_pow_pos k
  have form : m = 2 ^ k * (2 * q) + (2 ^ k - 1) := by
    rw [Nat.mul_add, Nat.mul_one] at split
    omega
  rw [form, Nat.mul_comm, ← Nat.shiftLeft_eq, Nat.shiftLeft_add_eq_or_of_lt (by omega),
    Nat.testBit_or, Nat.testBit_shiftLeft, Nat.testBit_two_pow_sub_one]
  rcases lt_trichotomy i k with below | same | above
  · simp [below, Nat.not_le.mpr below]
  · subst same
    simp
  · obtain ⟨j, rfl⟩ : ∃ j, i = k + (j + 1) := ⟨i - k - 1, by omega⟩
    have shifted : (2 * q).testBit (j + 1) = q.testBit j := by
      rw [Nat.testBit_succ, Nat.mul_div_cancel_left q (by decide)]
    have index : k + (j + 1) - k = j + 1 := by omega
    simp [index, shifted]

theorem testBit_succ_of_succ {m k q : Nat} (split : m + 1 = 2 ^ k * (2 * q + 1)) (i : Nat) :
    (m + 1).testBit i = if i < k then false else if i = k then true else q.testBit (i - k - 1) := by
  rw [split, Nat.mul_comm, ← Nat.shiftLeft_eq, Nat.testBit_shiftLeft]
  rcases lt_trichotomy i k with below | same | above
  · simp [below]
  · subst same
    simp
  · obtain ⟨j, rfl⟩ : ∃ j, i = k + (j + 1) := ⟨i - k - 1, by omega⟩
    have shifted : (2 * q + 1).testBit (j + 1) = q.testBit j := by
      rw [Nat.testBit_succ]
      congr 1
      omega
    have index : k + (j + 1) - k = j + 1 := by omega
    simp [index, shifted]

/-- `m & ~(m + 1)` selects the trailing ones of a register. -/
theorem exists_trailing_ones {m : Nat} (fits : m < 2 ^ 64) :
    ∃ k, ∀ i, (m &&& not64 ((m + 1) % 2 ^ 64)).testBit i = decide (i < k) := by
  obtain ⟨k, odd, isOdd, split⟩ := Nat.exists_eq_two_pow_mul_odd (Nat.succ_ne_zero m)
  obtain ⟨q, rfl⟩ := isOdd
  refine ⟨k, ?_⟩
  intro i
  rw [Nat.testBit_and, testBit_not64 (Nat.mod_lt _ (by decide)), Nat.testBit_mod_two_pow]
  by_cases inside : i < 64
  · rw [testBit_of_succ split, testBit_succ_of_succ split]
    rcases lt_trichotomy i k with below | same | above
    · simp [below, inside]
    · simp [same]
    · simp only [Nat.not_lt.mpr above.le, above.ne', if_false, inside, decide_true,
        Bool.true_and, decide_false, Bool.and_not_self]
  · have high : m.testBit i = false :=
      Nat.testBit_lt_two_pow (fits.trans_le (Nat.pow_le_pow_right (by decide) (by omega)))
    have outside : ¬ i < k := by
      intro below
      rw [testBit_of_succ split, if_pos below] at high
      cases high
    simp [high, outside]

/-- Numbers with the same quotient agree in the bits that a mask of high bits selects. -/
theorem and_xor_eq_zero_congr {mask x y z bits : Nat} (low : ∀ i < bits, mask.testBit i = false)
    (same : x / 2 ^ bits = y / 2 ^ bits) :
    (x ^^^ z) &&& mask = 0 ↔ (y ^^^ z) &&& mask = 0 := by
  have equal : (x ^^^ z) &&& mask = (y ^^^ z) &&& mask := by
    apply Nat.eq_of_testBit_eq
    intro i
    rw [Nat.testBit_and, Nat.testBit_and, Nat.testBit_xor, Nat.testBit_xor]
    by_cases inside : i < bits
    · rw [low i inside, Bool.and_false, Bool.and_false]
    · obtain ⟨j, rfl⟩ := Nat.exists_eq_add_of_le (Nat.not_lt.mp inside)
      have bit : x.testBit (j + bits) = y.testBit (j + bits) := by
        rw [← Nat.testBit_div_two_pow, same, Nat.testBit_div_two_pow]
      rw [Nat.add_comm bits j, bit]
  rw [equal]

/-- Numbers with different quotients differ in a bit that the mask selects. -/
theorem and_xor_ne_zero {mask x z bits width : Nat}
    (high : ∀ i, bits ≤ i → i < width → mask.testBit i = true) (xFits : x < 2 ^ width)
    (zFits : z < 2 ^ width) (different : x / 2 ^ bits ≠ z / 2 ^ bits) :
    (x ^^^ z) &&& mask ≠ 0 := by
  intro zero
  apply different
  apply Nat.eq_of_testBit_eq
  intro i
  rw [Nat.testBit_div_two_pow, Nat.testBit_div_two_pow]
  by_cases inside : i + bits < width
  · have bit : ((x ^^^ z) &&& mask).testBit (i + bits) = false := by rw [zero, Nat.zero_testBit]
    rw [Nat.testBit_and, high _ (Nat.le_add_left bits i) inside, Bool.and_true, Nat.testBit_xor] at bit
    simpa using bit
  · have outside : ∀ n < 2 ^ width, n.testBit (i + bits) = false := fun n fits =>
      Nat.testBit_lt_two_pow (fits.trans_le (Nat.pow_le_pow_right (by decide) (Nat.not_lt.mp inside)))
    rw [outside x xFits, outside z zFits]

end Difftest
