import Difftest.Data.Bytes

/-!
# Byte lanes

Some consecutive bytes of a word are a bit vector.  A masked assignment that selects exactly
these bytes replaces the bit vector and nothing else.
-/

namespace Difftest

/-- The mask of `n` byte lanes from lane `k` on. -/
def laneMask (k n : Nat) : Nat := (2 ^ n - 1) <<< k

/-- The bytes of a word in `n` lanes from lane `k` on. -/
def lanes (k n word : Nat) : BitVec (8 * n) := BitVec.ofNat (8 * n) (word >>> (8 * k))

theorem testBit_laneMask (k n i : Nat) :
    (laneMask k n).testBit i = (decide (k ≤ i) && decide (i < k + n)) := by
  rw [laneMask, Nat.testBit_shiftLeft, Nat.testBit_two_pow_sub_one]
  by_cases low : k ≤ i
  · have shifted : i - k < n ↔ i < k + n := by omega
    simp [low, shifted]
  · simp [low]

theorem getLsbD_lanes (k n word i : Nat) :
    (lanes k n word).getLsbD i = (decide (i < 8 * n) && word.testBit (8 * k + i)) := by
  rw [lanes, BitVec.getLsbD_ofNat, Nat.testBit_shiftRight]

theorem toNat_lanes (k n word : Nat) :
    (lanes k n word).toNat = word >>> (8 * k) % 2 ^ (8 * n) :=
  BitVec.toNat_ofNat _ _

/-- Two words agree in some lanes when they agree in their bits. -/
theorem lanes_eq_iff {k n first second : Nat} :
    lanes k n first = lanes k n second ↔
      ∀ i, 8 * k ≤ i → i < 8 * (k + n) → first.testBit i = second.testBit i := by
  constructor
  · intro same i low high
    have inside : i - 8 * k < 8 * n := by omega
    have bits := congrArg (fun vector => vector.getLsbD (i - 8 * k)) same
    simp only [getLsbD_lanes] at bits
    rw [Nat.add_sub_cancel' low] at bits
    simpa [inside] using bits
  · intro agree
    apply BitVec.eq_of_getLsbD_eq
    intro i inside
    rw [getLsbD_lanes, getLsbD_lanes, agree (8 * k + i) (by omega) (by omega)]

/-- No bit of the lanes is set. -/
theorem lanes_eq_zero_iff {k n word : Nat} :
    lanes k n word = 0#(8 * n) ↔ ∀ i, 8 * k ≤ i → i < 8 * (k + n) → word.testBit i = false := by
  have zero : lanes k n 0 = 0#(8 * n) := by simp [lanes]
  rw [← zero, lanes_eq_iff]
  simp only [Nat.zero_testBit]

section Masked

variable {mask k n : Nat}

/-- The mask selects exactly the bits of the lanes. -/
def Selects (mask k n : Nat) : Prop :=
  ∀ i, mask.testBit i = (decide (8 * k ≤ i) && decide (i < 8 * (k + n)))

/-- The selected bits, shifted down, are the lanes. -/
theorem Selects.shiftRight (selects : Selects mask k n) (word : Nat) :
    (word &&& mask) >>> (8 * k) = (lanes k n word).toNat := by
  apply Nat.eq_of_testBit_eq
  intro i
  have inside : 8 * k + i < 8 * (k + n) ↔ i < 8 * n := by omega
  rw [Nat.testBit_shiftRight, Nat.testBit_and, selects, BitVec.testBit_toNat, getLsbD_lanes]
  simp [inside, Bool.and_comm]

/-- A masked assignment brings in the lanes of the new word. -/
theorem Selects.lanes_splice (selects : Selects mask k n) (old new : Nat) :
    lanes k n (splice mask old new) = lanes k n new := by
  rw [lanes_eq_iff]
  intro i low high
  rw [testBit_splice, selects]
  simp [low, high]

/-- A masked assignment leaves the other bits as they are. -/
theorem Selects.testBit_splice (selects : Selects mask k n) (old new : Nat) {i : Nat}
    (outside : ¬ (8 * k ≤ i ∧ i < 8 * (k + n))) :
    (splice mask old new).testBit i = old.testBit i := by
  rw [Difftest.testBit_splice, selects]
  rw [← Bool.decide_and, decide_eq_false outside]
  rfl

end Masked

/-! ## Numbers placed in lanes -/

/-- A number that is shifted to the lanes and cut at the width of the word has its low bits
there. -/
theorem lanes_shifted {bits k n : Nat} (inside : 8 * (k + n) ≤ bits) (value : Int) :
    lanes k n (value * 2 ^ (8 * k) % 2 ^ bits).toNat = BitVec.ofInt (8 * n) value := by
  have widths : bits - 8 * k + 8 * k = bits := by omega
  have room : 8 * n ≤ bits - 8 * k := by omega
  have cut : value * 2 ^ (8 * k) % 2 ^ bits = value % 2 ^ (bits - 8 * k) * 2 ^ (8 * k) := by
    calc
      value * 2 ^ (8 * k) % 2 ^ bits =
          2 ^ (8 * k) * value % (2 ^ (8 * k) * 2 ^ (bits - 8 * k)) := by
        rw [← pow_add, Nat.add_comm, widths, mul_comm]
      _ = 2 ^ (8 * k) * (value % 2 ^ (bits - 8 * k)) := Int.mul_emod_mul_of_pos _ _ (by positivity)
      _ = value % 2 ^ (bits - 8 * k) * 2 ^ (8 * k) := mul_comm _ _
  have nonneg : 0 ≤ value % 2 ^ (bits - 8 * k) := Int.emod_nonneg _ (by positivity)
  rw [lanes, cut]
  rcases Int.eq_ofNat_of_zero_le nonneg with ⟨low, isLow⟩
  have whole : ((low : Int) * 2 ^ (8 * k)).toNat >>> (8 * k) = low := by
    have cast : (low : Int) * 2 ^ (8 * k) = ((low * 2 ^ (8 * k) : Nat) : Int) := by push_cast; rfl
    rw [cast, Int.toNat_natCast, Nat.shiftRight_eq_div_pow, Nat.mul_div_cancel _ (by positivity)]
  rw [isLow, whole]
  apply BitVec.eq_of_toNat_eq
  rw [BitVec.toNat_ofNat, BitVec.toNat_ofInt]
  have same : (low : Int) % 2 ^ (8 * n) = value % 2 ^ (8 * n) := by
    rw [← isLow]
    exact Int.emod_emod_of_dvd value (pow_dvd_pow 2 room)
  have cast : ((2 ^ (8 * n) : Nat) : Int) = 2 ^ (8 * n) := by push_cast; rfl
  rw [cast, ← same]
  rfl

end Difftest
