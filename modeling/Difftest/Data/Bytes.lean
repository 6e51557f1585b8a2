import Mathlib.Tactic
import Mathlib.Data.Nat.Bitwise

/-!
# Words and their bytes

A word is a natural number, its bytes are its base-256 digits, least
significant first.  Masked assignment of a word (`splice`) is stated in bits the
way a bus adapter computes it and characterized in bytes, which is what a
byte-addressed memory sees of it.
-/

namespace Difftest

/-! ## Bytes of a word -/

/-- Byte `i` of `n`, counted from the least significant one. -/
def byteAt (n i : Nat) : Nat := n / 256 ^ i % 256

/-- The word of `width` bytes with the given bytes. -/
def ofBytes : Nat → (Nat → Nat) → Nat
  | 0, _ => 0
  | width + 1, bytes => ofBytes width bytes + bytes width * 256 ^ width

theorem byteAt_lt (n i : Nat) : byteAt n i < 256 :=
  Nat.mod_lt _ (by decide)

@[simp]
theorem byteAt_zero (i : Nat) : byteAt 0 i = 0 := by
  simp [byteAt]

theorem ofBytes_byteAt (width n : Nat) : ofBytes width (byteAt n) = n % 256 ^ width := by
  induction width with
  | zero => simp [ofBytes, Nat.mod_one]
  | succ width ih => rw [ofBytes, ih, byteAt, Nat.mod_pow_succ, Nat.mul_comm]

/-- A word that fits its width is the word of its bytes. -/
theorem ofBytes_byteAt_of_lt {width n : Nat} (fits : n < 256 ^ width) :
    ofBytes width (byteAt n) = n := by
  rw [ofBytes_byteAt, Nat.mod_eq_of_lt fits]

theorem ofBytes_congr {width : Nat} {bytes bytes' : Nat → Nat}
    (agree : ∀ i < width, bytes i = bytes' i) : ofBytes width bytes = ofBytes width bytes' := by
  induction width with
  | zero => rfl
  | succ width ih =>
      rw [ofBytes, ofBytes, ih fun i below => agree i (by omega), agree width (by omega)]

theorem ofBytes_lt {width : Nat} {bytes : Nat → Nat} (small : ∀ i < width, bytes i < 256) :
    ofBytes width bytes < 256 ^ width := by
  induction width with
  | zero => simp [ofBytes]
  | succ width ih =>
      have rest := ih fun i below => small i (by omega)
      have top : bytes width * 256 ^ width ≤ 255 * 256 ^ width :=
        Nat.mul_le_mul_right _ (by have := small width (by omega); omega)
      rw [ofBytes, Nat.pow_succ]
      omega

theorem byteAt_of_lt {width n i : Nat} (fits : n < 256 ^ width) (outside : width ≤ i) :
    byteAt n i = 0 := by
  have small : n < 256 ^ i := lt_of_lt_of_le fits (Nat.pow_le_pow_right (by decide) outside)
  rw [byteAt, Nat.div_eq_of_lt small]

theorem byteAt_ofBytes {width i : Nat} {bytes : Nat → Nat} (small : ∀ j < width, bytes j < 256)
    (inside : i < width) : byteAt (ofBytes width bytes) i = bytes i := by
  induction width with
  | zero => omega
  | succ width ih =>
      have rest := ofBytes_lt fun j (below : j < width) => small j (by omega)
      have below : ∀ j < width, bytes j < 256 := fun j inside => small j (by omega)
      rcases Nat.lt_succ_iff_lt_or_eq.mp inside with inner | rfl
      · rw [← ih below inner, ofBytes, byteAt, byteAt]
        obtain ⟨gap, rfl⟩ : ∃ gap, width = i + 1 + gap := ⟨width - (i + 1), by omega⟩
        have split : bytes (i + 1 + gap) * 256 ^ (i + 1 + gap) =
            256 ^ i * (256 * (256 ^ gap * bytes (i + 1 + gap))) := by ring
        rw [split, Nat.add_mul_div_left _ _ (by positivity), Nat.add_mul_mod_self_left]
      · rw [ofBytes, byteAt, Nat.add_mul_div_right _ _ (by positivity), Nat.div_eq_of_lt rest,
          Nat.zero_add, Nat.mod_eq_of_lt (small i (by omega))]

/-! ## Bits of a byte -/

theorem testBit_byteAt (n i j : Nat) :
    (byteAt n i).testBit j = (decide (j < 8) && n.testBit (8 * i + j)) := by
  have base : (256 : Nat) ^ i = 2 ^ (8 * i) := by
    rw [Nat.pow_mul]
  rw [byteAt, base, show (256 : Nat) = 2 ^ 8 by norm_num, Nat.testBit_mod_two_pow,
    Nat.testBit_div_two_pow, Nat.add_comm j]

/-- Two bytes with the same eight bits are equal. -/
theorem byteAt_eq_of_testBit {m n i k : Nat}
    (agree : ∀ j < 8, m.testBit (8 * i + j) = n.testBit (8 * k + j)) :
    byteAt m i = byteAt n k := by
  apply Nat.eq_of_testBit_eq
  intro j
  rw [testBit_byteAt, testBit_byteAt]
  by_cases inside : j < 8
  · rw [agree j inside]
  · simp [inside]

/-! ## Masked assignment -/

/-- `(old & ~mask) | (new & mask)`. -/
def splice (mask old new : Nat) : Nat := Nat.ldiff old mask ||| (new &&& mask)

theorem testBit_splice (mask old new i : Nat) :
    (splice mask old new).testBit i = if mask.testBit i then new.testBit i else old.testBit i := by
  rw [splice, Nat.testBit_or, Nat.testBit_ldiff, Nat.testBit_and]
  cases mask.testBit i <;> simp

theorem splice_lt {mask old new bits : Nat} (oldFits : old < 2 ^ bits) (newFits : new < 2 ^ bits) :
    splice mask old new < 2 ^ bits := by
  apply Nat.lt_pow_two_of_testBit
  intro i outside
  rw [testBit_splice]
  split
  · exact Nat.testBit_lt_two_pow (lt_of_lt_of_le newFits (Nat.pow_le_pow_right (by decide) outside))
  · exact Nat.testBit_lt_two_pow (lt_of_lt_of_le oldFits (Nat.pow_le_pow_right (by decide) outside))

/-- A mask that is constant on a byte lane selects or keeps that whole byte. -/
theorem byteAt_splice {mask i : Nat} {lane : Bool}
    (uniform : ∀ j < 8, mask.testBit (8 * i + j) = lane) (old new : Nat) :
    byteAt (splice mask old new) i = if lane then byteAt new i else byteAt old i := by
  cases lane with
  | false =>
      apply byteAt_eq_of_testBit
      intro j inside
      rw [testBit_splice, uniform j inside]
      rfl
  | true =>
      apply byteAt_eq_of_testBit
      intro j inside
      rw [testBit_splice, uniform j inside]
      rfl

/-! ## Alignment -/

/-- Clearing the low bits of an address rounds it down. -/
theorem ldiff_two_pow_sub_one (a k : Nat) : Nat.ldiff a (2 ^ k - 1) = a / 2 ^ k * 2 ^ k := by
  apply Nat.eq_of_testBit_eq
  intro i
  rw [Nat.testBit_ldiff, Nat.testBit_two_pow_sub_one, Nat.testBit_mul_two_pow]
  by_cases low : i < k
  · simp [low, Nat.not_le.mpr low]
  · have high : k ≤ i := Nat.not_lt.mp low
    simp [low, high, Nat.testBit_div_two_pow]

end Difftest
