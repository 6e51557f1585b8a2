import Difftest.Data.Bytes

/-!
# Byte memories and their words

A byte memory assigns a byte to every address.  `Represents` relates it to a
memory of aligned words, and the two rules below say that reading a word and
assigning a word under a byte mask commute with that relation.
-/

namespace Difftest

/-- The byte at every address. -/
abbrev ByteMemory := Nat → Nat

namespace ByteMemory

/-- The word of `width` bytes at `base`. -/
def read (memory : ByteMemory) (width base : Nat) : Nat :=
  ofBytes width fun j => memory (base + j)

theorem read_lt {memory : ByteMemory} (small : ∀ addr, memory addr < 256) (width base : Nat) :
    memory.read width base < 256 ^ width :=
  ofBytes_lt fun j _ => small (base + j)

/-- Assign the selected bytes of a word of `width` bytes at `base`. -/
def write (memory : ByteMemory) (width base : Nat) (lanes : Nat → Bool) (data : Nat) :
    ByteMemory :=
  fun addr =>
    if base ≤ addr ∧ addr < base + width ∧ lanes (addr - base) then byteAt data (addr - base)
    else memory addr

/-- The bytes of a memory of aligned words. -/
def ofWords (width : Nat) (word : Nat → Nat) : ByteMemory :=
  fun addr => byteAt (word (addr / width * width)) (addr % width)

/-- The word at every aligned address has the bytes of the byte memory. -/
structure Represents (width : Nat) (word : Nat → Nat) (memory : ByteMemory) : Prop where
  fits : ∀ base, width ∣ base → word base < 256 ^ width
  agree : ∀ base, width ∣ base → ∀ j < width, byteAt (word base) j = memory (base + j)

theorem represents_ofWords {width : Nat} {word : Nat → Nat}
    (fits : ∀ base, width ∣ base → word base < 256 ^ width) :
    Represents width word (ofWords width word) := by
  constructor
  · exact fits
  · rintro base ⟨index, rfl⟩ j inside
    have quotient : (width * index + j) / width * width = width * index := by
      rw [Nat.mul_add_div (by omega), Nat.div_eq_of_lt inside, Nat.add_zero, Nat.mul_comm]
    have remainder : (width * index + j) % width = j := by
      rw [Nat.mul_add_mod, Nat.mod_eq_of_lt inside]
    rw [ofWords, quotient, remainder]

namespace Represents

variable {width base : Nat} {word : Nat → Nat} {memory : ByteMemory}

/-- A word of the byte memory is the represented word. -/
theorem read_eq (represents : Represents width word memory) (aligned : width ∣ base) :
    memory.read width base = word base := by
  have bytes : memory.read width base = ofBytes width (byteAt (word base)) :=
    ofBytes_congr fun j inside => (represents.agree base aligned j inside).symm
  rw [bytes, ofBytes_byteAt_of_lt (represents.fits base aligned)]

/-- Assigning a word whose bytes are the written ones represents the write. -/
theorem assign (represents : Represents width word memory) (aligned : width ∣ base)
    {value data : Nat} {lanes : Nat → Bool} (fits : value < 256 ^ width)
    (bytes : ∀ j < width, byteAt value j =
      if lanes j then byteAt data j else byteAt (word base) j) :
    Represents width (fun addr => if addr = base then value else word addr)
      (memory.write width base lanes data) := by
  constructor
  · intro other otherAligned
    by_cases same : other = base
    · simpa [same] using fits
    · simpa [same] using represents.fits other otherAligned
  · intro other otherAligned j inside
    by_cases same : other = base
    · subst same
      simp [write, bytes j inside, represents.agree other otherAligned j inside, inside]
    · have apart : ¬ (base ≤ other + j ∧ other + j < base + width ∧
          lanes (other + j - base) = true) := by
        rintro ⟨above, below, _⟩
        obtain ⟨m, rfl⟩ := aligned
        obtain ⟨n, rfl⟩ := otherAligned
        apply same
        have low : width * m < width * (n + 1) := by
          rw [Nat.mul_add]
          omega
        have high : width * n < width * (m + 1) := by
          rw [Nat.mul_add]
          omega
        have m_le := Nat.lt_of_mul_lt_mul_left low
        have n_le := Nat.lt_of_mul_lt_mul_left high
        rw [show n = m by omega]
      simp only [write, apart, if_false, same]
      exact represents.agree other otherAligned j inside

end Represents

end ByteMemory

end Difftest
