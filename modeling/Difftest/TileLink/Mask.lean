import Difftest.Data.Bytes
import Difftest.Text.Number

/-!
# Byte masks

The adapter turns a byte mask into a bit mask through text: it prints the mask in
binary, prints `ff` or `00` for each digit, and reads the result in base 16.
The main result says that the outcome is what the detour is for: bit
`8 * i + j` of the bit mask is bit `i` of the byte mask.
-/

namespace Difftest.TileLink

open Text

/-- `'{:02x}'.format(0xff * int(i))` for one binary digit `i`. -/
def laneText (digit : Char) : Text :=
  numeral 16 2 (255 * ((digitValue 10 digit).getD 0))

/-- `''.join(['{:02x}'.format(0xff * int(i)) for i in ('{:0b}'.format(mask))])`. -/
def bitMaskText (mask : Nat) : Text := (Nat.toDigits 2 mask).flatMap laneText

/-- `bit_mask`: the text read in base 16. -/
def bitMask (mask : Nat) : Nat := ((parseInt 16 (bitMaskText mask)).getD 0).toNat

/-- The number the mask text denotes, digit by digit. -/
def laneBits : Nat → Nat → Nat
  | 0, _ => 0
  | width + 1, mask => (if mask % 2 = 1 then 255 else 0) + 256 * laneBits width (mask / 2)

theorem laneText_digitChar {d : Nat} (binary : d < 2) :
    laneText d.digitChar = [(15 * d).digitChar, (15 * d).digitChar] := by
  have cases : d = 0 ∨ d = 1 := by omega
  rcases cases with rfl | rfl <;> decide

theorem testBit_laneBits {width mask i j : Nat} (fits : mask < 2 ^ width) (bit : j < 8) :
    (laneBits width mask).testBit (8 * i + j) = mask.testBit i := by
  induction width generalizing mask i with
  | zero =>
      have none : mask = 0 := by simpa using fits
      simp [laneBits, none]
  | succ width ih =>
      have half : mask / 2 < 2 ^ width := by
        rw [Nat.pow_succ] at fits
        omega
      have low : (if mask % 2 = 1 then 255 else 0) < 2 ^ 8 := by
        split <;> decide
      rw [laneBits, Nat.add_comm, show (256 : Nat) = 2 ^ 8 by norm_num,
        Nat.testBit_two_pow_mul_add _ low]
      cases i with
      | zero =>
          have ones : ∀ j < 8, (255 : Nat).testBit j = true := by decide
          rw [Nat.mul_zero, Nat.zero_add, if_pos bit, Nat.testBit_zero]
          by_cases odd : mask % 2 = 1
          · simp [odd, ones j bit]
          · simp [odd]
      | succ i =>
          have above : ¬ 8 * (i + 1) + j < 8 := by omega
          rw [if_neg above, show 8 * (i + 1) + j - 8 = 8 * i + j by omega, ih half,
            Nat.testBit_succ]

/-- Reading the mask text appends its lanes to the number read so far. -/
theorem readDigits_bitMaskText (mask acc : Nat) (rest : Text) :
    ∃ width, mask < 2 ^ width ∧
      readDigits 16 acc (bitMaskText mask ++ rest) =
        readDigits 16 (acc * 256 ^ width + laneBits width mask) rest := by
  induction mask using Nat.strongRecOn generalizing acc rest with
  | ind mask ih =>
      by_cases small : mask < 2
      · refine ⟨1, by omega, ?_⟩
        rw [bitMaskText, Nat.toDigits_of_lt_base small, List.flatMap_singleton,
          laneText_digitChar small, List.cons_append, List.cons_append, List.nil_append,
          readDigits_digitChar (by decide) (by omega), readDigits_digitChar (by decide) (by omega)]
        have cases : mask = 0 ∨ mask = 1 := by omega
        rcases cases with rfl | rfl
        · simp [laneBits]
          congr 1
          omega
        · simp [laneBits]
          congr 1
          omega
      · have last : mask % 2 < 2 := Nat.mod_lt _ (by decide)
        obtain ⟨width, fits, read⟩ :=
          ih (mask / 2) (by omega) acc (laneText (mask % 2).digitChar ++ rest)
        refine ⟨width + 1, by rw [Nat.pow_succ]; omega, ?_⟩
        rw [bitMaskText, Nat.toDigits_of_base_le (by decide) (by omega), List.flatMap_append,
          List.flatMap_singleton, List.append_assoc]
        rw [bitMaskText] at read
        rw [read, laneText_digitChar last, List.cons_append, List.cons_append, List.nil_append,
          readDigits_digitChar (by decide) (by omega), readDigits_digitChar (by decide) (by omega)]
        have bit : mask % 2 = 0 ∨ mask % 2 = 1 := by omega
        have shift : acc * 256 ^ (width + 1) = 256 * (acc * 256 ^ width) := by ring
        rw [laneBits, shift]
        congr 1
        rcases bit with even | odd
        · rw [even, if_neg (by decide)]
          omega
        · rw [odd, if_pos rfl]
          omega

theorem digit_of_mem_bitMaskText (mask : Nat) :
    ∀ c ∈ bitMaskText mask, (digitValue 16 c).isSome := by
  intro c mem
  obtain ⟨digit, _, lane⟩ := List.mem_flatMap.mp mem
  exact digit_of_mem_numeral (by decide) (by decide) 2 _ c lane

theorem bitMaskText_ne_nil (mask : Nat) : bitMaskText mask ≠ [] := by
  intro nil
  have digits : Nat.toDigits 2 mask ≠ [] := Nat.toDigits_ne_nil
  obtain ⟨digit, rest, cons⟩ := List.exists_cons_of_ne_nil digits
  rw [bitMaskText, cons, List.flatMap_cons, List.append_eq_nil_iff] at nil
  exact numeral_ne_nil 16 2 _ nil.1

/-- Each bit of the byte mask selects the eight bits of its lane. -/
theorem testBit_bitMask (mask i : Nat) {j : Nat} (bit : j < 8) :
    (bitMask mask).testBit (8 * i + j) = mask.testBit i := by
  obtain ⟨width, fits, read⟩ := readDigits_bitMaskText mask 0 []
  have parsed : parseInt 16 (bitMaskText mask ++ []) =
      (readDigits 16 0 (bitMaskText mask)).map Int.ofNat :=
    parseInt_of_digits (bitMaskText_ne_nil mask) (digit_of_mem_bitMaskText mask) (by simp)
  rw [List.append_nil] at read parsed
  have value : bitMask mask = laneBits width mask := by
    rw [bitMask, parsed, read]
    simp [readDigits]
  rw [value, testBit_laneBits fits bit]

end Difftest.TileLink
