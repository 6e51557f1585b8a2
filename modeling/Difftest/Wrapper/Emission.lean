import Difftest.Data.Listing
import Difftest.Host.HexFile

/-!
# Emission of the wrapped code

The wrapper copies the code of a program as data directives behind the label `user_code`, and
puts an `.org` directive where words of the image are missing.
-/

namespace Difftest.Wrapper

open Difftest.Text Difftest.Host Difftest.Listing

/-! ## Directives -/

/-- The directives of the copied code. -/
inductive Directive where
  | org (offset : Nat)
  | word (value : Nat)
  | half (value : Nat)
  | byte (value : Nat)

/-- The line of a directive up to its number. -/
def Directive.name : Directive → String
  | .org _ => "    .org "
  | .word _ => "    .word 0x"
  | .half _ => "    .2byte 0x"
  | .byte _ => "    .byte 0x"

/-- The number of a directive as it is written. -/
def Directive.number : Directive → Text
  | .org offset => numeral 10 1 offset
  | .word value => numeral 16 8 value
  | .half value => numeral 16 4 value
  | .byte value => numeral 16 2 value

/-- The line of a directive. -/
def Directive.text (directive : Directive) : Text := directive.name.toList ++ directive.number

/-- The bytes that an assembler places for a directive, the least significant one first; `.org`
moves to an offset in the section. -/
def Directive.item : Directive → Item Nat
  | .org offset => .move offset
  | .word value => .data ((List.range 4).map (byteAt value))
  | .half value => .data ((List.range 2).map (byteAt value))
  | .byte value => .data [byteAt value 0]

/-- The lines are as different as the directives. -/
theorem Directive.text_injective : Function.Injective Directive.text := by
  have values : ∀ base width : Nat, 1 < base → base ≤ 16 → ∀ m n : Nat,
      numeral base width m = numeral base width n → m = n := by
    intro base width one_lt base_le m n same
    have parsed := parseInt_numeral one_lt base_le width m
    rw [same, parseInt_numeral one_lt base_le width n] at parsed
    exact (Int.ofNat.inj (Option.some.inj parsed)).symm
  intro first second same
  rw [Directive.text, Directive.text] at same
  cases first <;> cases second
  case org.org m n =>
      rw [values 10 1 (by decide) (by decide) m n (List.append_cancel_left same)]
  case word.word m n =>
      rw [values 16 8 (by decide) (by decide) m n (List.append_cancel_left same)]
  case half.half m n =>
      rw [values 16 4 (by decide) (by decide) m n (List.append_cancel_left same)]
  case byte.byte m n =>
      rw [values 16 2 (by decide) (by decide) m n (List.append_cancel_left same)]
  all_goals simp [Directive.name] at same

/-! ## The emission loop -/

/-- The directives for the bytes that are left of a word, from an offset on: four bytes at a
time as long as there are four, then two, then one. -/
def emitWord (word : Nat) : Nat → Nat → List Directive
  | remaining + 4, byteOffset =>
      .word (word >>> (byteOffset * 8) &&& 0xFFFFFFFF) :: emitWord word remaining (byteOffset + 4)
  | remaining + 2, byteOffset =>
      .half (word >>> (byteOffset * 8) &&& 0xFFFF) :: emitWord word remaining (byteOffset + 2)
  | 1, byteOffset => [.byte (word >>> (byteOffset * 8) &&& 0xFF)]
  | 0, _ => []

/-- The directive in front of a word that is not the next one. -/
def emitGap (currentOffset expectedOffset : Nat) : List Directive :=
  if currentOffset < expectedOffset then [.org (currentOffset + (expectedOffset - currentOffset))]
  else []

/-- The loop over the words, with the offset from the rounded start and the mark of the first
word.  What the inner loop adds to the offset is overwritten after each word. -/
def emitWords (memory : Dict Nat Nat) (start codeEnd : Nat) :
    Nat → Bool → List Nat → List Directive
  | _, _, [] => []
  | currentOffset, firstWord, wordAddr :: rest =>
      match memory.get? wordAddr with
      | none => emitWords memory start codeEnd currentOffset firstWord rest
      | some word =>
          let expectedOffset := wordAddr - alignDown start
          let bytesInWord := min 8 (codeEnd - wordAddr)
          let byteOffset := if firstWord = true then start - alignDown start else 0
          emitGap currentOffset expectedOffset ++
            emitWord word (bytesInWord - byteOffset) byteOffset ++
            emitWords memory start codeEnd (expectedOffset + 8) false rest

/-- The directives of the code from `start` to `code_end`. -/
def wordDirectives (memory : Dict Nat Nat) (start codeEnd : Nat) : List Directive :=
  emitWords memory start codeEnd 0 true (stepRange (alignDown start) codeEnd 8)

/-- The bytes that are placed when the label `user_code` has an offset in its section. -/
def assembleCode (memory : Dict Nat Nat) (start codeEnd userCode : Nat) :
    Option (List (Nat × Nat)) :=
  assemble userCode ((wordDirectives memory start codeEnd).map Directive.item)

/-! ## The bytes of a word -/

section Word

variable {word : Nat}

/-- A byte of some bits of a word. -/
theorem byteAt_shifted {offset bits i : Nat} (inside : 8 * i + 8 ≤ bits) :
    byteAt (word >>> (offset * 8) &&& (2 ^ bits - 1)) i = byteAt word (offset + i) := by
  apply byteAt_eq_of_testBit
  intro j below
  have low : 8 * i + j < bits := by omega
  rw [Nat.testBit_and, Nat.testBit_shiftRight, Nat.testBit_two_pow_sub_one, decide_eq_true low,
    Bool.and_true]
  congr 1
  ring

theorem range'_split (start first rest : Nat) : List.range' start (rest + first) =
    List.range' start first ++ List.range' (start + first) rest := by
  rw [List.range'_append_1, Nat.add_comm]

/-- The directives of a word have no `.org` and hold its bytes in order. -/
theorem emitWord_spec (word remaining byteOffset : Nat) :
    (∀ item ∈ (emitWord word remaining byteOffset).map Directive.item, ∀ target,
      item ≠ .move target) ∧
    ((emitWord word remaining byteOffset).map Directive.item).flatMap Item.values =
      (List.range' byteOffset remaining).map (byteAt word) := by
  induction remaining, byteOffset using emitWord.induct with
  | case1 remaining byteOffset inductionHypothesis =>
      rcases inductionHypothesis with ⟨noMove, values⟩
      constructor
      · rw [emitWord, List.map_cons, List.forall_mem_cons]
        exact ⟨by simp [Directive.item], noMove⟩
      · have bytes : (List.range 4).map
            (byteAt (word >>> (byteOffset * 8) &&& (2 ^ 32 - 1))) =
            (List.range 4).map fun i => byteAt word (byteOffset + i) := by
          apply List.map_congr_left
          intro i mem
          have below := List.mem_range.mp mem
          exact byteAt_shifted (by omega)
        rw [emitWord, List.map_cons, List.flatMap_cons, values, Directive.item, Item.values,
          show (0xFFFFFFFF : Nat) = 2 ^ 32 - 1 by decide, bytes, range'_split byteOffset 4 remaining,
          List.map_append]
        rfl
  | case2 remaining byteOffset notFour inductionHypothesis =>
      rcases inductionHypothesis with ⟨noMove, values⟩
      have unfolded : emitWord word (remaining + 2) byteOffset =
          .half (word >>> (byteOffset * 8) &&& 0xFFFF) ::
            emitWord word remaining (byteOffset + 2) := by
        rw [emitWord]
        exact notFour
      constructor
      · rw [unfolded, List.map_cons, List.forall_mem_cons]
        exact ⟨by simp [Directive.item], noMove⟩
      · have bytes : (List.range 2).map
            (byteAt (word >>> (byteOffset * 8) &&& (2 ^ 16 - 1))) =
            (List.range 2).map fun i => byteAt word (byteOffset + i) := by
          apply List.map_congr_left
          intro i mem
          have below := List.mem_range.mp mem
          exact byteAt_shifted (by omega)
        rw [unfolded, List.map_cons, List.flatMap_cons, values, Directive.item,
          Item.values, show (0xFFFF : Nat) = 2 ^ 16 - 1 by decide, bytes,
          range'_split byteOffset 2 remaining, List.map_append]
        rfl
  | case3 byteOffset =>
      have byte := @byteAt_shifted word byteOffset 8 0 (by decide)
      constructor
      · simp [emitWord, Directive.item]
      · simp only [emitWord, List.map_cons, List.map_nil, Directive.item, Item.values,
          List.flatMap_cons, List.flatMap_nil, List.append_nil, List.range'_one]
        exact congrArg (fun b => [b]) byte
  | case4 byteOffset => exact ⟨List.forall_mem_nil _, rfl⟩

end Word

end Difftest.Wrapper
