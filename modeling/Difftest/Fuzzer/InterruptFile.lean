import Difftest.Fuzzer.Mutator

/-!
# The interrupt file of the RTL

The preprocessor rebuilds the address of every instruction of the main part from a test on
its line: a line that contains `la` counts as two instructions.  The test also holds for
`fclass` instructions and for the register `fflags`, which count as one.
-/

namespace Difftest.Fuzzer

open Difftest.Text

/-! ## The file -/

/-- The test of `process`. -/
def readsLa (inst : Text) : Bool := contains "la".toList inst

/-- The expansion of the interrupts in `process`. -/
def expandInts : List Text → List Nat → Option (List Nat)
  | [], _ => some []
  | _ :: _, [] => none
  | inst :: insts, int :: ints => (expandInts insts ints).map fun rest =>
      if readsLa inst = true then int :: 0 :: rest else int :: rest

/-- One line `address:INT`. -/
def intrLine (entry : Nat × Nat) : Text := numeral 16 16 entry.1 ++ ':' :: numeral 2 4 entry.2

/-- The addresses and interrupts that are written, from an index on. -/
def intrEntries (fuzzMain i : Nat) (ints : List Nat) : List (Nat × Nat) :=
  ((ints.zipIdx i).filter fun entry => entry.1 ≠ 0).map fun entry =>
    (fuzzMain + 4 * entry.2, entry.1)

/-- The lines of the interrupt file. -/
def rtlIntr (fuzzMain : Nat) (input : SimInput) : Option (List Text) :=
  (getPart .main input.words).bind fun insts =>
    (expandInts insts.dropLast input.ints).map fun ints =>
      (intrEntries fuzzMain 0 ints).map intrLine

/-! ## Addresses -/

/-- The opcode of a line. -/
def mnemonic (inst : Text) : Text := (inst.drop 8).takeWhile (· ≠ ' ')

/-- The bytes of an instruction: `la` assembles to two instructions, all others to one. -/
def size (inst : Text) : Nat := if mnemonic inst = "la".toList then 8 else 4

/-- The addresses and interrupts of the instructions with an interrupt, for instructions of
the given sizes. -/
def entriesFrom (size : Text → Nat) : Nat → List Text → List Nat → List (Nat × Nat)
  | addr, inst :: insts, int :: ints =>
      (if int ≠ 0 then [(addr, int)] else []) ++ entriesFrom size (addr + size inst) insts ints
  | _, _, _ => []

/-- The size that the text test gives. -/
def readSize (inst : Text) : Nat := if readsLa inst = true then 8 else 4

theorem readsLa_of_mnemonic {inst : Text} (isLa : mnemonic inst = "la".toList) :
    readsLa inst = true := by
  have start : "la".toList <+: inst.drop 8 := isLa ▸ List.takeWhile_prefix _
  exact decide_eq_true (start.isInfix.trans (List.drop_suffix 8 inst).isInfix)

theorem size_le_readSize (inst : Text) : size inst ≤ readSize inst := by
  rw [size, readSize]
  by_cases isLa : mnemonic inst = "la".toList
  · rw [if_pos isLa, if_pos (readsLa_of_mnemonic isLa)]
  · rw [if_neg isLa]
    split
    · decide
    · exact le_rfl

theorem intrEntries_cons (fuzzMain i int : Nat) (ints : List Nat) :
    intrEntries fuzzMain i (int :: ints) =
      (if int ≠ 0 then [(fuzzMain + 4 * i, int)] else []) ++
        intrEntries fuzzMain (i + 1) ints := by
  rw [intrEntries, List.zipIdx_cons, List.filter_cons]
  by_cases zero : int = 0
  · rw [if_neg (by simpa using zero), if_neg (not_not.mpr zero)]
    rfl
  · rw [if_pos (by simpa using zero), if_pos zero]
    rfl

/-- The expanded interrupts are written as if every line that reads as `la` had eight
bytes. -/
theorem intrEntries_expandInts {insts : List Text} {ints expanded : List Nat}
    (isExpanded : expandInts insts ints = some expanded) (fuzzMain i : Nat) :
    intrEntries fuzzMain i expanded = entriesFrom readSize (fuzzMain + 4 * i) insts ints := by
  induction insts generalizing ints expanded i with
  | nil =>
      cases isExpanded
      cases ints <;> rfl
  | cons inst insts ih =>
      cases ints with
      | nil => cases isExpanded
      | cons int ints =>
          rcases Option.map_eq_some_iff.mp isExpanded with ⟨rest, isRest, rfl⟩
          rw [entriesFrom, readSize]
          split
          · have later := ih isRest (i + 1 + 1)
            have addr : fuzzMain + 4 * (i + 1 + 1) = fuzzMain + 4 * i + 8 := by omega
            rw [intrEntries_cons, intrEntries_cons, later, addr]
            rfl
          · have later := ih isRest (i + 1)
            have addr : fuzzMain + 4 * (i + 1) = fuzzMain + 4 * i + 4 := by omega
            rw [intrEntries_cons, later, addr]

theorem expandInts_isSome {insts : List Text} {ints : List Nat}
    (lengths : insts.length = ints.length) : ∃ expanded, expandInts insts ints = some expanded := by
  induction insts generalizing ints with
  | nil => exact ⟨[], rfl⟩
  | cons inst insts ih =>
      cases ints with
      | nil => cases lengths
      | cons int ints =>
          rcases ih (Nat.succ.inj lengths) with ⟨rest, isRest⟩
          rw [expandInts, isRest]
          exact ⟨_, rfl⟩

/-! ## Shifts -/

/-- Addresses that are too high stay too high, so no interrupt may follow. -/
theorem entriesFrom_shifted {insts : List Text} {ints : List Nat}
    (lengths : insts.length = ints.length) {high low : Nat} (shifted : low < high) :
    entriesFrom readSize high insts ints = entriesFrom size low insts ints ↔
      ∀ int ∈ ints, int = 0 := by
  induction insts generalizing ints high low with
  | nil =>
      obtain rfl := List.length_eq_zero_iff.mp lengths.symm
      simp [entriesFrom]
  | cons inst insts ih =>
      cases ints with
      | nil => cases lengths
      | cons int ints =>
          have wider : low + size inst < high + readSize inst :=
            Nat.add_lt_add_of_lt_of_le shifted (size_le_readSize inst)
          have later := ih (Nat.succ.inj lengths) wider
          rw [entriesFrom, entriesFrom, List.forall_mem_cons, ← later]
          by_cases zero : int = 0
          · rw [if_neg (not_not.mpr zero), if_neg (not_not.mpr zero)]
            exact ⟨fun same => ⟨zero, same⟩, fun both => both.2⟩
          · rw [if_pos zero, if_pos zero]
            constructor
            · intro same
              have first := (List.cons.inj same).1
              exact absurd (Prod.mk.inj first).1 shifted.ne'
            · exact fun both => absurd both.1 zero

/-- No line that reads as `la` without being one stands in front of an interrupt. -/
def WellRead (insts : List Text) (ints : List Nat) : Prop :=
  ∀ (j : Nat) (inst : Text), insts[j]? = some inst → readsLa inst = true →
    mnemonic inst ≠ "la".toList → ∀ int ∈ ints.drop (j + 1), int = 0

theorem wellRead_cons {inst : Text} {insts : List Text} {int : Nat} {ints : List Nat} :
    WellRead (inst :: insts) (int :: ints) ↔
      (readsLa inst = true → mnemonic inst ≠ "la".toList → ∀ int ∈ ints, int = 0) ∧
        WellRead insts ints := by
  constructor
  · intro wellRead
    exact ⟨wellRead 0 inst rfl, fun j other isOther => wellRead (j + 1) other isOther⟩
  · rintro ⟨first, later⟩ j other isOther
    cases j with
    | zero =>
        cases isOther
        exact first
    | succ j => exact later j other isOther

/-- The addresses are right exactly when no line in front of an interrupt is misread. -/
theorem entriesFrom_eq_iff {insts : List Text} {ints : List Nat}
    (lengths : insts.length = ints.length) (addr : Nat) :
    entriesFrom readSize addr insts ints = entriesFrom size addr insts ints ↔
      WellRead insts ints := by
  induction insts generalizing ints addr with
  | nil =>
      constructor
      · intro _ j inst isInst
        cases isInst
      · exact fun _ => rfl
  | cons inst insts ih =>
      cases ints with
      | nil => cases lengths
      | cons int ints =>
          have rest := Nat.succ.inj lengths
          rw [entriesFrom, entriesFrom, List.append_cancel_left_eq, wellRead_cons]
          by_cases misread : readsLa inst = true ∧ mnemonic inst ≠ "la".toList
          · have wider : addr + size inst < addr + readSize inst := by
              rw [size, readSize, if_pos misread.1, if_neg misread.2]
              exact Nat.add_lt_add_left (by decide) addr
            rw [entriesFrom_shifted rest wider]
            constructor
            · intro zero
              refine ⟨fun _ _ => zero, ?_⟩
              exact fun _ _ _ _ _ int mem => zero int (List.mem_of_mem_drop mem)
            · exact fun both => both.1 misread.1 misread.2
          · have same : readSize inst = size inst := by
              rw [size, readSize]
              by_cases reads : readsLa inst = true
              · have isLa := not_not.mp fun other => misread ⟨reads, other⟩
                rw [if_pos reads, if_pos isLa]
              · rw [if_neg reads, if_neg fun isLa => reads (readsLa_of_mnemonic isLa)]
            rw [same, ih rest]
            constructor
            · exact fun later => ⟨fun reads other => absurd ⟨reads, other⟩ misread, later⟩
            · exact fun both => both.2

/-! ## Lines -/

theorem numeral_injective {base : Nat} (one_lt : 1 < base) (base_le : base ≤ 16) (width : Nat) :
    Function.Injective (numeral base width) := by
  intro n m same
  have parsed := parseInt_numeral one_lt base_le width n
  rw [same, parseInt_numeral one_lt base_le] at parsed
  exact (Int.ofNat.inj (Option.some.inj parsed)).symm

/-- The lines tell addresses and interrupts apart. -/
theorem intrLine_injective : Function.Injective intrLine := by
  rintro ⟨addr, int⟩ ⟨addr', int'⟩ same
  have front : ∀ n, ∀ c ∈ numeral 16 16 n, decide (c ≠ ':') = true := by
    intro n c mem
    rw [decide_eq_true_eq]
    rintro rfl
    exact absurd (digit_of_mem_numeral (by decide) (by decide) 16 n _ mem) (by decide)
  have cut : ∀ n rest, (numeral 16 16 n ++ ':' :: rest).takeWhile (· ≠ ':') = numeral 16 16 n := by
    intro n rest
    rw [List.takeWhile_append_of_pos (front n), List.takeWhile_cons_of_neg (by decide),
      List.append_nil]
  have addresses : numeral 16 16 addr = numeral 16 16 addr' := by
    rw [← cut addr (numeral 2 4 int), ← cut addr' (numeral 2 4 int')]
    exact congrArg _ same
  rw [intrLine, intrLine, addresses] at same
  have rest := List.append_cancel_left same
  have ints : numeral 2 4 int = numeral 2 4 int' := (List.cons.inj rest).2
  rw [numeral_injective (by decide) (by decide) 16 addresses,
    numeral_injective (by decide) (by decide) 4 ints]

/-- The interrupt file has one line for each instruction with an interrupt and gives its
address, exactly when no line that reads as `la` without being one stands in front of an
interrupt. -/
theorem rtlIntr_iff {input : SimInput} {insts : List Text}
    (lines : getPart .main input.words = some insts)
    (lengths : input.ints.length = insts.dropLast.length) (fuzzMain : Nat) :
    rtlIntr fuzzMain input =
        some ((entriesFrom size fuzzMain insts.dropLast input.ints).map intrLine) ↔
      WellRead insts.dropLast input.ints := by
  rcases expandInts_isSome lengths.symm with ⟨expanded, isExpanded⟩
  have entries := intrEntries_expandInts isExpanded fuzzMain 0
  rw [Nat.mul_zero, Nat.add_zero] at entries
  rw [rtlIntr, lines, Option.bind_some, isExpanded, Option.map_some, entries, Option.some.injEq,
    (List.map_injective_iff.mpr intrLine_injective).eq_iff]
  exact entriesFrom_eq_iff lengths.symm fuzzMain

/-- A jump and the instruction behind it. -/
def jumpWords : List Word := [
  { Word.plain 0 ["la xreg0, symbol".toList, "jalr xreg1, 0(xreg0)".toList] with
    populated := true
    retInsts := ["_l0:    la x5, _l1".toList, "        jalr x1, 0(x5)".toList] },
  { Word.plain 1 ["addi xreg0, xreg1, imm12".toList] with
    populated := true
    retInsts := ["_l1:    addi x1, x2, 3".toList] }]

theorem rtlIntr_iff_jump :
    rtlIntr 0x80002000 ⟨[], jumpWords, [], [0, 0, 9], 0, 0⟩ =
        some ((entriesFrom size 0x80002000 ["_l0:    la x5, _l1".toList,
          "        jalr x1, 0(x5)".toList, "_l1:    addi x1, x2, 3".toList] [0, 0, 9]).map
            intrLine) ↔
      WellRead ["_l0:    la x5, _l1".toList, "        jalr x1, 0(x5)".toList,
        "_l1:    addi x1, x2, 3".toList] [0, 0, 9] :=
  @rtlIntr_iff ⟨[], jumpWords, [], [0, 0, 9], 0, 0⟩
    ["_l0:    la x5, _l1".toList, "        jalr x1, 0(x5)".toList,
      "_l1:    addi x1, x2, 3".toList, "_l2:".toList] (by decide +kernel) (by decide +kernel)
    0x80002000

set_option maxRecDepth 100000 in
/-- The first main instruction of this seed is `fclass.s`, so the interrupt of the second one
is written four bytes too far. -/
theorem rtlIntr_misplaced :
    ∃ input ∈ ((Mutator.init 1 10 false).get false [0, 0, 0, 0, 0, 0, 0, 0, 0, 83]).map
        fun result => result.1.1.1,
      ∃ insts ∈ getPart .main input.words,
        ([0, 1] ++ List.replicate 296 0).length = insts.dropLast.length ∧
        rtlIntr 0x80002000 { input with ints := [0, 1] ++ List.replicate 296 0 } ≠
          some ((entriesFrom size 0x80002000 insts.dropLast
            ([0, 1] ++ List.replicate 296 0)).map intrLine) := by
  decide +kernel

end Difftest.Fuzzer
