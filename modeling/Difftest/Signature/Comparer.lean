import Difftest.Signature.File

/-!
# The standalone signature comparer

`SignatureComparer` reads both signature files as flat lists of words, without
the lines that are not whole records, and compares the words whose indices the
symbol table gives.  An index past the end of a list is skipped.

The results say which words a verdict has compared, and for which symbol tables
and which shapes of the two files these are all the words that it should compare.
-/

namespace Difftest.Signature

open Difftest.Text

/-! ## Reading -/

/-- The words of one line of `_read_signature_file`: none for a line that does not
have 32 characters. -/
def readSignatureLine (raw : Text) : Option (List Int) :=
  let line := strip raw
  if line = [] then some []
  else if line.length = 32 then do
    let first ← parseInt 16 (slice 16 32 line)
    let second ← parseInt 16 (slice 0 16 line)
    some [first, second]
  else some []

/-- `_read_signature_file` on the contents of the file; `none` is a `ValueError`. -/
def readSignatureFile (file : Text) : Option (List Int) := do
  let words ← (readlines file).mapM readSignatureLine
  some words.flatten

/-! ## Comparing -/

/-- Names of the integer registers. -/
def xregNames : List String :=
  ["zero", "ra", "sp", "gp", "tp", "t0", "t1", "t2", "s0", "s1",
   "a0", "a1", "a2", "a3", "a4", "a5", "a6", "a7", "s2", "s3",
   "s4", "s5", "s6", "s7", "s8", "s9", "s10", "s11", "t3", "t4",
   "t5", "t6"]

/-- Names of the floating-point registers. -/
def fregNames : List String :=
  ["ft0", "ft1", "ft2", "ft3", "ft4", "ft5", "ft6", "ft7",
   "fs0", "fs1", "fa0", "fa1", "fa2", "fa3", "fa4", "fa5",
   "fa6", "fa7", "fs2", "fs3", "fs4", "fs5", "fs6", "fs7",
   "fs8", "fs9", "fs10", "fs11", "ft8", "ft9", "ft10", "ft11"]

/-- An entry of `mismatches`. -/
inductive Mismatch where
  | isaUnreadable
  | rtlUnreadable
  | size (isa rtl : Nat)
  | register (label : String) (isaVal rtlVal : Int)
  | data (i j : Nat) (isaVal rtlVal : Int) (addr : Nat)
deriving DecidableEq, Repr

/-- `f'{value:016x}'`: the sign takes one of the sixteen columns. -/
def hexColumns (value : Int) : Text :=
  if 0 ≤ value then numeral 16 16 value.toNat else '-' :: numeral 16 15 value.natAbs

/-- The text of an entry; the text of an exception is left out. -/
def Mismatch.text : Mismatch → Text
  | .isaUnreadable => "Failed to read ISA signature: ".toList
  | .rtlUnreadable => "Failed to read RTL signature: ".toList
  | .size isa rtl =>
      "Signature size mismatch: ISA=".toList ++ Nat.toDigits 10 isa ++ ", RTL=".toList ++
        Nat.toDigits 10 rtl
  | .register label isaVal rtlVal =>
      label.toList ++ ": ISA=0x".toList ++ hexColumns isaVal ++ ", RTL=0x".toList ++
        hexColumns rtlVal
  | .data i j isaVal rtlVal addr =>
      "data".toList ++ Nat.toDigits 10 i ++ "[+0x".toList ++ Nat.toDigits 16 (j * 2) ++
        "]: ISA=0x".toList ++ hexColumns isaVal ++ ", RTL=0x".toList ++ hexColumns rtlVal ++
        " @ 0x".toList ++ Nat.toDigits 16 addr

/-- What `compare` returns. -/
structure ComparerResult where
  isMatch : Bool
  isaOnly : Bool
  mismatches : List Mismatch
  xregMismatches : Nat
  fregMismatches : Nat
  csrMismatches : Nat
  dataMismatches : Nat
deriving DecidableEq, Repr

/-- The comparison of the two words with one index; `none` is an `IndexError`. -/
def compareWord (isaValues rtlValues : List Int) (idx : Int) (mismatch : Int → Int → Mismatch) :
    Option (List Mismatch) := do
  let isaVal ← index? isaValues idx
  let rtlVal ← index? rtlValues idx
  some (if isaVal = rtlVal then [] else [mismatch isaVal rtlVal])

/-- One turn of the loops over registers: a symbol that is missing or whose index
is past the end is skipped. -/
def compareSlot (symbols : Symbols) (sigStart : Nat) (isaValues rtlValues : List Int)
    (slot : String × String) : Option (List Mismatch) :=
  match symbols slot.1 with
  | none => some []
  | some addr =>
      let idx := ((addr : Int) - sigStart) / 8
      if idx ≥ isaValues.length ∨ idx ≥ rtlValues.length then some []
      else compareWord isaValues rtlValues idx (.register slot.2)

/-- A loop over registers, each given by its symbol and its label. -/
def compareSlots (symbols : Symbols) (sigStart : Nat) (isaValues rtlValues : List Int)
    (slots : List (String × String)) : Option (List Mismatch) := do
  let mismatches ← slots.mapM (compareSlot symbols sigStart isaValues rtlValues)
  some mismatches.flatten

/-- The symbol and the label of each integer register. -/
def xregSlots : List (String × String) :=
  (List.range 32).map fun i =>
    (xregSymbol i, "x" ++ toString i ++ " (" ++ xregNames.getD i "" ++ ")")

/-- The symbol and the label of each floating-point register. -/
def fregSlots : List (String × String) :=
  (List.range 32).map fun i =>
    (fregSymbol i, "f" ++ toString i ++ " (" ++ fregNames.getD i "" ++ ")")

/-- The symbol and the label of each CSR. -/
def csrSlots : List (String × String) := csrNames.map fun name => (csrSymbol name, name)

/-- `_compare_registers`. -/
def compareRegisters (symbols : Symbols) (sigStart : Nat) (isaValues rtlValues : List Int) :
    Option (List Mismatch) :=
  compareSlots symbols sigStart isaValues rtlValues xregSlots

/-- `_compare_fp_registers`. -/
def compareFpRegisters (symbols : Symbols) (sigStart : Nat) (isaValues rtlValues : List Int) :
    Option (List Mismatch) :=
  compareSlots symbols sigStart isaValues rtlValues fregSlots

/-- `_compare_csrs`. -/
def compareCsrs (symbols : Symbols) (sigStart : Nat) (isaValues rtlValues : List Int) :
    Option (List Mismatch) :=
  compareSlots symbols sigStart isaValues rtlValues csrSlots

/-- Whole words between two addresses, negative when they are in the other order. -/
def sizeWords (range : Nat × Nat) : Int := ((range.2 : Int) - range.1) / 8

/-- Index of the first word of a data section: its distance to the signature. -/
def sectionOffset (sigStart : Nat) (range : Nat × Nat) : Int := ((range.1 : Int) - sigStart) / 8

/-- One turn of the loop over data sections. -/
def compareDataSection (symbols : Symbols) (sigStart : Nat) (isaValues rtlValues : List Int)
    (i : Nat) : Option (List Mismatch) :=
  match sectionRange symbols i with
  | none => some []
  | some range =>
      let offset := sectionOffset sigStart range
      if offset + sizeWords range > isaValues.length ∨ offset + sizeWords range > rtlValues.length
      then some []
      else do
        let mismatches ← (List.range (sizeWords range).toNat).mapM fun j : Nat =>
          compareWord isaValues rtlValues (offset + j) fun isaVal rtlVal =>
            .data i j isaVal rtlVal (range.1 + 8 * j)
        some mismatches.flatten

/-- `_compare_data_sections`. -/
def compareDataSections (symbols : Symbols) (sigStart : Nat) (isaValues rtlValues : List Int) :
    Option (List Mismatch) := do
  let mismatches ← (List.range 6).mapM
    (compareDataSection symbols sigStart isaValues rtlValues)
  some mismatches.flatten

/-- The early return of `compare` with a mismatch. -/
def ComparerResult.failed (mismatch : Mismatch) (isaOnly : Bool) : ComparerResult where
  isMatch := false
  isaOnly := isaOnly
  mismatches := [mismatch]
  xregMismatches := 0
  fregMismatches := 0
  csrMismatches := 0
  dataMismatches := 0

/-- A step of `compare` that is taken when the table has a symbol. -/
def ifPresent {α : Type} (symbols : Symbols) (name : String) (otherwise : α) (step : Option α) :
    Option α :=
  if (symbols name).isSome then step else some otherwise

/-- The comparison of two signatures that were read. -/
def compareValues (symbols : Symbols) (sigStart : Nat) (isaValues rtlValues : List Int) :
    Option ComparerResult :=
  if isaValues.length ≠ rtlValues.length then
    some (.failed (.size isaValues.length rtlValues.length) false)
  else do
    let xreg ← ifPresent symbols (xregSymbol 0) []
      (compareRegisters symbols sigStart isaValues rtlValues)
    let freg ← ifPresent symbols (fregSymbol 0) []
      (compareFpRegisters symbols sigStart isaValues rtlValues)
    let csr ← compareCsrs symbols sigStart isaValues rtlValues
    let data ← compareDataSections symbols sigStart isaValues rtlValues
    some {
      isMatch := xreg.length = 0 && freg.length = 0 && csr.length = 0 && data.length = 0
      isaOnly := false
      mismatches := xreg ++ freg ++ csr ++ data
      xregMismatches := xreg.length
      fregMismatches := freg.length
      csrMismatches := csr.length
      dataMismatches := data.length }

/-- `compare_signatures`: the constructor and `compare`.  A signature is the
contents of its file, `none` when there is no such file; `rtlSig` is `none` when no
file is given.  The result is `none` when the call raises. -/
def compareSignatures (symbols : Symbols) (isaSig : Option Text) (rtlSig : Option (Option Text)) :
    Option ComparerResult := do
  let sigStart ← symbols "begin_signature"
  let _ ← symbols "end_signature"
  match isaSig.bind readSignatureFile with
  | none => some (.failed .isaUnreadable rtlSig.isNone)
  | some isaValues =>
      match rtlSig with
      | none => some { ComparerResult.failed .isaUnreadable true with
          isMatch := true, mismatches := [] }
      | some rtlSig =>
          match rtlSig.bind readSignatureFile with
          | none => some (.failed .rtlUnreadable false)
          | some rtlValues => compareValues symbols sigStart isaValues rtlValues

/-! ## The words a verdict has compared -/

/-- The indices that a loop over registers compares in lists of `n` words. -/
def slotIndices (symbols : Symbols) (sigStart n : Nat) (slots : List (String × String)) :
    List Int :=
  (slots.filterMap fun slot =>
    (symbols slot.1).map fun addr : Nat => ((addr : Int) - sigStart) / 8).filter (· < n)

/-- The indices that the loop over data sections compares. -/
def sectionIndices (symbols : Symbols) (sigStart n : Nat) : List Int :=
  (List.range 6).flatMap fun i =>
    match sectionRange symbols i with
    | none => []
    | some range =>
        if sectionOffset sigStart range + sizeWords range > n then []
        else (List.range (sizeWords range).toNat).map fun j : Nat => sectionOffset sigStart range + j

/-- All indices that are compared in lists of `n` words. -/
def comparedIndices (symbols : Symbols) (sigStart n : Nat) : List Int :=
  (if (symbols (xregSymbol 0)).isSome then slotIndices symbols sigStart n xregSlots else []) ++
    (if (symbols (fregSymbol 0)).isSome then slotIndices symbols sigStart n fregSlots else []) ++
    slotIndices symbols sigStart n csrSlots ++ sectionIndices symbols sigStart n

/-- Both lists have the word, and it is the same. -/
def SameWord (isaValues rtlValues : List Int) (idx : Int) : Prop :=
  ∃ value, index? isaValues idx = some value ∧ index? rtlValues idx = some value

theorem compareWord_eq_nil_iff {isaValues rtlValues : List Int} {idx : Int}
    {mismatch : Int → Int → Mismatch} :
    compareWord isaValues rtlValues idx mismatch = some [] ↔ SameWord isaValues rtlValues idx := by
  constructor
  · intro compared
    obtain ⟨isaVal, isaRead, compared⟩ := Option.bind_eq_some_iff.mp compared
    obtain ⟨rtlVal, rtlRead, compared⟩ := Option.bind_eq_some_iff.mp compared
    by_cases same : isaVal = rtlVal
    · exact ⟨isaVal, isaRead, same ▸ rtlRead⟩
    · rw [if_neg same] at compared
      cases compared
  · rintro ⟨value, isaRead, rtlRead⟩
    rw [compareWord, isaRead, rtlRead]
    exact congrArg some (if_pos rfl)

section Values

variable {symbols : Symbols} {sigStart n : Nat} {isaValues rtlValues : List Int}

theorem compareSlots_eq_nil_iff (isaLength : isaValues.length = n) (rtlLength : rtlValues.length = n)
    (slots : List (String × String)) :
    compareSlots symbols sigStart isaValues rtlValues slots = some [] ↔
      ∀ idx ∈ slotIndices symbols sigStart n slots, SameWord isaValues rtlValues idx := by
  rw [compareSlots, mapM_flatten_eq_nil_iff]
  constructor
  · intro compared idx mem
    obtain ⟨mem, inRange⟩ := List.mem_filter.mp mem
    obtain ⟨slot, slotMem, found⟩ := List.mem_filterMap.mp mem
    obtain ⟨addr, lookup, rfl⟩ := Option.map_eq_some_iff.mp found
    have inRange := of_decide_eq_true inRange
    have nil := compared slot slotMem
    simp only [compareSlot, lookup, isaLength, rtlLength, or_self, ge_iff_le,
      if_neg (not_le.mpr inRange)] at nil
    exact compareWord_eq_nil_iff.mp nil
  · intro same slot mem
    cases lookup : symbols slot.1 with
    | none => simp only [compareSlot, lookup]
    | some addr =>
        simp only [compareSlot, lookup, isaLength, rtlLength, or_self, ge_iff_le]
        by_cases past : (n : Int) ≤ ((addr : Int) - sigStart) / 8
        · rw [if_pos past]
        · rw [if_neg past]
          apply compareWord_eq_nil_iff.mpr
          apply same
          apply List.mem_filter.mpr
          refine ⟨List.mem_filterMap.mpr ⟨slot, mem, ?_⟩, decide_eq_true (not_le.mp past)⟩
          rw [lookup, Option.map_some]

theorem compareDataSections_eq_nil_iff (isaLength : isaValues.length = n)
    (rtlLength : rtlValues.length = n) :
    compareDataSections symbols sigStart isaValues rtlValues = some [] ↔
      ∀ idx ∈ sectionIndices symbols sigStart n, SameWord isaValues rtlValues idx := by
  rw [compareDataSections, mapM_flatten_eq_nil_iff, sectionIndices, List.forall_mem_flatMap]
  apply forall₂_congr
  intro i _
  cases found : sectionRange symbols i with
  | none => simp only [compareDataSection, found, List.not_mem_nil, false_imp_iff, implies_true]
  | some range =>
      simp only [compareDataSection, found, isaLength, rtlLength, or_self, gt_iff_lt]
      by_cases past : (n : Int) < sectionOffset sigStart range + sizeWords range
      · simp only [if_pos past, List.not_mem_nil, false_imp_iff, implies_true]
      · rw [if_neg past, if_neg past, mapM_flatten_eq_nil_iff, List.forall_mem_map]
        apply forall₂_congr
        intro j _
        exact compareWord_eq_nil_iff

/-- A loop that runs only when the table has a symbol. -/
theorem ifPresent_eq_nil_iff {name : String} {compared : Option (List Mismatch)}
    {indices : List Int}
    (same : compared = some [] ↔ ∀ idx ∈ indices, SameWord isaValues rtlValues idx) :
    ifPresent symbols name [] compared = some [] ↔
      ∀ idx ∈ if (symbols name).isSome then indices else [], SameWord isaValues rtlValues idx := by
  rw [ifPresent]
  by_cases present : (symbols name).isSome
  · rw [if_pos present, if_pos present, same]
  · simp only [if_neg present, List.not_mem_nil, false_imp_iff, implies_true]

/-- The comparison of two signatures passes exactly when they have the same number
of words and the same word at every compared index. -/
theorem compareValues_isMatch_iff :
    (∃ result, compareValues symbols sigStart isaValues rtlValues = some result ∧
        result.isMatch = true) ↔
      isaValues.length = rtlValues.length ∧
        ∀ idx ∈ comparedIndices symbols sigStart isaValues.length,
          SameWord isaValues rtlValues idx := by
  by_cases same : isaValues.length = rtlValues.length
  · have rtlLength := same.symm
    have slots := @compareSlots_eq_nil_iff symbols sigStart _ _ _ rfl rtlLength
    have xreg := @ifPresent_eq_nil_iff symbols _ _ (xregSymbol 0) _ _ (slots xregSlots)
    have freg := @ifPresent_eq_nil_iff symbols _ _ (fregSymbol 0) _ _ (slots fregSlots)
    have csr := slots csrSlots
    have data := @compareDataSections_eq_nil_iff symbols sigStart _ _ _ rfl rtlLength
    rw [comparedIndices, List.forall_mem_append, List.forall_mem_append, List.forall_mem_append,
      ← xreg, ← freg, ← csr, ← data]
    rw [compareValues, if_neg (not_not.mpr same)]
    constructor
    · rintro ⟨result, compared, passed⟩
      obtain ⟨xregs, xregEq, compared⟩ := Option.bind_eq_some_iff.mp compared
      obtain ⟨fregs, fregEq, compared⟩ := Option.bind_eq_some_iff.mp compared
      obtain ⟨csrs, csrEq, compared⟩ := Option.bind_eq_some_iff.mp compared
      obtain ⟨datas, dataEq, compared⟩ := Option.bind_eq_some_iff.mp compared
      cases compared
      simp only [Bool.and_eq_true, decide_eq_true_eq, List.length_eq_zero_iff] at passed
      obtain ⟨⟨⟨rfl, rfl⟩, rfl⟩, rfl⟩ := passed
      exact ⟨same, ⟨⟨xregEq, fregEq⟩, csrEq⟩, dataEq⟩
    · rintro ⟨_, ⟨⟨xregEq, fregEq⟩, csrEq⟩, dataEq⟩
      rw [compareRegisters, xregEq, compareFpRegisters, fregEq, compareCsrs, csrEq, dataEq]
      exact ⟨_, rfl, rfl⟩
  · rw [compareValues, if_pos same]
    constructor
    · rintro ⟨result, compared, passed⟩
      cases compared
      cases passed
    · rintro ⟨length, _⟩
      exact absurd length same

end Values

/-- A call with both files passes exactly when both can be read, have the same
number of words and the same word at every compared index. -/
theorem compareSignatures_isMatch_iff {symbols : Symbols} {isa rtl : Text} :
    (∃ result, compareSignatures symbols (some isa) (some (some rtl)) = some result ∧
        result.isMatch = true) ↔
      ∃ start stop isaValues rtlValues, symbols "begin_signature" = some start ∧
        symbols "end_signature" = some stop ∧ readSignatureFile isa = some isaValues ∧
        readSignatureFile rtl = some rtlValues ∧ isaValues.length = rtlValues.length ∧
        ∀ idx ∈ comparedIndices symbols start isaValues.length,
          SameWord isaValues rtlValues idx := by
  constructor
  · rintro ⟨result, compared, passed⟩
    obtain ⟨start, hasStart, compared⟩ := Option.bind_eq_some_iff.mp compared
    obtain ⟨stop, hasStop, compared⟩ := Option.bind_eq_some_iff.mp compared
    rw [Option.bind_some] at compared
    cases isaRead : readSignatureFile isa with
    | none =>
        rw [isaRead] at compared
        cases compared
        cases passed
    | some isaValues =>
        rw [isaRead] at compared
        dsimp only at compared
        rw [Option.bind_some] at compared
        cases rtlRead : readSignatureFile rtl with
        | none =>
            rw [rtlRead] at compared
            cases compared
            cases passed
        | some rtlValues =>
            rw [rtlRead] at compared
            obtain ⟨length, same⟩ := compareValues_isMatch_iff.mp ⟨result, compared, passed⟩
            exact ⟨start, stop, isaValues, rtlValues, hasStart, hasStop, rfl, rfl, length, same⟩
  · rintro ⟨start, stop, isaValues, rtlValues, hasStart, hasStop, isaRead, rtlRead, length, same⟩
    obtain ⟨result, compared, passed⟩ := compareValues_isMatch_iff.mpr ⟨length, same⟩
    refine ⟨result, ?_, passed⟩
    rw [compareSignatures, hasStart, hasStop, Option.bind_some, isaRead]
    dsimp only [Option.bind_eq_bind, Option.bind_some]
    rw [rtlRead]
    exact compared

theorem lt_of_mem_slotIndices {symbols : Symbols} {sigStart n : Nat}
    {slots : List (String × String)} {idx : Int} (mem : idx ∈ slotIndices symbols sigStart n slots) :
    idx < n :=
  of_decide_eq_true (List.mem_filter.mp mem).2

theorem lt_of_mem_sectionIndices {symbols : Symbols} {sigStart n : Nat} {idx : Int}
    (mem : idx ∈ sectionIndices symbols sigStart n) : idx < n := by
  obtain ⟨i, _, mem⟩ := List.mem_flatMap.mp mem
  cases found : sectionRange symbols i with
  | none =>
      rw [found] at mem
      cases mem
  | some range =>
      rw [found] at mem
      dsimp only at mem
      by_cases past : sectionOffset sigStart range + sizeWords range > n
      · rw [if_pos past] at mem
        cases mem
      · rw [if_neg past] at mem
        obtain ⟨j, inSection, rfl⟩ := List.mem_map.mp mem
        have bound := List.mem_range.mp inSection
        omega

/-- No index past the end is compared. -/
theorem lt_of_mem_comparedIndices {symbols : Symbols} {sigStart n : Nat} {idx : Int}
    (mem : idx ∈ comparedIndices symbols sigStart n) : idx < n := by
  have guarded : ∀ {name : String} {slots : List (String × String)},
      idx ∈ (if (symbols name).isSome then slotIndices symbols sigStart n slots else []) →
        idx < n := by
    intro name slots mem
    split at mem
    · exact lt_of_mem_slotIndices mem
    · cases mem
  rcases List.mem_append.mp mem with mem | mem
  · rcases List.mem_append.mp mem with mem | mem
    · rcases List.mem_append.mp mem with mem | mem
      · exact guarded mem
      · exact guarded mem
    · exact lt_of_mem_slotIndices mem
  · exact lt_of_mem_sectionIndices mem

end Difftest.Signature
