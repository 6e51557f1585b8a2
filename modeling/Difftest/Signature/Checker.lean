import Difftest.Signature.File

/-!
# The verdict of the signature checker

`sigChecker.check` compares the two runs slot by slot.  Some CSRs are skipped,
the dirty bit of the status registers is masked by register width, and the trap
CSRs are exempt when the program left through an environment call.  The results
here say exactly which slots a passing verdict has compared, and which
differences it can hide.
-/

namespace Difftest.Signature

open Difftest.Text

/-- Register width of the program, when its ELF metadata gives one. -/
inductive IsaWidth where
  | rv32
  | rv64
  deriving DecidableEq, Repr

/-- The settings of a `sigChecker` that its verdict depends on. -/
structure CheckerConfig where
  isaWidth : Option IsaWidth
  wrappedElf : Bool

/-- CSRs that are never compared. -/
def skipCsrs : List String :=
  ["pmpcfg0", "pmpaddr0", "pmpaddr1", "pmpaddr2", "pmpaddr3", "pmpaddr4"]

/-- CSRs compared without their dirty bit. -/
def normalizeCsrs : List String := ["sstatus", "mstatus"]

/-- `_normalize_csr_value`.  Masking with `2 ^ k - 1` keeps the residue modulo
`2 ^ k`; without an explicit width the larger value decides. -/
def normalizeCsrValue (isaWidth : Option IsaWidth) (isaVal rtlVal : Int) : Int × Int :=
  let isRv64 : Bool :=
    match isaWidth with
    | some .rv64 => true
    | some .rv32 => false
    | none =>
        let maxVal := max isaVal rtlVal
        0xFFFFFFFF < maxVal || maxVal / 2 ^ 63 % 2 ≠ 0
  let modulus : Int := if isRv64 then 2 ^ 63 else 2 ^ 31
  (isaVal % modulus, rtlVal % modulus)

/-- The exception code: the low seven bits of `mcause`. -/
def excCode (mcause : Int) : Int := mcause % 128

/-- The interrupt flag: bit 31 when the upper half is zero, else bit 63. -/
def interrupt (mcause : Int) : Int :=
  if mcause / 2 ^ 32 = 0 then mcause / 2 ^ 31 % 2 else mcause / 2 ^ 63 % 2

/-- Environment call from user or machine mode, by exception code. -/
def isEcallCode (code : Int) : Bool := code = 8 || code = 11

/-- The comparison of one CSR; `true` when the slot is skipped or matches. -/
def csrMatch (config : CheckerConfig) (isaMcause rtlMcause : Int) (name : String)
    (isaVal rtlVal : Int) : Bool :=
  let sameExceptionType : Bool :=
    excCode isaMcause = excCode rtlMcause && interrupt isaMcause = interrupt rtlMcause
  let noInterrupt : Bool := interrupt isaMcause = 0 && interrupt rtlMcause = 0
  if name ∈ skipCsrs then true
  else if name ∈ normalizeCsrs then
    let normalized := normalizeCsrValue config.isaWidth isaVal rtlVal
    normalized.1 = normalized.2
  else if config.wrappedElf && name ∈ ["mcause", "mepc", "mtval"] then
    if isEcallCode (excCode isaMcause) && isEcallCode (excCode rtlMcause) && noInterrupt then true
    else isaVal = rtlVal
  else if name = "mcause" && !sameExceptionType then isaVal = rtlVal
  else if name ∈ ["mepc", "mtval"] && sameExceptionType then
    if isEcallCode (excCode isaMcause) && noInterrupt then true else isaVal = rtlVal
  else isaVal = rtlVal

/-- All pairs of a zip agree; the longer list is cut. -/
def zipMatch (isaVals rtlVals : List Int) : Bool :=
  (isaVals.zip rtlVals).all fun pair => pair.1 = pair.2

/-- The comparison of two read signatures; `none` is a `KeyError` on a CSR. -/
def checkValues (config : CheckerConfig) (isa rtl : SignatureValues) : Option Bool := do
  let isaMcause := isa.csrVals.getD "mcause" 0
  let rtlMcause := rtl.csrVals.getD "mcause" 0
  let csrMatches ← csrNames.mapM fun name => do
    let isaVal ← isa.csrVals.get? name
    let rtlVal ← rtl.csrVals.get? name
    some (csrMatch config isaMcause rtlMcause name isaVal rtlVal)
  let dataMatch := (List.range 6).all fun i => isa.dataVals[i]? = rtl.dataVals[i]?
  some (zipMatch isa.xregVals rtl.xregVals && zipMatch isa.fregVals rtl.fregVals &&
    csrMatches.all id && dataMatch)

/-- `sigChecker.check` on the contents of the two signature files. -/
def check (config : CheckerConfig) (symbols : Symbols) (isaFile rtlFile : Text) :
    Option Bool := do
  let indices ← readSymbols symbols
  let isa ← readSig isaFile indices
  let rtl ← readSig rtlFile indices
  checkValues config isa rtl

/-! ## What the reader returns -/

theorem readSections_length {lines : List Text} {dataIdx : Int} {ranges : List (Nat × Nat)}
    {data : List (List Int)} (read : readSections lines dataIdx ranges = some data) :
    data.length = ranges.length := by
  induction ranges generalizing dataIdx data with
  | nil =>
      cases read
      rfl
  | cons range ranges ih =>
      obtain ⟨first, -, read⟩ := Option.bind_eq_some_iff.mp read
      obtain ⟨others, rest, read⟩ := Option.bind_eq_some_iff.mp read
      cases read
      rw [List.length_cons, List.length_cons, ih rest]

/-- The shape of a read signature: one value for every slot, six sections. -/
structure SignatureValues.Complete (values : SignatureValues) : Prop where
  xreg : values.xregVals.length = 32
  freg : values.fregVals.length = 32
  csr : ∀ name ∈ csrNames, (values.csrVals.get? name).isSome
  data : values.dataVals.length = 6

/-- Every table the checker resolves and every file it reads are complete. -/
theorem readSig_complete {symbols : Symbols} {indices : SlotIndices}
    (resolved : readSymbols symbols = some indices) {file : Text} {values : SignatureValues}
    (read : readSig file indices = some values) : values.Complete := by
  obtain ⟨start, -, resolved⟩ := Option.bind_eq_some_iff.mp resolved
  obtain ⟨stop, -, resolved⟩ := Option.bind_eq_some_iff.mp resolved
  obtain ⟨xregIdxes, xregs, resolved⟩ := Option.bind_eq_some_iff.mp resolved
  obtain ⟨fregIdxes, fregs, resolved⟩ := Option.bind_eq_some_iff.mp resolved
  obtain ⟨csrIdxes, csrs, resolved⟩ := Option.bind_eq_some_iff.mp resolved
  obtain ⟨dataSymbols, sections, resolved⟩ := Option.bind_eq_some_iff.mp resolved
  cases resolved
  obtain ⟨xregVals, xregRead, read⟩ := Option.bind_eq_some_iff.mp read
  obtain ⟨fregVals, fregRead, read⟩ := Option.bind_eq_some_iff.mp read
  obtain ⟨csrVals, csrRead, read⟩ := Option.bind_eq_some_iff.mp read
  obtain ⟨dataVals, dataRead, read⟩ := Option.bind_eq_some_iff.mp read
  cases read
  constructor
  · rw [mapM_length xregRead, mapM_length xregs, List.length_range]
  · rw [mapM_length fregRead, mapM_length fregs, List.length_range]
  · intro name mem
    rw [Dict.get?_of_collect csrRead, if_pos mem]
    exact Dict.isSome_of_collect csrRead mem
  · rw [readSections_length dataRead, mapM_length sections, List.length_range]

/-! ## What a passing verdict has compared -/

/-- Bits of the status registers below the dirty bit. -/
def statusBits : IsaWidth → Nat
  | .rv32 => 31
  | .rv64 => 63

/-- The exemption of the trap CSRs: both causes carry an environment-call code in
their low seven bits and no interrupt flag.  A wrapped program exempts all three
registers, a direct one only `mepc` and `mtval`, and only for equal causes. -/
def EcallExempt (wrappedElf : Bool) (isaMcause rtlMcause : Int) (name : String) : Prop :=
  isEcallCode (excCode isaMcause) ∧ isEcallCode (excCode rtlMcause) ∧
    interrupt isaMcause = 0 ∧ interrupt rtlMcause = 0 ∧
    if wrappedElf then name ∈ ["mcause", "mepc", "mtval"]
    else name ∈ ["mepc", "mtval"] ∧ isaMcause = rtlMcause

theorem eq_of_zipMatch {isaVals rtlVals : List Int} (length : isaVals.length = rtlVals.length)
    (matched : zipMatch isaVals rtlVals) : isaVals = rtlVals := by
  induction isaVals generalizing rtlVals with
  | nil => exact (List.length_eq_zero_iff.mp length.symm).symm
  | cons isaVal isaVals ih =>
      cases rtlVals with
      | nil => simp at length
      | cons rtlVal rtlVals =>
          simp only [zipMatch, List.zip_cons_cons, List.all_cons, Bool.and_eq_true,
            decide_eq_true_eq] at matched
          rw [matched.1, ih (by simpa using length) matched.2]

/-- A matching status register agrees in all bits below its dirty bit. -/
theorem status_of_csrMatch {width : IsaWidth} {wrappedElf : Bool} {isaMcause rtlMcause : Int}
    {name : String} {isaVal rtlVal : Int} (status : name ∈ normalizeCsrs)
    (matched : csrMatch ⟨some width, wrappedElf⟩ isaMcause rtlMcause name isaVal rtlVal) :
    isaVal % 2 ^ statusBits width = rtlVal % 2 ^ statusBits width := by
  have disjoint : ∀ other ∈ normalizeCsrs, other ∉ skipCsrs := by decide
  have kept := disjoint name status
  rw [csrMatch, if_neg kept, if_pos status] at matched
  cases width <;> simpa [normalizeCsrValue, statusBits] using matched

/-- A direct program always has its `mcause` compared. -/
theorem mcause_of_csrMatch {isaWidth : Option IsaWidth} {isaMcause rtlMcause : Int}
    {isaVal rtlVal : Int}
    (matched : csrMatch ⟨isaWidth, false⟩ isaMcause rtlMcause "mcause" isaVal rtlVal) :
    isaVal = rtlVal := by
  rw [csrMatch, if_neg (by decide), if_neg (by decide), if_neg (by simp)] at matched
  split at matched
  · simpa using matched
  · rw [if_neg (by simp)] at matched
    simpa using matched

/-- Every other CSR is equal or exempt. -/
theorem eq_or_exempt_of_csrMatch {isaWidth : Option IsaWidth} {wrappedElf : Bool}
    {isaMcause rtlMcause : Int} {name : String} {isaVal rtlVal : Int}
    (causes : wrappedElf = false → isaMcause = rtlMcause)
    (kept : name ∉ skipCsrs) (exact_ : name ∉ normalizeCsrs)
    (matched : csrMatch ⟨isaWidth, wrappedElf⟩ isaMcause rtlMcause name isaVal rtlVal) :
    isaVal = rtlVal ∨ EcallExempt wrappedElf isaMcause rtlMcause name := by
  by_cases equal : isaVal = rtlVal
  · exact Or.inl equal
  · right
    rw [csrMatch, if_neg kept, if_neg exact_] at matched
    cases wrappedElf with
    | true =>
        by_cases trap : name ∈ ["mcause", "mepc", "mtval"]
        · simp only [trap, equal, Bool.true_and, decide_true, if_true, decide_false] at matched
          split at matched
          · rename_i ecall
            simp only [Bool.and_eq_true, decide_eq_true_eq] at ecall
            exact ⟨ecall.1.1, ecall.1.2, ecall.2.1, ecall.2.2, by simpa using trap⟩
          · simp at matched
        · have notMcause : name ≠ "mcause" := fun same => trap (by simp [same])
          have notOther : name ∉ ["mepc", "mtval"] := fun mem =>
            trap (List.mem_cons_of_mem _ mem)
          simp [trap, equal, notMcause, notOther] at matched
    | false =>
        have same := causes rfl
        subst same
        by_cases trap : name ∈ ["mepc", "mtval"]
        · have notMcause : name ≠ "mcause" := by
            rintro rfl
            revert trap
            decide
          simp only [trap, equal, notMcause, Bool.false_and, Bool.false_eq_true, if_false,
            decide_true, decide_false, Bool.and_self, if_true] at matched
          split at matched
          · rename_i ecall
            simp only [Bool.and_eq_true, decide_eq_true_eq] at ecall
            exact ⟨ecall.1, ecall.1, ecall.2, ecall.2, by simpa using trap⟩
          · simp at matched
        · simp [trap, equal] at matched

/-- What a passing verdict has established about the two read signatures. -/
structure PassGuarantee (width : IsaWidth) (wrappedElf : Bool)
    (isa rtl : SignatureValues) : Prop where
  /-- All integer register slots are equal. -/
  xreg : isa.xregVals.length = 32 ∧ isa.xregVals = rtl.xregVals
  /-- All floating-point register slots are equal. -/
  freg : isa.fregVals.length = 32 ∧ isa.fregVals = rtl.fregVals
  /-- The words of all records of all data sections are equal. -/
  data : isa.dataVals.length = 6 ∧ isa.dataVals = rtl.dataVals
  /-- The status registers agree below the dirty bit. -/
  status : ∀ name ∈ normalizeCsrs, ∃ isaVal rtlVal,
    isa.csrVals.get? name = some isaVal ∧ rtl.csrVals.get? name = some rtlVal ∧
      isaVal % 2 ^ statusBits width = rtlVal % 2 ^ statusBits width
  /-- Every other compared CSR is equal or exempt. -/
  csr : ∀ name ∈ csrNames, name ∉ skipCsrs → name ∉ normalizeCsrs → ∃ isaVal rtlVal,
    isa.csrVals.get? name = some isaVal ∧ rtl.csrVals.get? name = some rtlVal ∧
      (isaVal = rtlVal ∨ EcallExempt wrappedElf (isa.csrVals.getD "mcause" 0)
        (rtl.csrVals.getD "mcause" 0) name)
  /-- Direct programs with different causes never pass. -/
  mcause : wrappedElf = false → isa.csrVals.getD "mcause" 0 = rtl.csrVals.getD "mcause" 0

/-- A verdict on complete signatures compares the CSRs in the table's order. -/
theorem csrMatch_of_checkValues {config : CheckerConfig} {isa rtl : SignatureValues}
    (passed : checkValues config isa rtl = some true) {name : String} (mem : name ∈ csrNames) :
    ∃ isaVal rtlVal, isa.csrVals.get? name = some isaVal ∧
      rtl.csrVals.get? name = some rtlVal ∧
      csrMatch config (isa.csrVals.getD "mcause" 0) (rtl.csrVals.getD "mcause" 0)
        name isaVal rtlVal := by
  obtain ⟨csrMatches, traversed, verdict⟩ := Option.bind_eq_some_iff.mp passed
  have all : csrMatches.all id := by
    simp only [Option.some.injEq, Bool.and_eq_true] at verdict
    exact verdict.1.2
  obtain ⟨result, resultMem, computed⟩ := exists_of_mapM_eq_some traversed mem
  obtain ⟨isaVal, isaGet, computed⟩ := Option.bind_eq_some_iff.mp computed
  obtain ⟨rtlVal, rtlGet, computed⟩ := Option.bind_eq_some_iff.mp computed
  refine ⟨isaVal, rtlVal, isaGet, rtlGet, ?_⟩
  rw [Option.some.inj computed]
  exact List.all_eq_true.mp all result resultMem

theorem registers_of_checkValues {config : CheckerConfig} {isa rtl : SignatureValues}
    (isaComplete : isa.Complete) (rtlComplete : rtl.Complete)
    (passed : checkValues config isa rtl = some true) :
    isa.xregVals = rtl.xregVals ∧ isa.fregVals = rtl.fregVals ∧ isa.dataVals = rtl.dataVals := by
  obtain ⟨csrMatches, -, verdict⟩ := Option.bind_eq_some_iff.mp passed
  simp only [Option.some.injEq, Bool.and_eq_true] at verdict
  obtain ⟨⟨⟨xreg, freg⟩, -⟩, data⟩ := verdict
  refine ⟨eq_of_zipMatch (isaComplete.xreg.trans rtlComplete.xreg.symm) xreg,
    eq_of_zipMatch (isaComplete.freg.trans rtlComplete.freg.symm) freg, ?_⟩
  apply List.ext_getElem?
  intro i
  by_cases bound : i < 6
  · simpa using List.all_eq_true.mp data i (List.mem_range.mpr bound)
  · rw [List.getElem?_eq_none (by have := isaComplete.data; omega),
      List.getElem?_eq_none (by have := rtlComplete.data; omega)]

/-- A passing verdict hides no difference outside the skipped CSRs, the dirty
bit and the environment-call exemption. -/
theorem check_passGuarantee {width : IsaWidth} {wrappedElf : Bool} {symbols : Symbols}
    {isaFile rtlFile : Text}
    (passed : check ⟨some width, wrappedElf⟩ symbols isaFile rtlFile = some true) :
    ∃ indices isa rtl, readSymbols symbols = some indices ∧
      readSig isaFile indices = some isa ∧ readSig rtlFile indices = some rtl ∧
      PassGuarantee width wrappedElf isa rtl := by
  obtain ⟨indices, resolved, passed⟩ := Option.bind_eq_some_iff.mp passed
  obtain ⟨isa, isaRead, passed⟩ := Option.bind_eq_some_iff.mp passed
  obtain ⟨rtl, rtlRead, passed⟩ := Option.bind_eq_some_iff.mp passed
  have isaComplete := readSig_complete resolved isaRead
  have rtlComplete := readSig_complete resolved rtlRead
  obtain ⟨xreg, freg, data⟩ := registers_of_checkValues isaComplete rtlComplete passed
  have causes : wrappedElf = false →
      isa.csrVals.getD "mcause" 0 = rtl.csrVals.getD "mcause" 0 := by
    rintro rfl
    obtain ⟨isaVal, rtlVal, isaGet, rtlGet, matched⟩ :=
      csrMatch_of_checkValues passed (show "mcause" ∈ csrNames by decide)
    rw [Dict.getD, Dict.getD, isaGet, rtlGet]
    exact mcause_of_csrMatch matched
  refine ⟨indices, isa, rtl, resolved, isaRead, rtlRead, ?_⟩
  constructor
  · exact ⟨isaComplete.xreg, xreg⟩
  · exact ⟨isaComplete.freg, freg⟩
  · exact ⟨isaComplete.data, data⟩
  · intro name status
    have listed : ∀ other ∈ normalizeCsrs, other ∈ csrNames := by decide
    obtain ⟨isaVal, rtlVal, isaGet, rtlGet, matched⟩ :=
      csrMatch_of_checkValues passed (listed name status)
    exact ⟨isaVal, rtlVal, isaGet, rtlGet, status_of_csrMatch status matched⟩
  · intro name mem kept plain
    obtain ⟨isaVal, rtlVal, isaGet, rtlGet, matched⟩ := csrMatch_of_checkValues passed mem
    exact ⟨isaVal, rtlVal, isaGet, rtlGet, eq_or_exempt_of_csrMatch causes kept plain matched⟩
  · exact causes

/-! ### Differences a passing verdict hides -/

/-- A table in which only `mcause` and `sstatus` have slots of their own; the
signature has two records and the first data section ends at `dataEnd`. -/
def compactSymbols (dataEnd : Nat) : Symbols := fun name =>
  if name = "end_signature" then some 32
  else if name = "mcause_output" then some 8
  else if name = "sstatus_output" then some 16
  else if name = "_end_data0" then some dataEnd
  else some 0

/-- A signature file with the given records, the high word first. -/
def recordFile (records : List (Nat × Nat)) : Text :=
  (records.map fun words => line (numeral 16 16 words.1 ++ numeral 16 16 words.2)).flatten

theorem check_passGuarantee_ecall :
    ∃ indices isa rtl, readSymbols (compactSymbols 0) = some indices ∧
      readSig (recordFile [(8, 0), (0, 0)]) indices = some isa ∧
      readSig (recordFile [(11, 0), (0, 0)]) indices = some rtl ∧
      PassGuarantee .rv64 true isa rtl :=
  check_passGuarantee (show check ⟨some .rv64, true⟩ (compactSymbols 0)
    (recordFile [(8, 0), (0, 0)]) (recordFile [(11, 0), (0, 0)]) = some true by decide +kernel)

/-- Three differences behind a passing verdict: an environment call from user
mode against one from machine mode in a wrapped program, a word in the last half
record of a data section, and bits of a 32-bit status register above the dirty
bit. -/
theorem check_hides_differences :
    (check ⟨some .rv64, true⟩ (compactSymbols 0)
        (recordFile [(8, 0), (0, 0)]) (recordFile [(11, 0), (0, 0)]) = some true ∧
      readSlot (readlines (recordFile [(8, 0), (0, 0)])) 1 = some 8 ∧
      readSlot (readlines (recordFile [(11, 0), (0, 0)])) 1 = some 11) ∧
    (check ⟨some .rv64, false⟩ (compactSymbols 24)
        (recordFile [(0, 0), (0, 0), (0, 0), (0, 1)])
        (recordFile [(0, 0), (0, 0), (0, 0), (0, 2)]) = some true ∧
      readSlot (readlines (recordFile [(0, 0), (0, 0), (0, 0), (0, 1)])) 6 = some 1 ∧
      readSlot (readlines (recordFile [(0, 0), (0, 0), (0, 0), (0, 2)])) 6 = some 2) ∧
    (check ⟨some .rv32, false⟩ (compactSymbols 0)
        (recordFile [(0, 0), (0, 2 ^ 40)]) (recordFile [(0, 0), (0, 0)]) = some true ∧
      readSlot (readlines (recordFile [(0, 0), (0, 2 ^ 40)])) 2 = some (2 ^ 40) ∧
      readSlot (readlines (recordFile [(0, 0), (0, 0)])) 2 = some 0) := by
  decide +kernel

/-! ## Exchange of the two runs -/

section Exchange

variable (config : CheckerConfig)

/-- Without a width, both orders guess it from the same larger value. -/
theorem normalizeCsrValue_swap (isaWidth : Option IsaWidth) (isaVal rtlVal : Int) :
    normalizeCsrValue isaWidth rtlVal isaVal = (normalizeCsrValue isaWidth isaVal rtlVal).swap := by
  simp only [normalizeCsrValue, max_comm rtlVal isaVal, Prod.swap_prod_mk]

/-- The comparison of a CSR does not depend on the order of the runs: a flag of one run is tested
together with the same flag of the other one, or where the two are equal. -/
theorem csrMatch_comm (isaMcause rtlMcause : Int) (name : String) (isaVal rtlVal : Int) :
    csrMatch config rtlMcause isaMcause name rtlVal isaVal =
      csrMatch config isaMcause rtlMcause name isaVal rtlVal := by
  have equal : decide (rtlVal = isaVal) = decide (isaVal = rtlVal) := by simp only [eq_comm]
  have status : decide ((normalizeCsrValue config.isaWidth rtlVal isaVal).1 =
        (normalizeCsrValue config.isaWidth rtlVal isaVal).2) =
      decide ((normalizeCsrValue config.isaWidth isaVal rtlVal).1 =
        (normalizeCsrValue config.isaWidth isaVal rtlVal).2) := by
    rw [normalizeCsrValue_swap, Prod.fst_swap, Prod.snd_swap]
    simp only [eq_comm]
  have quiet : (decide (interrupt rtlMcause = 0) && decide (interrupt isaMcause = 0)) =
      (decide (interrupt isaMcause = 0) && decide (interrupt rtlMcause = 0)) := Bool.and_comm _ _
  have ecalls : (isEcallCode (excCode rtlMcause) && isEcallCode (excCode isaMcause)) =
      (isEcallCode (excCode isaMcause) && isEcallCode (excCode rtlMcause)) := Bool.and_comm _ _
  have types : (decide (excCode rtlMcause = excCode isaMcause) &&
        decide (interrupt rtlMcause = interrupt isaMcause)) =
      (decide (excCode isaMcause = excCode rtlMcause) &&
        decide (interrupt isaMcause = interrupt rtlMcause)) := by simp only [eq_comm]
  simp only [csrMatch, equal, status, quiet, ecalls, types]
  -- What is left is the code that a direct comparison of equal causes tests.
  by_cases same : excCode isaMcause = excCode rtlMcause
  · rw [same]
  · have differ : decide (excCode isaMcause = excCode rtlMcause) = false := by simpa using same
    simp only [differ, Bool.false_and, Bool.and_false, Bool.false_eq_true, if_false]

theorem csrMatch_self (mcause : Int) (name : String) (val : Int) :
    csrMatch config mcause mcause name val val = true := by
  rw [csrMatch]
  split
  · rfl
  · split
    · simp [normalizeCsrValue]
    · split
      · split <;> simp
      · split
        · simp
        · split
          · split <;> simp
          · simp

theorem zipMatch_comm (isaVals rtlVals : List Int) :
    zipMatch rtlVals isaVals = zipMatch isaVals rtlVals := by
  induction isaVals generalizing rtlVals with
  | nil => cases rtlVals <;> rfl
  | cons isaVal isaVals inductionHypothesis =>
      cases rtlVals with
      | nil => rfl
      | cons rtlVal rtlVals =>
          have rest := inductionHypothesis rtlVals
          rw [zipMatch, zipMatch] at rest
          rw [zipMatch, zipMatch, List.zip_cons_cons, List.zip_cons_cons, List.all_cons,
            List.all_cons, rest]
          simp only [eq_comm]

theorem zipMatch_self (vals : List Int) : zipMatch vals vals = true := by
  induction vals with
  | nil => rfl
  | cons val vals inductionHypothesis =>
      rw [zipMatch] at inductionHypothesis
      rw [zipMatch, List.zip_cons_cons, List.all_cons, inductionHypothesis]
      simp

/-- The comparisons of the CSRs in the order of the table. -/
theorem csrMatches_comm (isa rtl : Dict String Int) (isaMcause rtlMcause : Int) :
    (csrNames.mapM fun name => do
      let rtlVal ← rtl.get? name
      let isaVal ← isa.get? name
      some (csrMatch config rtlMcause isaMcause name rtlVal isaVal)) =
    (csrNames.mapM fun name => do
      let isaVal ← isa.get? name
      let rtlVal ← rtl.get? name
      some (csrMatch config isaMcause rtlMcause name isaVal rtlVal)) := by
  congr 1
  funext name
  cases isa.get? name with
  | none => cases rtl.get? name <;> rfl
  | some isaVal =>
      cases rtl.get? name with
      | none => rfl
      | some rtlVal => exact congrArg some (csrMatch_comm config isaMcause rtlMcause name _ _)

theorem checkValues_comm (isa rtl : SignatureValues) :
    checkValues config rtl isa = checkValues config isa rtl := by
  have sections : (List.range 6).all (fun i => decide (rtl.dataVals[i]? = isa.dataVals[i]?)) =
      (List.range 6).all fun i => decide (isa.dataVals[i]? = rtl.dataVals[i]?) := by
    simp only [eq_comm]
  rw [checkValues, checkValues, zipMatch_comm isa.xregVals, zipMatch_comm isa.fregVals]
  dsimp only
  rw [sections, csrMatches_comm]

/-- A read signature agrees with itself. -/
theorem checkValues_self {values : SignatureValues} (complete : values.Complete) :
    checkValues config values values = some true := by
  have held : ∀ name ∈ csrNames, (do
      let isaVal ← values.csrVals.get? name
      let rtlVal ← values.csrVals.get? name
      some (csrMatch config (values.csrVals.getD "mcause" 0) (values.csrVals.getD "mcause" 0) name
        isaVal rtlVal)) = some true := by
    intro name mem
    rcases Option.isSome_iff_exists.mp (complete.csr name mem) with ⟨val, isVal⟩
    rw [isVal]
    exact congrArg some (csrMatch_self config _ name val)
  have matches' := mapM_eq_some_map held
  rw [checkValues, zipMatch_self, zipMatch_self]
  dsimp only
  rw [matches']
  simp

/-- The verdict is the same when the two files change places, and no signature that can be read
differs from itself. -/
theorem check_symmetric_reflexive (symbols : Symbols) :
    (∀ isaFile rtlFile, check config symbols rtlFile isaFile =
      check config symbols isaFile rtlFile) ∧
    ∀ file, (∃ indices values, readSymbols symbols = some indices ∧
      readSig file indices = some values) → check config symbols file file = some true := by
  constructor
  · intro isaFile rtlFile
    rw [check, check]
    cases readSymbols symbols with
    | none => rfl
    | some indices =>
        simp only [Option.bind_eq_bind, Option.bind_some]
        cases readSig isaFile indices with
        | none => cases readSig rtlFile indices <;> rfl
        | some isa =>
            cases readSig rtlFile indices with
            | none => rfl
            | some rtl => exact checkValues_comm config isa rtl
  · rintro file ⟨indices, values, isIndices, isValues⟩
    rw [check, isIndices, Option.bind_eq_bind, Option.bind_some, isValues]
    exact checkValues_self config (readSig_complete isIndices isValues)

end Exchange

/-- Two files with different causes, in either order. -/
theorem check_symmetric_reflexive_ecall :
    check ⟨none, true⟩ (compactSymbols 0) (recordFile [(11, 0), (0, 0)])
        (recordFile [(8, 0), (0, 0)]) =
      check ⟨none, true⟩ (compactSymbols 0) (recordFile [(8, 0), (0, 0)])
        (recordFile [(11, 0), (0, 0)]) ∧
    check ⟨none, true⟩ (compactSymbols 0) (recordFile [(8, 0), (0, 0)])
      (recordFile [(8, 0), (0, 0)]) = some true := by
  have both := check_symmetric_reflexive ⟨none, true⟩ (compactSymbols 0)
  have readable : ((readSymbols (compactSymbols 0)).bind fun indices =>
      readSig (recordFile [(8, 0), (0, 0)]) indices).isSome = true := by decide +kernel
  rcases Option.isSome_iff_exists.mp readable with ⟨values, isValues⟩
  rcases Option.bind_eq_some_iff.mp isValues with ⟨indices, isIndices, isValues⟩
  exact ⟨both.1 _ _, both.2 _ ⟨indices, values, isIndices, isValues⟩⟩

end Difftest.Signature
