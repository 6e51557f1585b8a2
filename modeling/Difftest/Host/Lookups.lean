import Difftest.Host.StartImage
import Difftest.Signature.RoundTrip

/-!
# Lookups of accepted programs

The setup of the host, the dump of the signature and the checker look up symbols, lines, data
words and memory words.  Which of them are there depends on the addresses of the symbols only,
and on the range of the image.
-/

namespace Difftest.Host

open Difftest.Text Difftest.Signature

theorem mapM_isSome_iff {α β : Type} {f : α → Option β} {list : List α} :
    (list.mapM f).isSome = true ↔ ∀ a ∈ list, (f a).isSome = true := by
  constructor
  · intro traversed a mem
    rcases Option.isSome_iff_exists.mp traversed with ⟨values, isValues⟩
    rcases exists_of_mapM_eq_some isValues mem with ⟨b, _, isValue⟩
    exact Option.isSome_of_eq_some isValue
  · intro defined
    have values := exists_mapM_eq_some fun a mem => Option.isSome_iff_exists.mp (defined a mem)
    exact Option.isSome_iff_exists.mpr values

theorem collect_isSome_iff {κ ν : Type} [DecidableEq κ] {compute : κ → Option ν} {list : List κ}
    {dict : Dict κ ν} :
    (Dict.collect compute list dict).isSome = true ↔ ∀ key ∈ list, (compute key).isSome = true := by
  constructor
  · intro collected key mem
    rcases Option.isSome_iff_exists.mp collected with ⟨result, isResult⟩
    exact Dict.isSome_of_collect isResult mem
  · exact fun defined => Dict.collect_isSome defined dict

theorem bind_isSome_iff {α β : Type} {first : Option α} {next : α → Option β} :
    (first >>= next).isSome = true ↔ ∃ a, first = some a ∧ (next a).isSome = true := by
  cases first <;> simp

/-! ## The dumped signature -/

section Dump

variable {memory : Dict Nat Nat}

/-- The line of a record. -/
def recordOf (memory : Dict Nat Nat) (addr : Nat) : Text :=
  line (numeral 16 16 (memory.getD (addr + 8) 0) ++ numeral 16 16 (memory.getD addr 0))

/-- The first addresses of the records of some ranges. -/
def recordStarts (ranges : List (Nat × Nat)) : List Nat :=
  ranges.flatMap fun range => stepRange range.1 range.2 16

theorem dumpRecord_isSome_iff {addr : Nat} : (dumpRecord memory addr).isSome = true ↔
    addr ∈ memory.keys ∧ addr + 8 ∈ memory.keys := by
  rw [dumpRecord, Dict.mem_keys_iff, Dict.mem_keys_iff]
  cases memory.get? addr <;> cases memory.get? (addr + 8) <;> simp

theorem dumpRecord_eq {addr : Nat} {text : Text} (dumped : dumpRecord memory addr = some text) :
    dumpRecord memory addr = some (recordOf memory addr) := by
  rw [dumpRecord] at dumped ⊢
  rcases Option.bind_eq_some_iff.mp dumped with ⟨high, isHigh, rest⟩
  rcases Option.bind_eq_some_iff.mp rest with ⟨low, isLow, _⟩
  rw [isHigh, isLow, recordOf, Dict.getD, Dict.getD, isHigh, isLow]
  rfl

theorem dumpRange_isSome_iff {start stop : Nat} : (dumpRange memory start stop).isSome = true ↔
    ∀ addr ∈ stepRange start stop 16, addr ∈ memory.keys ∧ addr + 8 ∈ memory.keys := by
  rw [dumpRange, bind_isSome_iff]
  constructor
  · rintro ⟨records, isRecords, _⟩ addr mem
    have defined := mapM_isSome_iff.mp (Option.isSome_of_eq_some isRecords)
    exact dumpRecord_isSome_iff.mp (defined addr mem)
  · intro held
    have defined := (@mapM_isSome_iff _ _ (dumpRecord memory) (stepRange start stop 16)).mpr
      fun addr mem => dumpRecord_isSome_iff.mpr (held addr mem)
    rcases Option.isSome_iff_exists.mp defined with ⟨records, isRecords⟩
    exact ⟨records, isRecords, rfl⟩

theorem dumpRange_eq_of_some {start stop : Nat} {text : Text}
    (dumped : dumpRange memory start stop = some text) :
    text = ((stepRange start stop 16).map (recordOf memory)).flatten := by
  rcases Option.bind_eq_some_iff.mp dumped with ⟨records, isRecords, isText⟩
  have each : ∀ addr ∈ stepRange start stop 16,
      dumpRecord memory addr = some (recordOf memory addr) := by
    intro addr mem
    rcases exists_of_mapM_eq_some isRecords mem with ⟨record, _, isRecord⟩
    exact dumpRecord_eq isRecord
  rw [mapM_eq_some_map each] at isRecords
  cases isRecords
  exact (Option.some.inj isText).symm

theorem saveSignature_isSome_iff {sigStart sigEnd : Nat} {ranges : List (Nat × Nat)} :
    (saveSignature memory sigStart sigEnd ranges).isSome = true ↔
      ∀ addr ∈ recordStarts ((sigStart, sigEnd) :: ranges),
        addr ∈ memory.keys ∧ addr + 8 ∈ memory.keys := by
  have parts : (saveSignature memory sigStart sigEnd ranges).isSome = true ↔
      (dumpRange memory sigStart sigEnd).isSome = true ∧
        ∀ range ∈ ranges, (dumpRange memory range.1 range.2).isSome = true := by
    rw [saveSignature, bind_isSome_iff, Option.isSome_iff_exists, ← mapM_isSome_iff]
    constructor
    · rintro ⟨signature, isSignature, rest⟩
      rcases bind_isSome_iff.mp rest with ⟨data, isData, _⟩
      exact ⟨⟨signature, isSignature⟩, Option.isSome_of_eq_some isData⟩
    · rintro ⟨⟨signature, isSignature⟩, isData⟩
      rcases Option.isSome_iff_exists.mp isData with ⟨data, isData⟩
      exact ⟨signature, isSignature, bind_isSome_iff.mpr ⟨data, isData, rfl⟩⟩
  rw [parts, recordStarts, List.flatMap_cons, List.forall_mem_append, dumpRange_isSome_iff]
  simp only [dumpRange_isSome_iff, List.mem_flatMap]
  constructor
  · rintro ⟨signature, data⟩
    refine ⟨signature, ?_⟩
    rintro addr ⟨range, isRange, mem⟩
    exact data range isRange addr mem
  · rintro ⟨signature, data⟩
    exact ⟨signature, fun range isRange addr mem => data addr ⟨range, isRange, mem⟩⟩

/-- The lines of the dumped signature. -/
theorem readlines_saveSignature {sigStart sigEnd : Nat} {ranges : List (Nat × Nat)} {file : Text}
    (saved : saveSignature memory sigStart sigEnd ranges = some file) :
    readlines file = (recordStarts ((sigStart, sigEnd) :: ranges)).map (recordOf memory) := by
  rcases Option.bind_eq_some_iff.mp saved with ⟨signature, isSignature, rest⟩
  rcases Option.bind_eq_some_iff.mp rest with ⟨data, isData, isFile⟩
  have eachData : ∀ range ∈ ranges, dumpRange memory range.1 range.2 =
      some (((stepRange range.1 range.2 16).map (recordOf memory)).flatten) := by
    intro range mem
    rcases exists_of_mapM_eq_some isData mem with ⟨text, _, isText⟩
    rw [isText, dumpRange_eq_of_some isText]
  rw [mapM_eq_some_map eachData] at isData
  cases isData
  cases dumpRange_eq_of_some isSignature
  have text : file = ((recordStarts ((sigStart, sigEnd) :: ranges)).map
      (recordOf memory)).flatten := by
    rw [← Option.some.inj isFile, recordStarts, List.flatMap_cons, List.map_append,
      List.flatten_append, List.map_flatMap, List.flatMap_def, List.flatten_flatten, List.map_map]
    rfl
  have lines : (recordStarts ((sigStart, sigEnd) :: ranges)).map (recordOf memory) =
      ((recordStarts ((sigStart, sigEnd) :: ranges)).map fun addr =>
        numeral 16 16 (memory.getD (addr + 8) 0) ++ numeral 16 16 (memory.getD addr 0)).map
          line := by
    rw [List.map_map]
    rfl
  rw [text, lines, readlines_flatten_lines]
  intro body mem
  rcases List.mem_map.mp mem with ⟨addr, _, rfl⟩
  rw [List.mem_append, not_or]
  exact ⟨newline_notMem_numeral (by decide) (by decide) 16 _,
    newline_notMem_numeral (by decide) (by decide) 16 _⟩

end Dump

/-! ## The lines that are read -/

section Read

variable {memory : Dict Nat Nat} {addrs : List Nat}

theorem le_length_numeral (width n : Nat) : width ≤ (numeral 16 width n).length := by
  rw [numeral, List.length_leftpad]
  exact le_max_left _ _

/-- Both columns of a record are numbers. -/
theorem parse_slice_isSome (addr : Nat) {start : Nat} (inside : start + 16 ≤ 32) :
    (parseInt 16 (slice start (start + 16) (recordOf memory addr))).isSome = true := by
  have digits : ∀ c ∈ slice start (start + 16) (recordOf memory addr),
      (digitValue 16 c).isSome = true := by
    intro c mem
    have low := le_length_numeral 16 (memory.getD addr 0)
    have high := le_length_numeral 16 (memory.getD (addr + 8) 0)
    have cut : slice start (start + 16) (recordOf memory addr) =
        ((numeral 16 16 (memory.getD (addr + 8) 0) ++ numeral 16 16 (memory.getD addr 0)).drop
          start).take 16 := by
      rw [slice, recordOf, line, List.drop_append_of_le_length (by rw [List.length_append]; omega),
        List.take_append_of_le_length (by rw [List.length_drop, List.length_append]; omega),
        Nat.add_sub_cancel_left]
    rw [cut] at mem
    rcases List.mem_append.mp (List.mem_of_mem_drop (List.mem_of_mem_take mem)) with mem | mem
    · exact digit_of_mem_numeral (by decide) (by decide) 16 _ c mem
    · exact digit_of_mem_numeral (by decide) (by decide) 16 _ c mem
  have nonempty : slice start (start + 16) (recordOf memory addr) ≠ [] := by
    have low := le_length_numeral 16 (memory.getD addr 0)
    have high := le_length_numeral 16 (memory.getD (addr + 8) 0)
    apply List.ne_nil_of_length_pos
    simp only [slice, recordOf, line, List.length_take, List.length_drop, List.length_append,
      List.length_singleton]
    omega
  have readable : ∀ (text : Text) acc, (∀ c ∈ text, (digitValue 16 c).isSome = true) →
      (readDigits 16 acc text).isSome = true := by
    intro text
    induction text with
    | nil => exact fun _ _ => rfl
    | cons c rest inductionHypothesis =>
        intro acc all
        have first := all c List.mem_cons_self
        have notUnderscore : c ≠ '_' := by
          rintro rfl
          simp [digitValue_underscore] at first
        rcases Option.isSome_iff_exists.mp first with ⟨d, isDigit⟩
        rw [readDigits_cons 16 acc rest notUnderscore, isDigit, Option.bind_some]
        exact inductionHypothesis _ fun c mem => all c (List.mem_cons_of_mem _ mem)
  have parsed := @parseInt_of_digits 16 _ [] nonempty digits (by simp)
  rw [List.append_nil] at parsed
  rw [parsed, Option.isSome_map]
  exact readable _ 0 digits

theorem readSlot_isSome_iff {idx : Int} :
    (readSlot (addrs.map (recordOf memory)) idx).isSome = true ↔
      -(addrs.length : Int) ≤ idx / 2 ∧ idx / 2 < addrs.length := by
  have bounds := @index?_isSome_iff _ (addrs.map (recordOf memory)) (idx / 2)
  rw [List.length_map] at bounds
  rw [readSlot, bind_isSome_iff, ← bounds]
  constructor
  · rintro ⟨record, isRecord, _⟩
    exact ⟨record, isRecord⟩
  · rintro ⟨record, isRecord⟩
    refine ⟨record, isRecord, ?_⟩
    rcases List.mem_map.mp (mem_of_index? isRecord) with ⟨addr, _, rfl⟩
    rcases Int.emod_two_eq_zero_or_one idx with even | odd
    · rw [even]
      exact parse_slice_isSome addr (by decide)
    · rw [odd]
      exact parse_slice_isSome addr (by decide)

theorem readRecord_isSome_iff {idx : Int} :
    (readRecord (addrs.map (recordOf memory)) idx).isSome = true ↔
      -(addrs.length : Int) ≤ idx ∧ idx < addrs.length := by
  have bounds := @index?_isSome_iff _ (addrs.map (recordOf memory)) idx
  rw [List.length_map] at bounds
  rw [readRecord, bind_isSome_iff, ← bounds]
  constructor
  · rintro ⟨record, isRecord, _⟩
    exact ⟨record, isRecord⟩
  · rintro ⟨record, isRecord⟩
    rcases List.mem_map.mp (mem_of_index? isRecord) with ⟨addr, _, rfl⟩
    have low := @parse_slice_isSome memory addr 16 (by decide)
    have high := @parse_slice_isSome memory addr 0 (by decide)
    rcases Option.isSome_iff_exists.mp low with ⟨lowWord, isLow⟩
    rcases Option.isSome_iff_exists.mp high with ⟨highWord, isHigh⟩
    exact ⟨_, isRecord, bind_isSome_iff.mpr ⟨lowWord, isLow,
      bind_isSome_iff.mpr ⟨highWord, isHigh, rfl⟩⟩⟩

/-- The lines that are read for the data sections. -/
def sectionLines : Int → List (Nat × Nat) → List Int
  | _, [] => []
  | dataIdx, range :: rest =>
      ((List.range (sectionRecords range).toNat).map fun j : Nat => dataIdx + j) ++
        sectionLines (dataIdx + sectionRecords range) rest

theorem readSections_isSome_iff {dataIdx : Int} {ranges : List (Nat × Nat)} :
    (readSections (addrs.map (recordOf memory)) dataIdx ranges).isSome = true ↔
      ∀ idx ∈ sectionLines dataIdx ranges,
        -(addrs.length : Int) ≤ idx ∧ idx < addrs.length := by
  induction ranges generalizing dataIdx with
  | nil => simp [readSections, sectionLines]
  | cons range ranges inductionHypothesis =>
      have section_iff :
          (readSection (addrs.map (recordOf memory)) dataIdx range).isSome = true ↔
          ∀ idx ∈ (List.range (sectionRecords range).toNat).map fun j : Nat => dataIdx + j,
            -(addrs.length : Int) ≤ idx ∧ idx < addrs.length := by
        rw [readSection, bind_isSome_iff, List.forall_mem_map]
        simp only [← @readRecord_isSome_iff memory addrs, ← mapM_isSome_iff]
        rw [Option.isSome_iff_exists]
        exact exists_congr fun _ => and_iff_left rfl
      rw [readSections, bind_isSome_iff, sectionLines, List.forall_mem_append, ← section_iff,
        ← inductionHypothesis, Option.isSome_iff_exists, Option.isSome_iff_exists]
      constructor
      · rintro ⟨data, isData, rest⟩
        rcases bind_isSome_iff.mp rest with ⟨others, isOthers, _⟩
        exact ⟨⟨data, isData⟩, others, isOthers⟩
      · rintro ⟨⟨data, isData⟩, others, isOthers⟩
        exact ⟨data, isData, bind_isSome_iff.mpr ⟨others, isOthers, rfl⟩⟩

/-- The lines that are read for register slots. -/
def slotLines (placement : Placement) : List Int :=
  ((List.range 32).map placement.xreg ++ (List.range 32).map placement.freg ++
    csrNames.map placement.csr).map fun addr : Nat =>
      ((addr : Int) - placement.sigStart) / 8 / 2

/-- All lines that the checker reads. -/
def checkedLines (placement : Placement) : List Int :=
  slotLines placement ++
    sectionLines (((placement.sigEnd : Int) - placement.sigStart) / (2 * 8)) placement.dataAddrs

/-- The parts of reading a signature. -/
theorem readSig_parts {file : Text} {indices : SlotIndices} :
    (readSig file indices).isSome = true ↔
      (∀ idx ∈ indices.xregIdxes, (readSlot (readlines file) idx).isSome = true) ∧
      (∀ idx ∈ indices.fregIdxes, (readSlot (readlines file) idx).isSome = true) ∧
      (∀ name ∈ csrNames,
        ((indices.csrIdxes.get? name).bind (readSlot (readlines file))).isSome = true) ∧
      (readSections (readlines file) indices.dataIdxStart indices.dataSymbols).isSome = true := by
  rw [← mapM_isSome_iff, ← mapM_isSome_iff, ← @collect_isSome_iff _ _ _ _ _ Dict.empty, readSig]
  constructor
  · intro isRead
    rcases bind_isSome_iff.mp isRead with ⟨xregVals, isXregs, rest⟩
    rcases bind_isSome_iff.mp rest with ⟨fregVals, isFregs, rest⟩
    rcases bind_isSome_iff.mp rest with ⟨csrVals, isCsrs, rest⟩
    rcases bind_isSome_iff.mp rest with ⟨dataVals, isData, _⟩
    exact ⟨Option.isSome_of_eq_some isXregs, Option.isSome_of_eq_some isFregs,
      Option.isSome_of_eq_some isCsrs, Option.isSome_of_eq_some isData⟩
  · rintro ⟨isXregs, isFregs, isCsrs, isData⟩
    rcases Option.isSome_iff_exists.mp isXregs with ⟨xregVals, isXregs⟩
    rcases Option.isSome_iff_exists.mp isFregs with ⟨fregVals, isFregs⟩
    rcases Option.isSome_iff_exists.mp isCsrs with ⟨csrVals, isCsrs⟩
    rcases Option.isSome_iff_exists.mp isData with ⟨dataVals, isData⟩
    simp only [isXregs, isFregs, isCsrs, isData]
    rfl

/-- The checker reads a dumped signature exactly when the lines that it needs exist. -/
theorem readSig_isSome_iff {symbols : Symbols} {placement : Placement}
    (resolves : placement.Resolves symbols) {file : Text}
    (lines : readlines file = addrs.map (recordOf memory)) :
    (∃ indices, readSymbols symbols = some indices ∧ (readSig file indices).isSome = true) ↔
      ∀ idx ∈ checkedLines placement, -(addrs.length : Int) ≤ idx ∧ idx < addrs.length := by
  rcases readSymbols_eq resolves with ⟨csrIdxes, isIndices, csrs⟩
  have slots : ∀ {α : Type} (names : List α) (addr : α → Nat),
      (∀ idx ∈ names.map fun name => ((addr name : Int) - placement.sigStart) / 8,
        (readSlot (readlines file) idx).isSome = true) ↔
      ∀ idx ∈ (names.map addr).map fun addr : Nat =>
          ((addr : Int) - placement.sigStart) / 8 / 2,
        -(addrs.length : Int) ≤ idx ∧ idx < addrs.length := by
    intro α names addr
    rw [lines, List.forall_mem_map, List.forall_mem_map, List.forall_mem_map]
    simp only [readSlot_isSome_iff]
  have csrSlots : (∀ name ∈ csrNames,
      ((csrIdxes.get? name).bind (readSlot (readlines file))).isSome = true) ↔
      ∀ idx ∈ csrNames.map fun name => ((placement.csr name : Int) - placement.sigStart) / 8,
        (readSlot (readlines file) idx).isSome = true := by
    rw [List.forall_mem_map]
    apply forall₂_congr
    intro name mem
    rw [csrs name mem, Option.bind_some]
  have parts : ∀ indices, readSymbols symbols = some indices →
      ((readSig file indices).isSome = true ↔ ∀ idx ∈ checkedLines placement,
        -(addrs.length : Int) ≤ idx ∧ idx < addrs.length) := by
    intro indices isSame
    cases isIndices.symm.trans isSame
    rw [readSig_parts, csrSlots, slots, slots, slots, lines, readSections_isSome_iff, checkedLines,
      slotLines, List.map_append, List.map_append, List.forall_mem_append, List.forall_mem_append,
      List.forall_mem_append, and_assoc, and_assoc]
  constructor
  · rintro ⟨indices, isSame, isRead⟩
    exact (parts indices isSame).mp isRead
  · intro bounds
    exact ⟨_, isIndices, (parts _ isIndices).mpr bounds⟩

end Read

/-! ## Accepted programs -/

section Accepted

variable {symbols : Symbols} {image : Dict Nat Nat} {addresses : Addresses}

/-- The addresses that the symbols give to the signature. -/
def placementOf (symbols : Symbols) : Placement where
  sigStart := (symbols "begin_signature").getD 0
  sigEnd := (symbols "end_signature").getD 0
  xreg i := (symbols (xregSymbol i)).getD 0
  freg i := (symbols (fregSymbol i)).getD 0
  csr name := (symbols (csrSymbol name)).getD 0
  dataStart i := (symbols (dataStartSymbol i)).getD 0
  dataEnd i := (symbols (dataEndSymbol i)).getD 0

theorem placementOf_resolves (accepted : hasSignatureSymbols symbols = true) :
    (placementOf symbols).Resolves symbols := by
  have present : ∀ name ∈ requiredSymbols, symbols name = some ((symbols name).getD 0) := by
    intro name mem
    rcases Option.isSome_iff_exists.mp (List.all_eq_true.mp accepted name mem) with ⟨addr, isAddr⟩
    rw [isAddr, Option.getD_some]
  have xregs : ∀ i < 32, xregSymbol i ∈ requiredSymbols := by decide
  have fregs : ∀ i < 32, fregSymbol i ∈ requiredSymbols := by decide +kernel
  have csrs : ∀ name ∈ csrNames, csrSymbol name ∈ requiredSymbols := by decide
  have starts : ∀ n < 6, dataStartSymbol n ∈ requiredSymbols := by decide
  have ends : ∀ n < 6, dataEndSymbol n ∈ requiredSymbols := by decide
  constructor
  case sigStart => exact present _ (by decide)
  case sigEnd => exact present _ (by decide)
  case xreg => exact fun i below => present _ (xregs i below)
  case freg => exact fun i below => present _ (fregs i below)
  case csr => exact fun name mem => present _ (csrs name mem)
  case dataStart => exact fun i below => present _ (starts i below)
  case dataEnd => exact fun i below => present _ (ends i below)

/-- The ranges that the host returns are the ones that the checker reads. -/
theorem dataAddrs_eq (resolves : addresses.Resolves symbols) {placement : Placement}
    (places : placement.Resolves symbols) :
    placement.dataAddrs = (List.range 6).map addresses.sections := by
  apply List.map_congr_left
  intro n mem
  have below := List.mem_range.mp mem
  have isRange := resolves.sections n below
  rw [sectionRange, places.dataStart n below, places.dataEnd n below] at isRange
  exact Option.some.inj isRange

/-- The ranges of the signature file. -/
def dumpedRanges (addresses : Addresses) : List (Nat × Nat) :=
  (addresses.sigStart, addresses.sigEnd) :: (List.range 6).map addresses.sections

/-- The addresses that the memory holds after the setup. -/
def heldAddrs (addresses : Addresses) : List Nat :=
  setBootrom.keys ++ stepRange addresses.start (addresses.stop + 36) 8 ++
    addresses.tohost :: stepRange (addresses.sigStart / 8 * 8) addresses.sigEnd 8 ++
    (stores addresses.sections 6).map Prod.fst

theorem mem_keys_setup {addr : Nat} :
    addr ∈ (setBootrom.setAll (setupEntries symbols image addresses)).keys ↔
      addr ∈ heldAddrs addresses := by
  have hexKeys : (hexEntries image addresses.start (addresses.stop + 36)).map Prod.fst =
      stepRange addresses.start (addresses.stop + 36) 8 := by
    rw [hexEntries, List.map_map]
    exact List.map_id _
  have clearedKeys : (clearedEntries addresses).map Prod.fst =
      addresses.tohost :: stepRange (addresses.sigStart / 8 * 8) addresses.sigEnd 8 := by
    rw [clearedEntries, List.map_cons, List.map_map]
    exact congrArg _ (List.map_id _)
  have storedKeys : (storedWords (extractDataWords symbols (some image) []).1
      (stores addresses.sections 6)).map Prod.fst = (stores addresses.sections 6).map Prod.fst := by
    rw [storedWords, List.map_map]
    rfl
  rw [Dict.mem_keys_setAll, setupEntries, List.map_append, List.map_append, hexKeys, clearedKeys,
    storedKeys, heldAddrs]
  simp only [List.mem_append]
  tauto

/-- Both words of every record of the signature file are there after the setup. -/
def RecordsHeld (addresses : Addresses) : Prop :=
  ∀ addr ∈ recordStarts (dumpedRanges addresses),
    addr ∈ heldAddrs addresses ∧ addr + 8 ∈ heldAddrs addresses

/-- All lines that the checker reads exist, counted from the end when they are negative. -/
def LinesExist (addresses : Addresses) (placement : Placement) : Prop :=
  ∀ idx ∈ checkedLines placement,
    -((recordStarts (dumpedRanges addresses)).length : Int) ≤ idx ∧
      idx < (recordStarts (dumpedRanges addresses)).length

/-- The signature of a memory is dumped, and the checker reads the file. -/
def SignatureRead (symbols : Symbols) (memory : Dict Nat Nat) (ranges : List (Nat × Nat)) : Prop :=
  ∃ sigStart sigEnd file indices, symbols "begin_signature" = some sigStart ∧
    symbols "end_signature" = some sigEnd ∧
    saveSignature memory sigStart sigEnd ranges = some file ∧
    readSymbols symbols = some indices ∧ (readSig file indices).isSome = true

/-- Nothing is looked up in vain for a program: neither by the setup, nor, whatever the
simulation adds to the memory, by the dump of the signature and by the checker. -/
def LookupsSucceed (symbols : Symbols) (image : Dict Nat Nat)
    (headers : String → Option (Nat × Nat)) : Prop :=
  ∀ hexfile, memoryDictToRtlHex image symbols = .ok hexfile →
    runTestSetup (buildRtlInputBundle symbols hexfile (some image) headers) ≠ .error .keyError ∧
    runTestSetup (buildRtlInputBundle symbols hexfile (some image) headers) ≠ .error .indexError ∧
    ∀ memory ranges,
      runTestSetup (buildRtlInputBundle symbols hexfile (some image) headers) =
        .ok (memory, ranges) →
      ∀ final : Dict Nat Nat, (∀ addr ∈ memory.keys, addr ∈ final.keys) →
        SignatureRead symbols final ranges

theorem signatureRead_iff (resolves : addresses.Resolves symbols) {placement : Placement}
    (places : placement.Resolves symbols) {memory : Dict Nat Nat} :
    SignatureRead symbols memory ((List.range 6).map addresses.sections) ↔
      (∀ addr ∈ recordStarts (dumpedRanges addresses),
        addr ∈ memory.keys ∧ addr + 8 ∈ memory.keys) ∧ LinesExist addresses placement := by
  have dumped := @saveSignature_isSome_iff memory addresses.sigStart addresses.sigEnd
    ((List.range 6).map addresses.sections)
  constructor
  · rintro ⟨sigStart, sigEnd, file, indices, isStart, isEnd, saved, isIndices, isRead⟩
    cases resolves.sigStart.symm.trans isStart
    cases resolves.sigEnd.symm.trans isEnd
    exact ⟨dumped.mp (Option.isSome_of_eq_some saved),
      (readSig_isSome_iff places (readlines_saveSignature saved)).mp ⟨indices, isIndices, isRead⟩⟩
  · rintro ⟨held, exist⟩
    rcases Option.isSome_iff_exists.mp (dumped.mpr held) with ⟨file, saved⟩
    rcases (readSig_isSome_iff places (readlines_saveSignature saved)).mpr exist with
      ⟨indices, isIndices, isRead⟩
    exact ⟨_, _, file, indices, resolves.sigStart, resolves.sigEnd, saved, isIndices, isRead⟩

/-- The signature of every memory that extends the one after the setup is dumped and read exactly
when the records are there after the setup and the lines exist. -/
theorem signatureRead_run_iff (resolves : addresses.Resolves symbols) {placement : Placement}
    (places : placement.Resolves symbols) :
    (∀ final : Dict Nat Nat,
      (∀ addr ∈ (setBootrom.setAll (setupEntries symbols image addresses)).keys,
        addr ∈ final.keys) →
      SignatureRead symbols final ((List.range 6).map addresses.sections)) ↔
      RecordsHeld addresses ∧ LinesExist addresses placement := by
  simp only [signatureRead_iff resolves places, mem_keys_setup]
  constructor
  · intro all
    have atSetup := all (setBootrom.setAll (setupEntries symbols image addresses)) fun addr held =>
      mem_keys_setup.mpr held
    simp only [@mem_keys_setup symbols image addresses] at atSetup
    exact atSetup
  · rintro ⟨held, exist⟩ final includes
    exact ⟨fun addr mem => ⟨includes addr (held addr mem).1, includes _ (held addr mem).2⟩, exist⟩

/-- No lookup fails for an accepted program exactly when it has no words at all, or else has the
symbol `_start` and either the file is empty, so that the first number is not one, or the lines,
the data words, the records and the lines of the signature that are needed are all there. -/
theorem lookups_succeed_iff (accepted : hasSignatureSymbols symbols = true)
    (image : Dict Nat Nat) (headers : String → Option (Nat × Nat)) :
    LookupsSucceed symbols image headers ↔
      image.keys = [] ∨ ∃ addresses : Addresses, addresses.Resolves symbols ∧
        (hexEnd image ≤ addresses.start ∧ addresses.start < addresses.stop + 36 ∨
          addresses.stop + 36 ≤ addresses.start + 8 * hexLines image addresses.start ∧
          InBounds symbols image addresses.sections ∧ RecordsHeld addresses ∧
          LinesExist addresses (placementOf symbols)) := by
  have places := placementOf_resolves accepted
  rw [LookupsSucceed]
  simp only [buildRtlInputBundle_of_accepted accepted]
  by_cases empty : image.keys = []
  · have raises : memoryDictToRtlHex image symbols = .error .valueError := by
      rw [memoryDictToRtlHex, if_pos empty]
    simp [raises, empty]
  have written := @memoryDictToRtlHex_eq image symbols empty
  cases isStart : symbols "_start" with
  | none =>
      constructor
      · intro all
        exact absurd (runTestSetup_noStart isStart _) (all _ written).1
      · rintro (isEmpty | ⟨addresses, resolves, _⟩)
        · exact absurd isEmpty empty
        · cases isStart.symm.trans resolves.start
  | some start =>
      have short : ∀ addresses : Addresses, hexEnd image ≤ addresses.start →
          hexLines image addresses.start = 0 := by
        intro addresses below
        rw [hexLines, Nat.sub_eq_zero_of_le below]
      constructor
      · intro all
        right
        rcases exists_resolves accepted isStart with ⟨addresses, resolves, _⟩
        refine ⟨addresses, resolves, ?_⟩
        rcases all _ written with ⟨_, noIndex, signature⟩
        by_cases reaches :
            addresses.stop + 36 ≤ addresses.start + 8 * hexLines image addresses.start
        · right
          by_cases inBounds : InBounds symbols image addresses.sections
          · have read := (signatureRead_run_iff resolves places).mp
              (signature _ _ (runTestSetup_ok resolves written reaches inBounds))
            exact ⟨reaches, inBounds, read.1, read.2⟩
          · exact absurd (runTestSetup_outside resolves written reaches inBounds) noIndex
        · left
          have raises := runTestSetup_short resolves written (Nat.not_le.mp reaches)
          by_cases below : hexEnd image ≤ addresses.start
          · rw [short addresses below] at reaches
            exact ⟨below, Nat.not_le.mp reaches⟩
          · rw [if_neg below] at raises
            exact absurd raises noIndex
      · rintro (isEmpty | ⟨addresses, resolves, ⟨below, many⟩ | ⟨reaches, inBounds, held, exist⟩⟩)
        · exact absurd isEmpty empty
        · intro hexfile isFile
          have raises := runTestSetup_short resolves isFile (by
            rw [short addresses below]
            exact many)
          rw [if_pos below] at raises
          simp [raises]
        · intro hexfile isFile
          have isSetup := runTestSetup_ok resolves isFile reaches inBounds
          rw [isSetup]
          refine ⟨by simp, by simp, ?_⟩
          rintro memory ranges ⟨⟩
          exact (signatureRead_run_iff resolves places).mpr ⟨held, exist⟩

end Accepted

/-! ## Instrumented programs -/

/-- An accepted program without `_start`, and one whose image ends too early. -/
theorem lookups_fail :
    (hasSignatureSymbols (instrumentedSymbols none) = true ∧
      ¬ LookupsSucceed (instrumentedSymbols none) (Dict.empty.set 0x80000000 0x6f)
        fun _ => none) ∧
    hasSignatureSymbols (instrumentedSymbols (some 0x80000000)) = true ∧
      ¬ LookupsSucceed (instrumentedSymbols (some 0x80000000)) (Dict.empty.set 0x80000000 0x6f)
        fun _ => none := by
  have acceptedNone : hasSignatureSymbols (instrumentedSymbols none) = true := by decide +kernel
  refine ⟨⟨acceptedNone, ?_⟩, accepted_instrumented, ?_⟩
  · intro all
    have setup := (all _ (memoryDictToRtlHex_eq (by decide))).1
    rw [buildRtlInputBundle_of_accepted acceptedNone] at setup
    exact setup (runTestSetup_noStart (by rfl) _)
  · intro all
    have written := @memoryDictToRtlHex_eq (Dict.empty.set 0x80000000 0x6f)
      (instrumentedSymbols (some 0x80000000)) (by decide)
    have setup := (all _ written).2.1
    rw [buildRtlInputBundle_of_accepted accepted_instrumented] at setup
    have raises := runTestSetup_short resolves_instrumented written (by decide +kernel)
    rw [if_neg (by decide +kernel)] at raises
    exact setup raises

/-- A program whose words reach far enough, with empty data sections. -/
theorem lookups_succeed_instrumented :
    LookupsSucceed (instrumentedSymbols (some 0x80000000))
      ((Dict.empty.set 0x80000000 0x6f).set 0x80000120 0) fun _ => none := by
  have noStores : stores instrumentedAddresses.sections 6 = [] := by rfl
  have inBounds : InBounds (instrumentedSymbols (some 0x80000000))
      ((Dict.empty.set 0x80000000 0x6f).set 0x80000120 0) instrumentedAddresses.sections := by
    rw [InBounds, noStores]
    exact fun store mem => (List.not_mem_nil mem).elim
  have held : RecordsHeld instrumentedAddresses := by
    rw [RecordsHeld]
    decide
  have exist : LinesExist instrumentedAddresses
      (placementOf (instrumentedSymbols (some 0x80000000))) := by
    rw [LinesExist]
    decide +kernel
  exact (lookups_succeed_iff accepted_instrumented _ _).mpr
    (.inr ⟨instrumentedAddresses, resolves_instrumented,
      .inr ⟨by decide +kernel, inBounds, held, exist⟩⟩)

end Difftest.Host
