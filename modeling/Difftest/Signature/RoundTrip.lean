import Difftest.Signature.File

/-!
# Reading back a dumped signature

The signature file of a memory is one record after another; the record at line
`j` of a range starts at the sixteenfold of `j` above the start of the range.
The reader finds every slot and every data section where the dumper put it.
-/

namespace Difftest.Signature

open Difftest.Text

/-- Addresses that a symbol table gives to the signature, its slots and the six
data sections. -/
structure Placement where
  sigStart : Nat
  sigEnd : Nat
  xreg : Nat → Nat
  freg : Nat → Nat
  csr : String → Nat
  dataStart : Nat → Nat
  dataEnd : Nat → Nat

namespace Placement

/-- The symbol table resolves every symbol the checker looks up to the placed
address. -/
structure Resolves (placement : Placement) (symbols : Symbols) : Prop where
  sigStart : symbols "begin_signature" = some placement.sigStart
  sigEnd : symbols "end_signature" = some placement.sigEnd
  xreg : ∀ i < 32, symbols (xregSymbol i) = some (placement.xreg i)
  freg : ∀ i < 32, symbols (fregSymbol i) = some (placement.freg i)
  csr : ∀ name ∈ csrNames, symbols (csrSymbol name) = some (placement.csr name)
  dataStart : ∀ i < 6, symbols (dataStartSymbol i) = some (placement.dataStart i)
  dataEnd : ∀ i < 6, symbols (dataEndSymbol i) = some (placement.dataEnd i)

/-- `addr` is a word of the signature, at an offset of whole words. -/
def Slot (placement : Placement) (addr : Nat) : Prop :=
  placement.sigStart ≤ addr ∧ addr < placement.sigEnd ∧ 8 ∣ addr - placement.sigStart

/-- The dumper's own conditions: whole records in every range, every slot a word
of the signature. -/
structure Aligned (placement : Placement) : Prop where
  sigLength : placement.sigStart ≤ placement.sigEnd ∧
    16 ∣ placement.sigEnd - placement.sigStart
  xreg : ∀ i < 32, placement.Slot (placement.xreg i)
  freg : ∀ i < 32, placement.Slot (placement.freg i)
  csr : ∀ name ∈ csrNames, placement.Slot (placement.csr name)
  dataLength : ∀ i < 6, placement.dataStart i ≤ placement.dataEnd i ∧
    16 ∣ placement.dataEnd i - placement.dataStart i

/-- The data ranges the host passes to the dumper. -/
def dataAddrs (placement : Placement) : List (Nat × Nat) :=
  (List.range 6).map fun i => (placement.dataStart i, placement.dataEnd i)

/-- The ranges the dumper prints, in order. -/
def ranges (placement : Placement) : List (Nat × Nat) :=
  (placement.sigStart, placement.sigEnd) :: placement.dataAddrs

end Placement

/-- The words from `start` up to `stop` in increasing address order. -/
def wordsOf (word : Nat → Nat) (start stop : Nat) : List Int :=
  (List.range' start ((stop - start) / 8) 8).map fun addr => (word addr : Int)

/-! ## Records -/

section Records

variable (word : Nat → Nat)

/-- The text of the record that starts at `addr`. -/
def record (addr : Nat) : Text :=
  line (numeral 16 16 (word (addr + 8)) ++ numeral 16 16 (word addr))

/-- First addresses of the records of a range. -/
def recordAddrs (range : Nat × Nat) : List Nat :=
  List.range' range.1 ((range.2 - range.1) / 16) 16

variable {word}

theorem newline_notMem_record_body (addr : Nat) :
    '\n' ∉ numeral 16 16 (word (addr + 8)) ++ numeral 16 16 (word addr) := by
  rw [List.mem_append, not_or]
  exact ⟨newline_notMem_numeral (by omega) (by omega) _ _,
    newline_notMem_numeral (by omega) (by omega) _ _⟩

theorem readlines_records (addrs : List Nat) :
    readlines (addrs.map (record word)).flatten = addrs.map (record word) := by
  have shape : addrs.map (record word) = (addrs.map fun addr =>
      numeral 16 16 (word (addr + 8)) ++ numeral 16 16 (word addr)).map line := by
    rw [List.map_map]
    rfl
  rw [shape]
  apply readlines_flatten_lines
  intro body mem
  obtain ⟨addr, -, rfl⟩ := List.mem_map.mp mem
  exact newline_notMem_record_body addr

theorem parse_high {addr : Nat} (high : word (addr + 8) < 2 ^ 64) :
    parseInt 16 (slice 0 16 (record word addr)) = some (word (addr + 8) : Int) := by
  have width : (numeral 16 16 (word (addr + 8))).length = 16 :=
    numeral_length (by omega) (by omega) (by simpa using high)
  rw [record, line, List.append_assoc, slice_first width]
  exact parseInt_numeral (by omega) (by omega) 16 _

theorem parse_low {addr : Nat} (high : word (addr + 8) < 2 ^ 64) (low : word addr < 2 ^ 64) :
    parseInt 16 (slice 16 32 (record word addr)) = some (word addr : Int) := by
  have highWidth : (numeral 16 16 (word (addr + 8))).length = 16 :=
    numeral_length (by omega) (by omega) (by simpa using high)
  have lowWidth : (numeral 16 16 (word addr)).length = 32 - 16 :=
    numeral_length (by omega) (by omega) (by simpa using low)
  rw [record, line, slice_second highWidth lowWidth]
  exact parseInt_numeral (by omega) (by omega) 16 _

end Records

/-! ## Dumping -/

section Dump

variable {word : Nat → Nat} {memory : Dict Nat Nat}

/-- The words of a range are held by the memory and fit in 64 bits. -/
def Holds (memory : Dict Nat Nat) (word : Nat → Nat) (range : Nat × Nat) : Prop :=
  ∀ addr, range.1 ≤ addr → addr < range.2 → 8 ∣ addr - range.1 →
    memory.get? addr = some (word addr) ∧ word addr < 2 ^ 64

/-- Both words of every record of a range of whole records lie in the range. -/
theorem Holds.record {range : Nat × Nat} (holds : Holds memory word range)
    (ordered : range.1 ≤ range.2) (whole : 16 ∣ range.2 - range.1) {addr : Nat}
    (mem : addr ∈ recordAddrs range) :
    (memory.get? addr = some (word addr) ∧ word addr < 2 ^ 64) ∧
      memory.get? (addr + 8) = some (word (addr + 8)) ∧ word (addr + 8) < 2 ^ 64 := by
  obtain ⟨j, bound, rfl⟩ := List.mem_range'.mp mem
  obtain ⟨count, length⟩ := whole
  have inside : j < count := by omega
  constructor
  · exact holds _ (by omega) (by omega) (by omega)
  · exact holds _ (by omega) (by omega) (by omega)

theorem dumpRange_eq {range : Nat × Nat} (holds : Holds memory word range)
    (ordered : range.1 ≤ range.2) (whole : 16 ∣ range.2 - range.1) :
    dumpRange memory range.1 range.2 =
      some ((recordAddrs range).map (record word)).flatten := by
  have steps : stepRange range.1 range.2 16 = recordAddrs range := by
    obtain ⟨count, length⟩ := whole
    have stop : range.2 = range.1 + 16 * count := by omega
    rw [recordAddrs, stop, stepRange_add_mul _ _ _ (by omega), Nat.add_sub_cancel_left,
      Nat.mul_div_cancel_left _ (by omega)]
  have records : (recordAddrs range).mapM (dumpRecord memory) =
      some ((recordAddrs range).map (record word)) := by
    apply mapM_eq_some_map
    intro addr mem
    obtain ⟨⟨low, -⟩, high, -⟩ := holds.record ordered whole mem
    rw [dumpRecord, high, low]
    rfl
  rw [dumpRange, steps, records]
  rfl

/-- First addresses of all records of a file, in order. -/
def Placement.recordAddrs (placement : Placement) : List Nat :=
  placement.ranges.flatMap Signature.recordAddrs

theorem saveSignature_eq {placement : Placement} (aligned : placement.Aligned)
    (holds : ∀ range ∈ placement.ranges, Holds memory word range) :
    saveSignature memory placement.sigStart placement.sigEnd placement.dataAddrs =
      some (placement.recordAddrs.map (record word)).flatten := by
  have signature : dumpRange memory placement.sigStart placement.sigEnd = _ :=
    dumpRange_eq (holds _ List.mem_cons_self) aligned.sigLength.1 aligned.sigLength.2
  have data : placement.dataAddrs.mapM (fun range => dumpRange memory range.1 range.2) =
      some (placement.dataAddrs.map fun range =>
        ((recordAddrs range).map (record word)).flatten) := by
    apply mapM_eq_some_map
    intro range mem
    obtain ⟨i, bound, rfl⟩ := List.mem_map.mp mem
    have length := aligned.dataLength i (List.mem_range.mp bound)
    exact dumpRange_eq (holds _ (List.mem_cons_of_mem _ mem)) length.1 length.2
  have join : ∀ ranges : List (Nat × Nat),
      (ranges.map fun range => ((recordAddrs range).map (record word)).flatten).flatten =
        ((ranges.flatMap recordAddrs).map (record word)).flatten := by
    intro ranges
    induction ranges with
    | nil => rfl
    | cons range ranges ih =>
        rw [List.map_cons, List.flatten_cons, ih, List.flatMap_cons, List.map_append,
          List.flatten_append]
  rw [saveSignature, signature, data]
  change some (_ ++ _) = _
  rw [join, Placement.recordAddrs, Placement.ranges, List.flatMap_cons, List.map_append,
    List.flatten_append]

end Dump

/-! ## Reading the slots -/

section Slots

variable {word : Nat → Nat}

theorem recordAddrs_length (range : Nat × Nat) :
    (recordAddrs range).length = (range.2 - range.1) / 16 := by
  simp [recordAddrs]

/-- The word at a slot is read from the line and columns of its index. -/
theorem readSlot_eq {start stop addr : Nat} (whole : 16 ∣ stop - start)
    (lower : start ≤ addr) (upper : addr < stop) (aligned : 8 ∣ addr - start)
    (small : ∀ a, start ≤ a → a < stop → 8 ∣ a - start → word a < 2 ^ 64)
    (others : List Text) :
    readSlot ((recordAddrs (start, stop)).map (record word) ++ others)
        (((addr : Int) - start) / 8) = some (word addr : Int) := by
  obtain ⟨count, length⟩ := whole
  obtain ⟨k, offset⟩ := aligned
  have idx : ((addr : Int) - start) / 8 = (k : Int) := by omega
  have inside : k / 2 < count := by omega
  have found : index? ((recordAddrs (start, stop)).map (record word) ++ others)
      ((k : Int) / 2) = some (record word (start + 16 * (k / 2))) := by
    have half : (k : Int) / 2 = ((k / 2 : Nat) : Int) := by omega
    have entries : (recordAddrs (start, stop)).length = count := by
      rw [recordAddrs_length]
      omega
    rw [half, index?_natCast, List.getElem?_append_left (by simpa [entries] using inside),
      List.getElem?_map, recordAddrs, List.getElem?_range' (by omega)]
    rfl
  have low := small (start + 16 * (k / 2)) (by omega) (by omega) (by omega)
  have high := small (start + 16 * (k / 2) + 8) (by omega) (by omega) (by omega)
  rw [readSlot, idx, found, Option.bind_eq_bind, Option.bind_some]
  rcases Nat.mod_two_eq_zero_or_one k with even | odd
  · have column : ((k : Int) % 2).toNat = 0 := by omega
    have same : start + 16 * (k / 2) = addr := by omega
    rw [same] at low high ⊢
    simp only [column, Nat.mul_zero, Nat.sub_zero]
    exact parse_low high low
  · have column : ((k : Int) % 2).toNat = 1 := by omega
    have same : start + 16 * (k / 2) + 8 = addr := by omega
    rw [← same]
    simp only [column, Nat.mul_one, Nat.sub_self, Nat.reduceSub]
    exact parse_high high

end Slots

/-! ## Reading the data sections -/

section Sections

variable {word : Nat → Nat}

theorem wordsOf_eq_flatten {start stop : Nat} (whole : 16 ∣ stop - start) :
    wordsOf word start stop =
      ((recordAddrs (start, stop)).map fun addr =>
        [(word addr : Int), (word (addr + 8) : Int)]).flatten := by
  obtain ⟨count, length⟩ := whole
  have words : (stop - start) / 8 = 2 * count := by omega
  have records : (stop - start) / 16 = count := by omega
  rw [wordsOf, recordAddrs, words, records]
  clear length words records
  induction count generalizing start with
  | zero => rfl
  | succ count ih =>
      have split : List.range' start (2 * (count + 1)) 8 =
          start :: (start + 8) :: List.range' (start + 16) (2 * count) 8 := by
        rw [show 2 * (count + 1) = (2 * count) + 1 + 1 by omega, List.range'_succ,
          List.range'_succ]
      rw [split, List.map_cons, List.map_cons, ih, List.range'_succ, List.map_cons,
        List.flatten_cons]
      rfl

theorem readSection_eq {range : Nat × Nat} (ordered : range.1 ≤ range.2)
    (whole : 16 ∣ range.2 - range.1)
    (small : ∀ a, range.1 ≤ a → a < range.2 → 8 ∣ a - range.1 → word a < 2 ^ 64)
    (before after : List Text) :
    readSection (before ++ ((recordAddrs range).map (record word) ++ after)) before.length range =
      some (wordsOf word range.1 range.2) := by
  have count : (sectionRecords range).toNat = (recordAddrs range).length := by
    rw [sectionRecords, recordAddrs_length]
    omega
  have records : (List.range (sectionRecords range).toNat).mapM (fun j : Nat =>
      readRecord (before ++ ((recordAddrs range).map (record word) ++ after))
        ((before.length : Int) + j)) =
      some ((List.range (recordAddrs range).length).map fun j =>
        [(word (range.1 + 16 * j) : Int), (word (range.1 + 16 * j + 8) : Int)]) := by
    rw [count]
    apply mapM_eq_some_map
    intro j mem
    have bound := List.mem_range.mp mem
    rw [recordAddrs_length] at bound
    have found : index? (before ++ ((recordAddrs range).map (record word) ++ after))
        ((before.length : Int) + j) = some (record word (range.1 + 16 * j)) := by
      rw [← Int.natCast_add, index?_natCast, List.getElem?_append_right (by omega),
        Nat.add_sub_cancel_left,
        List.getElem?_append_left (by simpa [recordAddrs_length] using bound),
        List.getElem?_map, recordAddrs, List.getElem?_range' bound]
      rfl
    have low := small (range.1 + 16 * j) (by omega) (by omega) (by omega)
    have high := small (range.1 + 16 * j + 8) (by omega) (by omega) (by omega)
    rw [readRecord, found, Option.bind_eq_bind, Option.bind_some, parse_low high low,
      Option.bind_eq_bind, Option.bind_some, parse_high high]
    rfl
  have addrs : (List.range (recordAddrs range).length).map (fun j => range.1 + 16 * j) =
      recordAddrs range := by
    apply List.ext_getElem
    · simp
    · intro j _ _
      simp [recordAddrs]
  rw [readSection, records, wordsOf_eq_flatten whole]
  conv_rhs => rw [← addrs]
  rw [List.map_map]
  rfl

/-- Reading the sections one after another returns the words of each. -/
theorem readSections_eq {ranges : List (Nat × Nat)}
    (whole : ∀ range ∈ ranges, range.1 ≤ range.2 ∧ 16 ∣ range.2 - range.1)
    (small : ∀ range ∈ ranges, ∀ a, range.1 ≤ a → a < range.2 → 8 ∣ a - range.1 →
      word a < 2 ^ 64) (before : List Text) :
    readSections (before ++ (ranges.flatMap recordAddrs).map (record word)) before.length ranges =
      some (ranges.map fun range => wordsOf word range.1 range.2) := by
  induction ranges generalizing before with
  | nil => rfl
  | cons range ranges ih =>
      have first := whole range List.mem_cons_self
      have data := readSection_eq first.1 first.2 (small range List.mem_cons_self) before
        ((ranges.flatMap recordAddrs).map (record word))
      have next : (before.length : Int) + sectionRecords range =
          ((before ++ (recordAddrs range).map (record word)).length : Nat) := by
        rw [sectionRecords, List.length_append, List.length_map, recordAddrs_length]
        omega
      have others := ih (fun other mem => whole other (List.mem_cons_of_mem _ mem))
        (fun other mem => small other (List.mem_cons_of_mem _ mem))
        (before ++ (recordAddrs range).map (record word))
      rw [List.append_assoc] at others
      rw [List.flatMap_cons, List.map_append, readSections, data, Option.bind_eq_bind,
        Option.bind_some, next, others]
      rfl

end Sections

/-! ## The round trip -/

section RoundTrip

variable {symbols : Symbols} {placement : Placement}

/-- The word indices the checker computes for a placement. -/
theorem readSymbols_eq (resolves : placement.Resolves symbols) :
    ∃ csrIdxes, readSymbols symbols = some
        { xregIdxes := (List.range 32).map fun i =>
            ((placement.xreg i : Int) - placement.sigStart) / 8
          fregIdxes := (List.range 32).map fun i =>
            ((placement.freg i : Int) - placement.sigStart) / 8
          csrIdxes := csrIdxes
          dataSymbols := placement.dataAddrs
          dataIdxStart := ((placement.sigEnd : Int) - placement.sigStart) / (2 * 8) } ∧
      ∀ name ∈ csrNames, csrIdxes.get? name =
        some (((placement.csr name : Int) - placement.sigStart) / 8) := by
  have slot : ∀ name addr, symbols name = some addr →
      slotIndex symbols placement.sigStart name =
        some (((addr : Int) - placement.sigStart) / 8) := by
    intro name addr resolved
    rw [slotIndex, resolved]
    rfl
  have xregs := mapM_eq_some_map fun i mem =>
    slot _ _ (resolves.xreg i (List.mem_range.mp mem))
  have fregs := mapM_eq_some_map fun i mem =>
    slot _ _ (resolves.freg i (List.mem_range.mp mem))
  have csrs : ∀ name ∈ csrNames, slotIndex symbols placement.sigStart (csrSymbol name) =
      some (((placement.csr name : Int) - placement.sigStart) / 8) :=
    fun name mem => slot _ _ (resolves.csr name mem)
  have sections : (List.range 6).mapM (sectionRange symbols) = some placement.dataAddrs := by
    apply mapM_eq_some_map
    intro i mem
    have bound := List.mem_range.mp mem
    rw [sectionRange, resolves.dataStart i bound, resolves.dataEnd i bound]
    rfl
  obtain ⟨csrIdxes, collected⟩ := Option.isSome_iff_exists.mp
    (Dict.collect_isSome (fun name mem => Option.isSome_of_eq_some (csrs name mem)) Dict.empty)
  refine ⟨csrIdxes, ?_, ?_⟩
  · rw [readSymbols, resolves.sigStart, resolves.sigEnd, Option.bind_eq_bind,
      Option.bind_some, Option.bind_eq_bind, Option.bind_some, xregs, fregs, sections, collected]
    rfl
  · intro name mem
    rw [Dict.get?_of_collect collected, if_pos mem, csrs name mem]

variable {memory : Dict Nat Nat} {word : Nat → Nat}

/-- Reading a dumped signature file returns the words the memory held: every
register slot, every CSR slot and every data section, in address order. -/
theorem readSig_saveSignature (resolves : placement.Resolves symbols)
    (aligned : placement.Aligned)
    (holds : ∀ range ∈ placement.ranges, Holds memory word range) :
    ∃ file indices values,
      saveSignature memory placement.sigStart placement.sigEnd placement.dataAddrs = some file ∧
      readSymbols symbols = some indices ∧
      readSig file indices = some values ∧
      values.xregVals = (List.range 32).map (fun i => (word (placement.xreg i) : Int)) ∧
      values.fregVals = (List.range 32).map (fun i => (word (placement.freg i) : Int)) ∧
      (∀ name ∈ csrNames, values.csrVals.get? name = some (word (placement.csr name) : Int)) ∧
      values.dataVals = (List.range 6).map fun i =>
        wordsOf word (placement.dataStart i) (placement.dataEnd i) := by
  obtain ⟨csrIdxes, symbolsRead, csrIdx⟩ := readSymbols_eq resolves
  have signature := holds _ List.mem_cons_self
  have smallIn : ∀ range ∈ placement.ranges, ∀ a, range.1 ≤ a → a < range.2 →
      8 ∣ a - range.1 → word a < 2 ^ 64 :=
    fun range mem a lower upper whole => (holds range mem a lower upper whole).2
  set lines := placement.recordAddrs.map (record word) with linesDef
  have split : lines = (recordAddrs (placement.sigStart, placement.sigEnd)).map (record word) ++
      (placement.dataAddrs.flatMap recordAddrs).map (record word) := by
    rw [linesDef, Placement.recordAddrs, Placement.ranges, List.flatMap_cons, List.map_append]
  have slot : ∀ addr, placement.Slot addr →
      readSlot lines (((addr : Int) - placement.sigStart) / 8) = some (word addr : Int) := by
    rintro addr ⟨lower, upper, whole⟩
    rw [split]
    exact readSlot_eq aligned.sigLength.2 lower upper whole (smallIn _ List.mem_cons_self) _
  have xregs : ((List.range 32).map fun i =>
      ((placement.xreg i : Int) - placement.sigStart) / 8).mapM (readSlot lines) =
        some ((List.range 32).map fun i => (word (placement.xreg i) : Int)) := by
    rw [List.mapM_map]
    exact mapM_eq_some_map fun i mem => slot _ (aligned.xreg i (List.mem_range.mp mem))
  have fregs : ((List.range 32).map fun i =>
      ((placement.freg i : Int) - placement.sigStart) / 8).mapM (readSlot lines) =
        some ((List.range 32).map fun i => (word (placement.freg i) : Int)) := by
    rw [List.mapM_map]
    exact mapM_eq_some_map fun i mem => slot _ (aligned.freg i (List.mem_range.mp mem))
  have csrs : ∀ name ∈ csrNames, (csrIdxes.get? name).bind (readSlot lines) =
      some (word (placement.csr name) : Int) := by
    intro name mem
    rw [csrIdx name mem, Option.bind_some, slot _ (aligned.csr name mem)]
  obtain ⟨csrVals, collected⟩ := Option.isSome_iff_exists.mp
    (Dict.collect_isSome (fun name mem => Option.isSome_of_eq_some (csrs name mem)) Dict.empty)
  have sections : readSections lines (((placement.sigEnd : Int) - placement.sigStart) / (2 * 8))
      placement.dataAddrs =
        some (placement.dataAddrs.map fun range => wordsOf word range.1 range.2) := by
    have start : ((placement.sigEnd : Int) - placement.sigStart) / (2 * 8) =
        (((recordAddrs (placement.sigStart, placement.sigEnd)).map (record word)).length : Nat) := by
      obtain ⟨ordered, whole⟩ := aligned.sigLength
      rw [List.length_map, recordAddrs_length]
      omega
    rw [split, start]
    apply readSections_eq
    · intro range mem
      obtain ⟨i, bound, rfl⟩ := List.mem_map.mp mem
      exact aligned.dataLength i (List.mem_range.mp bound)
    · exact fun range mem => smallIn range (List.mem_cons_of_mem _ mem)
  refine ⟨lines.flatten, _, ⟨_, _, csrVals, _⟩, saveSignature_eq aligned holds, symbolsRead,
    ?_, rfl, rfl, ?_, rfl⟩
  · rw [readSig, readlines_records, ← linesDef]
    simp only [xregs, fregs, collected, sections, Option.bind_eq_bind, Option.bind_some]
    rw [Placement.dataAddrs, List.map_map]
    rfl
  · intro name mem
    rw [Dict.get?_of_collect collected, if_pos mem, csrs name mem]

end RoundTrip

/-! ### A table with one record in the signature and one in the first section -/

/-- Slots share the first word except `x1`; only the first section is nonempty. -/
def tinySymbols : Symbols := fun name =>
  if name = "end_signature" ∨ name = "_end_data0" then some 16
  else if name = "reg_x1_output" then some 8
  else some 0

/-- The addresses `tinySymbols` gives. -/
def tinyPlacement : Placement where
  sigStart := 0
  sigEnd := 16
  xreg i := if i = 1 then 8 else 0
  freg _ := 0
  csr _ := 0
  dataStart _ := 0
  dataEnd i := if i = 0 then 16 else 0

/-- Two words of memory. -/
def tinyMemory : Dict Nat Nat := (Dict.empty.set 0 5).set 8 0xffffffffffffffff

/-- The contents of `tinyMemory`. -/
def tinyWord (addr : Nat) : Nat := if addr = 0 then 5 else 0xffffffffffffffff

theorem readSig_saveSignature_tiny :
    ∃ file indices values,
      saveSignature tinyMemory 0 16 tinyPlacement.dataAddrs = some file ∧
      readSymbols tinySymbols = some indices ∧
      readSig file indices = some values ∧
      values.xregVals = (List.range 32).map (fun i => (tinyWord (tinyPlacement.xreg i) : Int)) ∧
      values.fregVals = (List.range 32).map (fun i => (tinyWord (tinyPlacement.freg i) : Int)) ∧
      (∀ name ∈ csrNames, values.csrVals.get? name =
        some (tinyWord (tinyPlacement.csr name) : Int)) ∧
      values.dataVals = (List.range 6).map fun i =>
        wordsOf tinyWord (tinyPlacement.dataStart i) (tinyPlacement.dataEnd i) := by
  have resolves : tinyPlacement.Resolves tinySymbols := by
    constructor <;> decide
  have slots : ∀ addr, addr = 0 ∨ addr = 8 → tinyPlacement.Slot addr := by
    rintro addr (rfl | rfl)
    · exact ⟨by decide, by decide, by decide⟩
    · exact ⟨by decide, by decide, by decide⟩
  have aligned : tinyPlacement.Aligned :=
    { sigLength := ⟨by decide, by decide⟩
      xreg := fun i _ => slots _ (by by_cases first : i = 1 <;> simp [tinyPlacement, first])
      freg := fun _ _ => slots _ (Or.inl rfl)
      csr := fun _ _ => slots _ (Or.inl rfl)
      dataLength := by decide }
  have holds : ∀ range ∈ tinyPlacement.ranges, Holds tinyMemory tinyWord range := by
    have bounds : ∀ range ∈ tinyPlacement.ranges, range.1 = 0 ∧ range.2 ≤ 16 := by decide
    intro range mem addr lower upper whole
    obtain ⟨start, stop⟩ := bounds range mem
    have cases : addr = 0 ∨ addr = 8 := by
      obtain ⟨k, offset⟩ := whole
      omega
    rcases cases with rfl | rfl
    · exact ⟨rfl, by decide⟩
    · exact ⟨rfl, by decide⟩
  exact readSig_saveSignature resolves aligned holds

end Difftest.Signature
