import Difftest.Data.Struct
import Difftest.Signature.RoundTrip
import Difftest.Spike.Memif

/-!
# The signature that Spike prints

At the end of a run the simulator reads the signature and then each data section
into a buffer and prints sixteen bytes a line, the highest address first.  The
buffer has the length of the signature.  Accesses to it are checked here, and an
access past its end is a fault.

The main result compares the text with the one that the RTL host writes for the
same words: they agree, without a fault, exactly when the layout fits the buffer.
-/

namespace Difftest.Spike

open Difftest.Text Difftest.Signature

/-- How `stop` can go wrong. -/
inductive Fault where
  /-- `std::length_error`, or an allocation that no machine can satisfy. -/
  | lengthError
  /-- A failed `assert`. -/
  | assertion
  /-- An access past the end of `buf`. -/
  | outOfBounds (index : Nat)
deriving DecidableEq, Repr

/-- The fields of `htif_t` that `load_program` sets for `stop`. -/
structure Htif where
  sigAddr : Nat
  sigLen : Nat
  dataAddrs : List (Nat × Nat)

/-- The difference of two addresses, in 64 bits. -/
def addrSub (stop start : Nat) : Nat := (stop + (2 ^ 64 - start)) % 2 ^ 64

/-- `htif_t::load_program`, the part about the signature.  Without the two symbols
both fields keep their initial zero. -/
def loadProgram (symbols : Symbols) : Htif :=
  let dataAddrs := (List.range 6).filterMap (sectionRange symbols)
  match symbols "begin_signature", symbols "end_signature" with
  | some start, some stop => { sigAddr := start, sigLen := addrSub stop start, dataAddrs }
  | _, _ => { sigAddr := 0, sigLen := 0, dataAddrs }

/-- `std::vector<uint8_t> buf(len)`. -/
def allocate (len : Nat) : Except Fault (List Nat) :=
  if len < 2 ^ 63 then .ok (List.replicate len 0) else .error .lengthError

/-- `mem.read(addr, len, &buf[0])`. -/
def readInto (memory : ByteMemory) (addr len : Nat) (buf : List Nat) : Except Fault (List Nat) :=
  if len ≤ buf.length then .ok (memifRead memory addr len ++ buf.drop len)
  else .error (.outOfBounds buf.length)

/-- `buf[index]`. -/
def loadByte (buf : List Nat) (index : Nat) : Except Fault Nat :=
  match buf[index]? with
  | some byte => .ok byte
  | none => .error (.outOfBounds index)

/-- `assert(len % incr == 0)`. -/
def assertWhole (len : Nat) : Except Fault Unit :=
  if len % 16 = 0 then .ok () else .error .assertion

/-- The line of the sixteen bytes at `i`, printed from the last one on. -/
def printLine (buf : List Nat) (i : Nat) : Except Fault Text := do
  let bytes ← (List.range 16).reverse.mapM fun j => loadByte buf (i + j)
  .ok (line (bytes.flatMap (numeral 16 2)))

/-- The lines of the first `len` bytes. -/
def printLines (buf : List Nat) (len : Nat) : Except Fault Text := do
  let lines ← (stepRange 0 len 16).mapM (printLine buf)
  .ok lines.flatten

/-- The loop of `stop` over the data sections.  `data_buf` is allocated and not
used. -/
def printSections (memory : ByteMemory) : List Nat → List (Nat × Nat) → Except Fault Text
  | _, [] => .ok []
  | buf, range :: ranges => do
      let dataLen := addrSub range.2 range.1
      let _ ← allocate dataLen
      let buf ← readInto memory range.1 dataLen buf
      assertWhole dataLen
      let lines ← printLines buf dataLen
      let others ← printSections memory buf ranges
      .ok (lines ++ others)

/-- `htif_t::stop` with a signature file: the text that it writes, or `none` when it
does not open the file. -/
def Htif.stop (htif : Htif) (memory : ByteMemory) : Except Fault (Option Text) :=
  if htif.sigLen = 0 then .ok none
  else do
    let buf ← allocate htif.sigLen
    let buf ← readInto memory htif.sigAddr htif.sigLen buf
    assertWhole htif.sigLen
    let lines ← printLines buf htif.sigLen
    let others ← printSections memory buf htif.dataAddrs
    .ok (some (lines ++ others))

/-! ## Layouts -/

/-- The symbols of the signature and of all six data sections, as addresses. -/
structure SectionLayout where
  sigStart : Nat
  sigEnd : Nat
  dataStart : Nat → Nat
  dataEnd : Nat → Nat
  sigStart_lt : sigStart < 2 ^ 64
  sigEnd_lt : sigEnd < 2 ^ 64
  dataStart_lt : ∀ i < 6, dataStart i < 2 ^ 64
  dataEnd_lt : ∀ i < 6, dataEnd i < 2 ^ 64

namespace SectionLayout

/-- The data sections in index order. -/
def dataAddrs (layout : SectionLayout) : List (Nat × Nat) :=
  (List.range 6).map fun i => (layout.dataStart i, layout.dataEnd i)

/-- The symbol table of a layout. -/
structure Resolves (layout : SectionLayout) (symbols : Symbols) : Prop where
  sigStart : symbols "begin_signature" = some layout.sigStart
  sigEnd : symbols "end_signature" = some layout.sigEnd
  dataStart : ∀ i < 6, symbols (dataStartSymbol i) = some (layout.dataStart i)
  dataEnd : ∀ i < 6, symbols (dataEndSymbol i) = some (layout.dataEnd i)

/-- Both assertions of `stop` hold. -/
def Whole (layout : SectionLayout) : Prop :=
  16 ∣ addrSub layout.sigEnd layout.sigStart ∧
    ∀ range ∈ layout.dataAddrs, 16 ∣ addrSub range.2 range.1

/-- Every section lies in order and is no longer than the signature, whose length a
vector can have; or the signature and all sections are empty. -/
def FitsBuffer (layout : SectionLayout) : Prop :=
  if layout.sigStart = layout.sigEnd then ∀ range ∈ layout.dataAddrs, range.2 ≤ range.1
  else layout.sigStart ≤ layout.sigEnd ∧ layout.sigEnd - layout.sigStart < 2 ^ 63 ∧
    ∀ range ∈ layout.dataAddrs, range.1 ≤ range.2 ∧
      range.2 - range.1 ≤ layout.sigEnd - layout.sigStart

end SectionLayout

/-! ## Words and bytes -/

/-- The columns of a word are the columns of its bytes, the highest first. -/
theorem numeral_ofBytes {bytes : Nat → Nat} (small : ∀ j, bytes j < 256) {width : Nat}
    (pos : 0 < width) :
    numeral 16 (2 * width) (ofBytes width bytes) =
      (List.range width).reverse.flatMap fun j => numeral 16 2 (bytes j) := by
  induction width, pos using Nat.le_induction with
  | base => simp [ofBytes]
  | succ width pos ih =>
      have rest : ofBytes width bytes < 16 ^ (2 * width) := by
        rw [Nat.pow_mul]
        exact ofBytes_lt fun j _ => small j
      have shape : ofBytes (width + 1) bytes =
          bytes width * 16 ^ (2 * width) + ofBytes width bytes := by
        rw [ofBytes, Nat.pow_mul, Nat.add_comm]
      rw [shape, numeral_append (by decide) (show 0 < 2 by decide) (by omega) _ _ rest (by omega),
        List.range_succ, List.reverse_append, List.flatMap_append, ih]
      simp

/-- One printed line is one record of the host. -/
theorem record_eq_bytes {memory : ByteMemory} (small : ∀ addr, memory addr < 256) (addr : Nat) :
    record (memory.read 8) addr =
      line ((List.range 16).reverse.flatMap fun j => numeral 16 2 (memory (addr + j))) := by
  have high := numeral_ofBytes (fun j => small (addr + 8 + j)) (show 0 < 8 by decide)
  have low := numeral_ofBytes (fun j => small (addr + j)) (show 0 < 8 by decide)
  have split : (List.range 16).reverse =
      (List.range 8).reverse.map (8 + ·) ++ (List.range 8).reverse := by
    decide
  rw [record, ByteMemory.read, ByteMemory.read, high, low, split, List.flatMap_append,
    List.flatMap_map]
  simp only [Nat.add_assoc]

/-! ## Printing -/

/-- The lines that the simulator prints for a range of addresses. -/
def printed (memory : ByteMemory) (start len : Nat) : Text :=
  ((stepRange 0 len 16).map fun i => line ((List.range 16).reverse.flatMap fun j =>
    numeral 16 2 (memory ((start + (i + j)) % 2 ^ 64)))).flatten

section Print

variable {memory : ByteMemory} {start len : Nat} {rest : List Nat}

theorem printLine_eq {i : Nat} (inside : i + 16 ≤ len) :
    printLine (bytesFrom memory start len ++ rest) i =
      .ok (line ((List.range 16).reverse.flatMap fun j =>
        numeral 16 2 (memory ((start + (i + j)) % 2 ^ 64)))) := by
  have bytes : (List.range 16).reverse.mapM
        (fun j => loadByte (bytesFrom memory start len ++ rest) (i + j)) =
      (.ok ((List.range 16).reverse.map fun j => memory ((start + (i + j)) % 2 ^ 64)) :
        Except Fault (List Nat)) := by
    apply mapM_eq_pure_map
    intro j mem
    have bound := List.mem_range.mp (List.mem_reverse.mp mem)
    have below : i + j < len := by omega
    rw [loadByte, List.getElem?_append_left (by rwa [length_bytesFrom]),
      getElem?_bytesFrom memory below]
    rfl
  rw [printLine, bytes]
  exact congrArg (fun text => Except.ok (line text)) (List.flatMap_map _ _ _)

theorem printLines_eq (whole : 16 ∣ len) :
    printLines (bytesFrom memory start len ++ rest) len = .ok (printed memory start len) := by
  have lines : (stepRange 0 len 16).mapM (printLine (bytesFrom memory start len ++ rest)) =
      (.ok ((stepRange 0 len 16).map fun i => line ((List.range 16).reverse.flatMap fun j =>
        numeral 16 2 (memory ((start + (i + j)) % 2 ^ 64)))) : Except Fault (List Text)) := by
    apply mapM_eq_pure_map
    intro i mem
    obtain ⟨k, rfl, below⟩ := (mem_stepRange (by decide)).mp mem
    obtain ⟨count, rfl⟩ := whole
    exact printLine_eq (by omega)
  rw [printLines, lines]
  rfl

theorem readInto_eq {buf : List Nat} (fits : len ≤ buf.length) :
    readInto memory start len buf = .ok (bytesFrom memory start len ++ buf.drop len) := by
  rw [readInto, if_pos fits, memifRead_eq]

/-- Sections that fit the buffer are printed one after another. -/
theorem printSections_eq {buf : List Nat} {ranges : List (Nat × Nat)}
    (whole : ∀ range ∈ ranges, 16 ∣ addrSub range.2 range.1) (short : buf.length < 2 ^ 63)
    (fits : ∀ range ∈ ranges, addrSub range.2 range.1 ≤ buf.length) :
    printSections memory buf ranges =
      .ok (ranges.map fun range => printed memory range.1 (addrSub range.2 range.1)).flatten := by
  induction ranges generalizing buf with
  | nil => rfl
  | cons range ranges ih =>
      have dataFits := fits range List.mem_cons_self
      have dataWhole := whole range List.mem_cons_self
      have length : (bytesFrom memory range.1 (addrSub range.2 range.1) ++
          buf.drop (addrSub range.2 range.1)).length = buf.length := by
        rw [List.length_append, length_bytesFrom, List.length_drop]
        omega
      have others := ih (fun other mem => whole other (List.mem_cons_of_mem _ mem))
        (length.symm ▸ short) fun other mem => length.symm ▸ fits other (List.mem_cons_of_mem _ mem)
      rw [printSections, allocate, if_pos (by omega), readInto_eq dataFits, assertWhole,
        if_pos (Nat.mod_eq_zero_of_dvd dataWhole)]
      simp only [ok_bind, printLines_eq dataWhole, others]
      rfl

/-- Sections that were printed fit the buffer. -/
theorem fits_of_printSections {buf : List Nat} {ranges : List (Nat × Nat)} {text : Text}
    (ok : printSections memory buf ranges = .ok text) :
    ∀ range ∈ ranges, addrSub range.2 range.1 ≤ buf.length := by
  induction ranges generalizing buf text with
  | nil => exact fun _ mem => absurd mem List.not_mem_nil
  | cons range ranges ih =>
      obtain ⟨_, _, ok⟩ := bind_eq_ok_iff.mp ok
      obtain ⟨filled, read, ok⟩ := bind_eq_ok_iff.mp ok
      obtain ⟨_, _, ok⟩ := bind_eq_ok_iff.mp ok
      obtain ⟨_, _, ok⟩ := bind_eq_ok_iff.mp ok
      obtain ⟨_, others, _⟩ := bind_eq_ok_iff.mp ok
      rw [readInto] at read
      split at read
      · rename_i dataFits
        cases read
        have rest := ih others
        rw [memifRead_eq, List.length_append, length_bytesFrom, List.length_drop,
          Nat.add_sub_cancel' dataFits] at rest
        rw [List.forall_mem_cons]
        exact ⟨dataFits, rest⟩
      · cases read

theorem length_printed (small : ∀ addr, memory addr < 256) :
    (printed memory start len).length = 33 * ((len + 15) / 16) := by
  have row : ∀ i, (line ((List.range 16).reverse.flatMap fun j =>
      numeral 16 2 (memory ((start + (i + j)) % 2 ^ 64)))).length = 33 := by
    intro i
    have columns : ∀ j, (numeral 16 2 (memory ((start + (i + j)) % 2 ^ 64))).length = 2 :=
      fun j => numeral_length (by decide) (by decide) (small _)
    rw [line, List.length_append, List.length_flatMap]
    simp only [columns]
    rfl
  rw [printed, List.length_flatten, List.map_map]
  have lengths : (List.length ∘ fun i => line ((List.range 16).reverse.flatMap fun j =>
      numeral 16 2 (memory ((start + (i + j)) % 2 ^ 64)))) = fun _ => 33 :=
    funext row
  rw [lengths, List.map_const', List.sum_replicate, stepRange, List.length_range', smul_eq_mul,
    Nat.mul_comm]
  congr 2

end Print

/-! ## The two printers -/

/-- The lines that the host writes for a range of addresses. -/
def hostLines (word : Nat → Nat) (range : Nat × Nat) : Text :=
  ((recordAddrs range).map (record word)).flatten

theorem length_record {word : Nat → Nat} (fits : ∀ addr, word addr < 16 ^ 16) (addr : Nat) :
    (record word addr).length = 33 := by
  rw [record, line, List.length_append, List.length_append,
    numeral_length (by decide) (by decide) (fits (addr + 8)),
    numeral_length (by decide) (by decide) (fits addr)]
  rfl

theorem length_hostLines {word : Nat → Nat} (fits : ∀ addr, word addr < 16 ^ 16)
    (range : Nat × Nat) : (hostLines word range).length = 33 * ((range.2 - range.1) / 16) := by
  have lengths : List.length ∘ record word = fun _ => 33 := funext (length_record fits)
  rw [hostLines, List.length_flatten, List.map_map, lengths, List.map_const', List.sum_replicate,
    recordAddrs_length, smul_eq_mul, Nat.mul_comm]

/-- For a range in order that ends inside the address space both print the same. -/
theorem printed_eq_hostLines {memory : ByteMemory} (small : ∀ addr, memory addr < 256)
    {range : Nat × Nat} (ordered : range.1 ≤ range.2)
    (inside : range.2 < 2 ^ 64) (whole : 16 ∣ range.2 - range.1) :
    printed memory range.1 (range.2 - range.1) = hostLines (memory.read 8) range := by
  obtain ⟨count, length⟩ := whole
  have steps : stepRange 0 (range.2 - range.1) 16 = List.range' 0 count 16 := by
    have stop : range.2 - range.1 = 0 + 16 * count := by omega
    rw [stop, stepRange_add_mul _ _ _ (by decide)]
  have addrs : recordAddrs range = (List.range' 0 count 16).map (range.1 + ·) := by
    rw [recordAddrs, length, Nat.mul_div_cancel_left _ (by decide), List.map_add_range']
    rfl
  rw [printed, hostLines, steps, addrs, List.map_map]
  congr 1
  apply List.map_congr_left
  intro i mem
  obtain ⟨k, below, rfl⟩ := List.mem_range'.mp mem
  rw [Function.comp_apply, record_eq_bytes small]
  congr 1
  apply List.flatMap_congr
  intro j mem
  have bound := List.mem_range.mp (List.mem_reverse.mp mem)
  rw [Nat.mod_eq_of_lt (by omega)]
  simp only [Nat.add_assoc]

theorem addrSub_of_le {start stop : Nat} (ordered : start ≤ stop) (inside : stop < 2 ^ 64) :
    addrSub stop start = stop - start := by
  rw [addrSub, show stop + (2 ^ 64 - start) = stop - start + 2 ^ 64 by omega, Nat.add_mod_right,
    Nat.mod_eq_of_lt (by omega)]

theorem addrSub_of_lt {start stop : Nat} (reversed : stop < start) (inside : start < 2 ^ 64) :
    addrSub stop start = 2 ^ 64 - (start - stop) := by
  rw [addrSub, Nat.mod_eq_of_lt (by omega)]
  omega

/-- Half of the comparison: the simulator prints at least the host's lines. -/
theorem hostCount_le {range : Nat × Nat} (bounds : range.1 < 2 ^ 64 ∧ range.2 < 2 ^ 64) :
    (range.2 - range.1) / 16 ≤ (addrSub range.2 range.1 + 15) / 16 := by
  rcases Nat.le_total range.1 range.2 with ordered | reversed
  · rw [addrSub_of_le ordered bounds.2]
    omega
  · rw [Nat.sub_eq_zero_of_le reversed]
    omega

/-- The simulator prints more lines for a range whose ends are exchanged. -/
theorem hostCount_lt {range : Nat × Nat} (bounds : range.1 < 2 ^ 64 ∧ range.2 < 2 ^ 64)
    (reversed : range.2 < range.1) :
    (range.2 - range.1) / 16 < (addrSub range.2 range.1 + 15) / 16 := by
  rw [addrSub_of_lt reversed bounds.1, Nat.sub_eq_zero_of_le reversed.le]
  omega

section Host

variable {hostMemory : Dict Nat Nat} {word : Nat → Nat}

theorem dumpRange_hostLines {range : Nat × Nat} (bounds : range.1 < 2 ^ 64 ∧ range.2 < 2 ^ 64)
    (whole : 16 ∣ addrSub range.2 range.1) (holds : Holds hostMemory word range) :
    dumpRange hostMemory range.1 range.2 = some (hostLines word range) := by
  rcases Nat.le_total range.1 range.2 with ordered | reversed
  · rw [addrSub_of_le ordered bounds.2] at whole
    exact dumpRange_eq holds ordered whole
  · have none : stepRange range.1 range.2 16 = [] := by
      simp [stepRange, Nat.sub_eq_zero_of_le reversed]
    have noRecord : recordAddrs range = [] := by
      simp [recordAddrs, Nat.sub_eq_zero_of_le reversed]
    rw [dumpRange, none, hostLines, noRecord]
    rfl

theorem saveSignature_hostLines {block : Nat × Nat} {ranges : List (Nat × Nat)}
    (bounds : ∀ range ∈ block :: ranges, range.1 < 2 ^ 64 ∧ range.2 < 2 ^ 64)
    (whole : ∀ range ∈ block :: ranges, 16 ∣ addrSub range.2 range.1)
    (holds : ∀ range ∈ block :: ranges, Holds hostMemory word range) :
    saveSignature hostMemory block.1 block.2 ranges =
      some ((block :: ranges).map (hostLines word)).flatten := by
  have dumped : ∀ range ∈ block :: ranges,
      dumpRange hostMemory range.1 range.2 = some (hostLines word range) := fun range mem =>
    dumpRange_hostLines (bounds range mem) (whole range mem) (holds range mem)
  have data : ranges.mapM (fun range => dumpRange hostMemory range.1 range.2) =
      some (ranges.map (hostLines word)) :=
    mapM_eq_some_map fun range mem => dumped range (List.mem_cons_of_mem _ mem)
  rw [saveSignature, dumped block List.mem_cons_self, data]
  rfl

end Host

namespace SectionLayout

variable {layout : SectionLayout} {symbols : Symbols}

/-- The signature block, then the data sections. -/
def ranges (layout : SectionLayout) : List (Nat × Nat) :=
  (layout.sigStart, layout.sigEnd) :: layout.dataAddrs

theorem bounds (layout : SectionLayout) :
    ∀ range ∈ layout.ranges, range.1 < 2 ^ 64 ∧ range.2 < 2 ^ 64 := by
  intro range mem
  rcases List.mem_cons.mp mem with rfl | data
  · exact ⟨layout.sigStart_lt, layout.sigEnd_lt⟩
  · obtain ⟨i, listed, rfl⟩ := List.mem_map.mp data
    have below := List.mem_range.mp listed
    exact ⟨layout.dataStart_lt i below, layout.dataEnd_lt i below⟩

/-- The fields that `load_program` sets. -/
theorem Resolves.loadProgram_eq (resolves : layout.Resolves symbols) :
    loadProgram symbols = {
      sigAddr := layout.sigStart
      sigLen := addrSub layout.sigEnd layout.sigStart
      dataAddrs := layout.dataAddrs } := by
  have sections : (List.range 6).filterMap (sectionRange symbols) = layout.dataAddrs := by
    rw [dataAddrs, ← List.filterMap_eq_map]
    apply List.filterMap_congr
    intro i mem
    have below := List.mem_range.mp mem
    rw [sectionRange, resolves.dataStart i below, resolves.dataEnd i below]
    rfl
  rw [loadProgram, resolves.sigStart, resolves.sigEnd, sections]

end SectionLayout

/-! ## When both texts agree -/

/-- The text that the simulator prints for a list of ranges. -/
def printedRanges (memory : ByteMemory) (ranges : List (Nat × Nat)) : Text :=
  (ranges.map fun range => printed memory range.1 (addrSub range.2 range.1)).flatten

section Stop

variable {memory : ByteMemory} {block : Nat × Nat} {ranges : List (Nat × Nat)}

/-- A nonempty signature that a vector can hold, and sections that fit it. -/
theorem stop_eq_printedRanges (nonempty : addrSub block.2 block.1 ≠ 0)
    (short : addrSub block.2 block.1 < 2 ^ 63)
    (whole : ∀ range ∈ block :: ranges, 16 ∣ addrSub range.2 range.1)
    (fits : ∀ range ∈ ranges, addrSub range.2 range.1 ≤ addrSub block.2 block.1) :
    Htif.stop ⟨block.1, addrSub block.2 block.1, ranges⟩ memory =
      .ok (some (printedRanges memory (block :: ranges))) := by
  have blockWhole := whole block List.mem_cons_self
  have room : addrSub block.2 block.1 ≤ (List.replicate (addrSub block.2 block.1) 0).length :=
    List.length_replicate.ge
  have length : (bytesFrom memory block.1 (addrSub block.2 block.1) ++
      (List.replicate (addrSub block.2 block.1) 0).drop (addrSub block.2 block.1)).length =
        addrSub block.2 block.1 := by
    rw [List.length_append, length_bytesFrom, List.length_drop, List.length_replicate]
    omega
  have sections := @printSections_eq memory _ ranges
    (fun range mem => whole range (List.mem_cons_of_mem _ mem)) (length.symm ▸ short)
    fun range mem => length.symm ▸ fits range mem
  rw [Htif.stop, if_neg nonempty, allocate, if_pos short, ok_bind, readInto_eq room, ok_bind,
    assertWhole, if_pos (Nat.mod_eq_zero_of_dvd blockWhole), ok_bind, printLines_eq blockWhole,
    ok_bind, sections]
  rfl

/-- A run of `stop` that prints something met its bounds. -/
theorem fits_of_stop {text : Option Text} (nonempty : addrSub block.2 block.1 ≠ 0)
    (ok : Htif.stop ⟨block.1, addrSub block.2 block.1, ranges⟩ memory = .ok text) :
    addrSub block.2 block.1 < 2 ^ 63 ∧
      ∀ range ∈ ranges, addrSub range.2 range.1 ≤ addrSub block.2 block.1 := by
  rw [Htif.stop, if_neg nonempty] at ok
  obtain ⟨buf, allocated, ok⟩ := bind_eq_ok_iff.mp ok
  rw [allocate] at allocated
  split at allocated
  · rename_i short
    cases allocated
    have room : addrSub block.2 block.1 ≤ (List.replicate (addrSub block.2 block.1) 0).length :=
      List.length_replicate.ge
    rw [readInto_eq room, ok_bind] at ok
    obtain ⟨_, _, ok⟩ := bind_eq_ok_iff.mp ok
    obtain ⟨_, _, ok⟩ := bind_eq_ok_iff.mp ok
    obtain ⟨_, sections, _⟩ := bind_eq_ok_iff.mp ok
    have fits := fits_of_printSections sections
    rw [List.length_append, length_bytesFrom, List.length_drop, List.length_replicate,
      Nat.sub_self, Nat.add_zero] at fits
    exact ⟨short, fits⟩
  · cases allocated

/-- Two texts of the same length come from ranges in order. -/
theorem ordered_of_length_eq (small : ∀ addr, memory addr < 256)
    (bounds : ∀ range ∈ ranges, range.1 < 2 ^ 64 ∧ range.2 < 2 ^ 64)
    (same : (printedRanges memory ranges).length =
      ((ranges.map (hostLines (memory.read 8))).flatten).length) :
    ∀ range ∈ ranges, range.1 ≤ range.2 := by
  have fits : ∀ addr, memory.read 8 addr < 16 ^ 16 := by
    have same : (256 : Nat) ^ 8 = 16 ^ 16 := by norm_num
    exact fun addr => same ▸ ByteMemory.read_lt small 8 addr
  intro range mem
  by_contra reversed
  rw [printedRanges, List.length_flatten, List.length_flatten, List.map_map, List.map_map] at same
  have less : (ranges.map (List.length ∘ hostLines (memory.read 8))).sum <
      (ranges.map (List.length ∘ fun range =>
        printed memory range.1 (addrSub range.2 range.1))).sum := by
    apply List.sum_lt_sum
    · intro other otherMem
      rw [Function.comp_apply, Function.comp_apply, length_hostLines fits, length_printed small]
      exact Nat.mul_le_mul_left 33 (hostCount_le (bounds other otherMem))
    · refine ⟨range, mem, ?_⟩
      rw [Function.comp_apply, Function.comp_apply, length_hostLines fits, length_printed small]
      exact Nat.mul_lt_mul_of_pos_left (hostCount_lt (bounds range mem) (not_le.mp reversed))
        (by decide)
  exact absurd same less.ne'

end Stop

/-- For the same memory contents the simulator stays inside its buffer and prints
the lines that the host writes exactly when the layout fits the buffer. -/
theorem stop_eq_saveSignature_iff {layout : SectionLayout} {symbols : Symbols}
    (resolves : layout.Resolves symbols) (whole : layout.Whole) {memory : ByteMemory}
    (small : ∀ addr, memory addr < 256) {hostMemory : Dict Nat Nat}
    (holds : ∀ range ∈ layout.ranges, Holds hostMemory (memory.read 8) range) :
    ((∀ index, (loadProgram symbols).stop memory ≠ .error (.outOfBounds index)) ∧
      ∃ text, (loadProgram symbols).stop memory = .ok text ∧
        saveSignature hostMemory layout.sigStart layout.sigEnd layout.dataAddrs =
          some (text.getD [])) ↔
      layout.FitsBuffer := by
  have allWhole : ∀ range ∈ layout.ranges, 16 ∣ addrSub range.2 range.1 :=
    List.forall_mem_cons.mpr whole
  have hostText := saveSignature_hostLines layout.bounds allWhole holds
  have blockBounds := layout.bounds _ List.mem_cons_self
  have dataBounds := fun range mem => layout.bounds range (List.mem_cons_of_mem _ mem)
  have fits : ∀ addr, memory.read 8 addr < 16 ^ 16 := by
    have same : (256 : Nat) ^ 8 = 16 ^ 16 := by norm_num
    exact fun addr => same ▸ ByteMemory.read_lt small 8 addr
  rw [resolves.loadProgram_eq, SectionLayout.FitsBuffer]
  dsimp only at hostText
  rw [hostText]
  by_cases empty : layout.sigStart = layout.sigEnd
  · have zero : addrSub layout.sigEnd layout.sigStart = 0 := by
      rw [addrSub_of_le empty.le layout.sigEnd_lt, empty, Nat.sub_self]
    rw [if_pos empty, Htif.stop, if_pos zero]
    constructor
    · rintro ⟨_, text, stopped, hostSame⟩
      cases stopped
      intro range mem
      by_contra ordered
      have noLines := List.flatten_eq_nil_iff.mp (Option.some.inj hostSame) _
        (List.mem_map_of_mem (List.mem_cons_of_mem _ mem))
      have length := length_hostLines fits range
      have dataWhole := whole.2 range mem
      rw [addrSub_of_le (by omega) (dataBounds range mem).2] at dataWhole
      rw [noLines, List.length_nil] at length
      omega
    · intro reversed
      refine ⟨fun index => by simp, none, rfl, ?_⟩
      have noLines : ((layout.ranges).map (hostLines (memory.read 8))).flatten = [] := by
        apply List.length_eq_zero_iff.mp
        rw [List.length_flatten, List.map_map]
        apply List.sum_eq_zero
        intro count mem
        obtain ⟨range, rangeMem, rfl⟩ := List.mem_map.mp mem
        rw [Function.comp_apply, length_hostLines fits]
        rcases List.mem_cons.mp rangeMem with rfl | data
        · simp [empty]
        · rw [Nat.sub_eq_zero_of_le (reversed range data)]
          rfl
      exact congrArg some noLines
  · have nonempty : addrSub layout.sigEnd layout.sigStart ≠ 0 := by
      rcases Nat.le_total layout.sigStart layout.sigEnd with ordered | reversed
      · rw [addrSub_of_le ordered blockBounds.2]
        omega
      · rw [addrSub_of_lt (by omega) blockBounds.1]
        have bound := blockBounds.1
        dsimp only at bound
        omega
    rw [if_neg empty]
    constructor
    · rintro ⟨_, text, stopped, hostSame⟩
      obtain ⟨short, dataFits⟩ :=
        @fits_of_stop _ (layout.sigStart, layout.sigEnd) _ _ nonempty stopped
      rw [@stop_eq_printedRanges _ (layout.sigStart, layout.sigEnd) _ nonempty short allWhole
        dataFits] at stopped
      cases stopped
      have ordered := ordered_of_length_eq small layout.bounds
        (congrArg List.length (Option.some.inj hostSame)).symm
      have blockOrdered := ordered _ List.mem_cons_self
      dsimp only at blockOrdered
      rw [addrSub_of_le blockOrdered layout.sigEnd_lt] at short dataFits
      refine ⟨blockOrdered, short, ?_⟩
      intro range mem
      have dataOrdered := ordered range (List.mem_cons_of_mem _ mem)
      have inBuffer := dataFits range mem
      rw [addrSub_of_le dataOrdered (dataBounds range mem).2] at inBuffer
      exact ⟨dataOrdered, inBuffer⟩
    · rintro ⟨blockOrdered, short, data⟩
      have ordered : ∀ range ∈ layout.ranges, range.1 ≤ range.2 :=
        List.forall_mem_cons.mpr ⟨blockOrdered, fun range mem => (data range mem).1⟩
      have lengths : ∀ range ∈ layout.ranges, addrSub range.2 range.1 = range.2 - range.1 :=
        fun range mem => addrSub_of_le (ordered range mem) (layout.bounds range mem).2
      have blockLength := lengths _ List.mem_cons_self
      dsimp only at blockLength
      have stopped := @stop_eq_printedRanges memory (layout.sigStart, layout.sigEnd)
        layout.dataAddrs nonempty (blockLength ▸ short) allWhole (by
          intro range mem
          rw [lengths range (List.mem_cons_of_mem _ mem), blockLength]
          exact (data range mem).2)
      refine ⟨fun index => by rw [stopped]; simp, _, stopped, ?_⟩
      rw [Option.getD_some, printedRanges]
      congr 2
      apply List.map_congr_left
      intro range mem
      have rangeWhole := allWhole range mem
      rw [lengths range mem] at rangeWhole ⊢
      exact (printed_eq_hostLines small (ordered range mem) (layout.bounds range mem).2
        rangeWhole).symm

/-- A symbol table with the symbols of a layout and no others. -/
def SectionLayout.symbols (layout : SectionLayout) : Symbols := fun name =>
  if name = "begin_signature" then some layout.sigStart
  else if name = "end_signature" then some layout.sigEnd
  else
    match (List.range 6).find? fun i => dataStartSymbol i = name with
    | some i => some (layout.dataStart i)
    | none => ((List.range 6).find? fun i => dataEndSymbol i = name).map layout.dataEnd

theorem SectionLayout.resolves_symbols (layout : SectionLayout) :
    layout.Resolves layout.symbols := by
  have starts : ∀ i < 6, dataStartSymbol i ≠ "begin_signature" ∧
      dataStartSymbol i ≠ "end_signature" ∧
      ((List.range 6).find? fun j => dataStartSymbol j = dataStartSymbol i) = some i := by
    decide
  have ends : ∀ i < 6, dataEndSymbol i ≠ "begin_signature" ∧ dataEndSymbol i ≠ "end_signature" ∧
      ((List.range 6).find? fun j => dataStartSymbol j = dataEndSymbol i) = none ∧
      ((List.range 6).find? fun j => dataEndSymbol j = dataEndSymbol i) = some i := by
    decide
  constructor
  · rfl
  · rfl
  · intro i below
    obtain ⟨notBegin, notEnd, found⟩ := starts i below
    rw [symbols, if_neg notBegin, if_neg notEnd, found]
  · intro i below
    obtain ⟨notBegin, notEnd, notStart, found⟩ := ends i below
    rw [symbols, if_neg notBegin, if_neg notEnd, notStart, found]
    rfl

/-- A signature of one record, and data sections of the given length a page apart. -/
def pagesLayout (dataLen : Nat) (short : dataLen < 2 ^ 12) : SectionLayout where
  sigStart := 0x80001000
  sigEnd := 0x80001010
  dataStart := fun i => 0x80002000 + 0x1000 * i
  dataEnd := fun i => 0x80002000 + 0x1000 * i + dataLen
  sigStart_lt := by decide
  sigEnd_lt := by decide
  dataStart_lt := by
    intro i below
    omega
  dataEnd_lt := by
    intro i below
    omega

/-- Every byte is the low byte of its address. -/
def countingMemory : ByteMemory := fun addr => addr % 256

/-- The words of the counting memory in the signature and the data sections. -/
def countingWords : Dict Nat Nat :=
  ((pagesLayout 16 (by decide)).ranges.flatMap fun range => [range.1, range.1 + 8]).foldl
    (fun memory addr => memory.set addr (countingMemory.read 8 addr)) Dict.empty

theorem stop_eq_saveSignature_iff_pages : ∃ text,
    (loadProgram (pagesLayout 16 (by decide)).symbols).stop countingMemory = .ok text ∧
      saveSignature countingWords 0x80001000 0x80001010 (pagesLayout 16 (by decide)).dataAddrs =
        some (text.getD []) := by
  have whole : (pagesLayout 16 (by decide)).Whole := by
    constructor
    · rfl
    · decide
  have fits : (pagesLayout 16 (by decide)).FitsBuffer := by
    rw [SectionLayout.FitsBuffer]
    decide
  have words : ∀ range ∈ (pagesLayout 16 (by decide)).ranges, ∀ k < 2,
      range.2 = range.1 + 16 ∧ countingWords.get? (range.1 + 8 * k) =
        some (countingMemory.read 8 (range.1 + 8 * k)) := by
    decide
  have small : ∀ addr, countingMemory addr < 256 := fun addr => Nat.mod_lt addr (by decide)
  have holds : ∀ range ∈ (pagesLayout 16 (by decide)).ranges,
      Holds countingWords (countingMemory.read 8) range := by
    intro range mem addr lower upper aligned
    obtain ⟨k, offset⟩ := aligned
    have stop := (words range mem 0 (by decide)).1
    have place : addr = range.1 + 8 * k := by omega
    have same : (256 : Nat) ^ 8 = 2 ^ 64 := by norm_num
    rw [place]
    exact ⟨(words range mem k (by omega)).2, same ▸ ByteMemory.read_lt small 8 _⟩
  exact ((stop_eq_saveSignature_iff (SectionLayout.resolves_symbols _) whole small holds).mpr fits).2

/-- A data section of two records is read past the end of a buffer for one. -/
theorem stop_overruns :
    (pagesLayout 32 (by decide)).Resolves (pagesLayout 32 (by decide)).symbols ∧
      (pagesLayout 32 (by decide)).Whole ∧
      (loadProgram (pagesLayout 32 (by decide)).symbols).stop countingMemory =
        .error (.outOfBounds 16) := by
  refine ⟨SectionLayout.resolves_symbols _, ⟨?_, ?_⟩, ?_⟩
  · rfl
  · decide
  · rw [(SectionLayout.resolves_symbols _).loadProgram_eq]
    rfl

end Difftest.Spike
