import Difftest.Elf.Exact
import Difftest.Spike.ChunkedMemif
import Difftest.Spike.Mmu

/-!
# Loading a program into the simulator

The simulator checks the header of the file, writes the segments through the memory
interface of the host in the order of the program headers, first the bytes of the file and
then zeros, and reads the symbols.  Sums wrap around in the size of an address of the file,
and what the code asserts ends the simulator.
-/

namespace Difftest.Spike

open ByteMemory Elf

/-! ## Headers -/

/-- `Elf32_Ehdr` to `Elf32_Sym` and their 64-bit counterparts: the fields that only this
loader reads. -/
structure FullLayout extends Layout where
  pPaddrOffset : Nat
  eShoffOffset : Nat
  eShnumOffset : Nat
  eShstrndxOffset : Nat
  shdrSize : Nat
  shOffsetOffset : Nat
  shSizeOffset : Nat
  symSize : Nat
  stValueOffset : Nat

/-- ELF32. -/
def fullElf32 : FullLayout where
  toLayout := elf32
  pPaddrOffset := 12
  eShoffOffset := 32
  eShnumOffset := 48
  eShstrndxOffset := 50
  shdrSize := 40
  shOffsetOffset := 16
  shSizeOffset := 20
  symSize := 16
  stValueOffset := 4

/-- ELF64. -/
def fullElf64 : FullLayout where
  toLayout := elf64
  pPaddrOffset := 24
  eShoffOffset := 40
  eShnumOffset := 60
  eShstrndxOffset := 62
  shdrSize := 64
  shOffsetOffset := 24
  shSizeOffset := 32
  symSize := 24
  stValueOffset := 8

/-- The layout that `IS_ELF32` selects. -/
def fullLayout (buf : List UInt8) : FullLayout := if byteOf buf 4 = 1 then fullElf32 else fullElf64

/-- A field of the file, which is little-endian. -/
def fieldAt (buf : List UInt8) (width offset : Nat) : Nat := unpack .little width buf offset

/-- A field of the size of an address. -/
def wordAt (buf : List UInt8) (offset : Nat) : Nat := fieldAt buf (fullLayout buf).wordSize offset

/-- The numbers that an address of the file can be. -/
def wordRange (buf : List UInt8) : Nat := 256 ^ (fullLayout buf).wordSize

/-- A program header. -/
structure Phdr where
  type : Nat
  offset : Nat
  paddr : Nat
  filesz : Nat
  memsz : Nat
deriving DecidableEq, Repr

/-- `ph[i]`. -/
def phdrAt (buf : List UInt8) (i : Nat) : Phdr :=
  let fields := fullLayout buf
  let base := wordAt buf fields.ePhoffOffset + i * fields.phSize
  { type := fieldAt buf 4 (base + fields.pTypeOffset)
    offset := wordAt buf (base + fields.pOffsetOffset)
    paddr := wordAt buf (base + fields.pPaddrOffset)
    filesz := wordAt buf (base + fields.pFileszOffset)
    memsz := wordAt buf (base + fields.pMemszOffset) }

/-- A section header. -/
structure Shdr where
  name : Nat
  type : Nat
  offset : Nat
  size : Nat
deriving DecidableEq, Repr

/-- `sh[i]`. -/
def shdrAt (buf : List UInt8) (i : Nat) : Shdr :=
  let fields := fullLayout buf
  let base := wordAt buf fields.eShoffOffset + i * fields.shdrSize
  { name := fieldAt buf 4 base
    type := fieldAt buf 4 (base + 4)
    offset := wordAt buf (base + fields.shOffsetOffset)
    size := wordAt buf (base + fields.shSizeOffset) }

/-! ## Symbols -/

/-- `strnlen`. -/
def strnlen (buf : List UInt8) (start maxLen : Nat) : Nat :=
  (((buf.drop start).take maxLen).takeWhile (· ≠ 0)).length

/-- The string at a place of the file. -/
def cString (buf : List UInt8) (start : Nat) : List UInt8 := (buf.drop start).takeWhile (· ≠ 0)

/-- The bytes of an ASCII text. -/
def asciiBytes (text : String) : List UInt8 := text.toList.map fun c => UInt8.ofNat c.toNat

/-- A name in a table of strings ends in the table. -/
def NamedIn (buf : List UInt8) (table : Shdr) (name : Nat) : Prop :=
  let maxLen := (2 ^ 64 + table.size - name) % 2 ^ 32
  name < table.size ∧ strnlen buf (table.offset + name) maxLen < maxLen

instance (buf : List UInt8) (table : Shdr) (name : Nat) : Decidable (NamedIn buf table name) := by
  unfold NamedIn
  infer_instance

/-- `SHT_NOBITS`. -/
def shtNobits : Nat := 8

/-- One turn of the loop over the sections: `strtabidx` and `symtabidx`. -/
def sectionTurn (buf : List UInt8) (names : Shdr) (found : Nat × Nat) (i : Nat) :
    Except Trap (Nat × Nat) :=
  let sh := shdrAt buf i
  if ¬ NamedIn buf names sh.name then .error .aborted
  else if sh.type &&& shtNobits ≠ 0 then .ok found
  else if buf.length < (sh.offset + sh.size) % wordRange buf then .error .aborted
  else
    let name := cString buf (names.offset + sh.name)
    .ok (if name = asciiBytes ".strtab" then i else found.1,
      if name = asciiBytes ".symtab" then i else found.2)

/-- One turn of the loop over the symbols. -/
def symbolTurn (buf : List UInt8) (strtab symtab : Shdr) (symbols : Dict (List UInt8) Nat) (i : Nat) :
    Except Trap (Dict (List UInt8) Nat) :=
  let base := symtab.offset + i * (fullLayout buf).symSize
  let name := fieldAt buf 4 base
  if ¬ NamedIn buf strtab name then .error .aborted
  else
    .ok (symbols.set (cString buf (strtab.offset + name))
      (wordAt buf (base + (fullLayout buf).stValueOffset)))

/-- The part of `load_elf` about sections and symbols. -/
def loadSymbols (buf : List UInt8) : Except Trap (Dict (List UInt8) Nat) :=
  let fields := fullLayout buf
  let eShnum := fieldAt buf 2 fields.eShnumOffset
  let eShstrndx := fieldAt buf 2 fields.eShstrndxOffset
  let names := shdrAt buf eShstrndx
  if buf.length < (wordAt buf fields.eShoffOffset + eShnum * fields.shdrSize) % 2 ^ 64 then
    .error .aborted
  else if eShnum ≤ eShstrndx then .error .aborted
  else if buf.length < (names.offset + names.size) % wordRange buf then .error .aborted
  else do
    let found ← (List.range eShnum).foldlM (sectionTurn buf names) (0, 0)
    if found.1 ≠ 0 ∧ found.2 ≠ 0 then
      let symtab := shdrAt buf found.2
      (List.range (symtab.size / fields.symSize)).foldlM
        (symbolTurn buf (shdrAt buf found.1) symtab) Dict.empty
    else return Dict.empty

/-! ## Segments -/

section Load

variable {σ : Type}

/-- One turn of the loop over the program headers. -/
def writeSegment (memif : ChunkedMemif Trap σ) (buf : List UInt8) (ph : Phdr) : EStateM Trap σ Unit :=
  if ph.type = 1 ∧ ph.memsz ≠ 0 then do
    if ph.filesz ≠ 0 then
      if buf.length < (ph.offset + ph.filesz) % wordRange buf then throw .aborted
      memif.write ph.paddr (((buf.drop ph.offset).take ph.filesz).map UInt8.toNat)
    let zeros := (wordRange buf + ph.memsz - ph.filesz) % wordRange buf
    -- `resize` throws `std::length_error`
    if 2 ^ 63 ≤ zeros then throw .aborted
    memif.write ((ph.paddr + ph.filesz) % wordRange buf) (List.replicate zeros 0)
  else return ()

/-- `load_elf`: the entry point and the symbols. -/
def loadElf (memif : ChunkedMemif Trap σ) (buf : List UInt8) :
    EStateM Trap σ (Nat × Dict (List UInt8) Nat) := do
  let fields := fullLayout buf
  if buf.length < 64 then throw .aborted
  if ¬ (buf.take 4 = elfMagic ∧ (byteOf buf 4 = 1 ∨ byteOf buf 4 = 2)) then throw .aborted
  if byteOf buf 5 ≠ 1 then throw .aborted
  if fieldAt buf 2 16 ≠ 2 then throw .aborted
  if ¬ (fieldAt buf 2 18 = 243 ∨ fieldAt buf 2 18 = 0) then throw .aborted
  if fieldAt buf 4 20 ≠ 1 then throw .aborted
  let ePhnum := fieldAt buf 2 fields.ePhnumOffset
  if buf.length < (wordAt buf fields.ePhoffOffset + ePhnum * fields.phSize) % 2 ^ 64 then
    throw .aborted
  (List.range ePhnum).forM fun i => writeSegment memif buf (phdrAt buf i)
  match loadSymbols buf with
  | .ok symbols => return (wordAt buf 24, symbols)
  | .error trap => throw trap

/-! ## What is loaded -/

/-- The segments that the loop writes. -/
abbrev Phdr.Loads (ph : Phdr) : Prop := ph.type = 1 ∧ ph.memsz ≠ 0

/-- The address is in the part of the segment that the file provides. -/
abbrev Phdr.InFile (ph : Phdr) (addr : Nat) : Prop :=
  ph.paddr ≤ addr ∧ addr < ph.paddr + ph.filesz

/-- The address is in the segment. -/
abbrev Phdr.InMemory (ph : Phdr) (addr : Nat) : Prop :=
  ph.paddr ≤ addr ∧ addr < ph.paddr + ph.memsz

/-- The memory after a segment: the bytes of the file, then zeros. -/
def Phdr.placed (buf : List UInt8) (ph : Phdr) (memory : ByteMemory) : ByteMemory :=
  (memory.overwrite ph.paddr (((buf.drop ph.offset).take ph.filesz).map UInt8.toNat)).overwrite
    (ph.paddr + ph.filesz) (List.replicate (ph.memsz - ph.filesz) 0)

/-- A segment whose bytes are in the file and whose memory can be written. -/
structure Phdr.Writable (buf : List UInt8) (mapped : Nat → Prop) (ph : Phdr) : Prop where
  fits : ph.filesz ≤ ph.memsz
  inside : ph.offset + ph.filesz ≤ buf.length
  small : ph.memsz < 2 ^ 63
  word : ph.memsz < wordRange buf
  address : ph.paddr + ph.memsz ≤ wordRange buf
  isMapped : ChunkedMemif.InMapped mapped ph.paddr ph.memsz

variable {memif : ChunkedMemif Trap σ} {mapped : Nat → Prop} {holds : ByteMemory → σ → Prop}
  {memory : ByteMemory} {s : σ} {buf : List UInt8} {ph : Phdr}

theorem length_segmentBytes (inside : ph.offset + ph.filesz ≤ buf.length) :
    (((buf.drop ph.offset).take ph.filesz).map UInt8.toNat).length = ph.filesz := by
  rw [List.length_map, List.length_take, List.length_drop]
  omega

/-- A segment is written as it lies in the file, with zeros behind. -/
theorem writeSegment_succeeds (backs : memif.Backs mapped holds) (state : holds memory s)
    (load : ph.Loads) (writable : ph.Writable buf mapped) :
    Succeeds (writeSegment memif buf ph) s fun _ s' => holds (ph.placed buf memory) s' := by
  have fits := writable.fits
  have inside := writable.inside
  have address := writable.address
  have small := writable.small
  have length := length_segmentBytes inside
  have word := writable.word
  have zeros : (wordRange buf + ph.memsz - ph.filesz) % wordRange buf = ph.memsz - ph.filesz := by
    rw [Nat.add_sub_assoc fits, Nat.add_mod_left]
    exact Nat.mod_eq_of_lt (by omega)
  have fileInside : ¬ buf.length < (ph.offset + ph.filesz) % wordRange buf :=
    Nat.not_lt.mpr ((Nat.mod_le _ _).trans inside)
  have few : ¬ 2 ^ 63 ≤ ph.memsz - ph.filesz := by omega
  have cleared : ∀ {memory : ByteMemory} {s : σ}, holds memory s →
      Succeeds (memif.write ((ph.paddr + ph.filesz) % wordRange buf)
          (List.replicate (ph.memsz - ph.filesz) 0)) s fun _ s' =>
        holds (memory.overwrite (ph.paddr + ph.filesz) (List.replicate (ph.memsz - ph.filesz) 0))
          s' := by
    intro memory s state
    have zero : ∀ byte ∈ List.replicate (ph.memsz - ph.filesz) 0, byte < 256 := by
      intro byte mem
      rw [List.eq_of_mem_replicate mem]
      decide
    by_cases none : ph.memsz - ph.filesz = 0
    · rw [none, List.replicate_zero, overwrite_nil]
      have nothing := @ChunkedMemif.write_succeeds _ _ _ _ _ _ _ backs state
        ((ph.paddr + ph.filesz) % wordRange buf) [] (List.forall_mem_nil _)
      rw [overwrite_nil] at nothing
      have fits := writable.isMapped.fits
      have low := Nat.mod_le (ph.paddr + ph.filesz) (wordRange buf)
      exact nothing ⟨by rw [List.length_nil]; omega, fun place above below => by
        rw [List.length_nil] at below
        omega⟩
    · rw [Nat.mod_eq_of_lt (by omega)]
      apply ChunkedMemif.write_succeeds backs state zero
      rw [List.length_replicate]
      exact writable.isMapped.part (by omega)
  simp only [writeSegment, if_pos load, zeros, if_neg fileInside, if_neg few]
  apply Succeeds.ite
  · intro _
    apply Succeeds.bind
    · apply ChunkedMemif.write_succeeds backs state
      · intro byte mem
        obtain ⟨raw, _, rfl⟩ := List.mem_map.mp mem
        exact UInt8.toNat_lt raw
      · rw [length]
        exact writable.isMapped.part (show 0 + _ ≤ _ by omega)
    intro _ s' held
    exact cleared held
  · intro empty
    have noBytes : (memory.overwrite ph.paddr
        (((buf.drop ph.offset).take ph.filesz).map UInt8.toNat)) = memory := by
      rw [not_not.mp empty, List.take_zero, List.map_nil, overwrite_nil]
    rw [Phdr.placed, noBytes]
    exact cleared state

/-- The bytes of the memory after a segment. -/
theorem placed_apply (writable : ph.Writable buf mapped) (addr : Nat) :
    ph.placed buf memory addr =
      if ph.InFile addr then byteOf buf (ph.offset + (addr - ph.paddr))
      else if ph.InMemory addr then 0 else memory addr := by
  have fits := writable.fits
  have length := length_segmentBytes writable.inside
  by_cases inFile : ph.InFile addr
  · obtain ⟨j, rfl⟩ := Nat.exists_eq_add_of_le inFile.1
    have below : j < ph.filesz := by omega
    rw [if_pos inFile, Phdr.placed, overwrite_outside (by omega), overwrite_inside (by omega),
      Nat.add_sub_cancel_left, ← byteOf_take_drop below]
    exact List.getD_map _ (0 : UInt8) UInt8.toNat
  · rw [if_neg inFile, Phdr.placed]
    by_cases inMemory : ph.InMemory addr
    · obtain ⟨j, rfl⟩ := Nat.exists_eq_add_of_le (show ph.paddr + ph.filesz ≤ addr by omega)
      rw [if_pos inMemory, overwrite_inside (by rw [List.length_replicate]; omega),
        List.getD_eq_getElem _ _ (by rw [List.length_replicate]; omega), List.getElem_replicate]
    · rw [if_neg inMemory, overwrite_outside (by rw [List.length_replicate]; omega),
        overwrite_outside (by rw [length]; exact inFile)]

/-- The memory after a program header. -/
def place (buf : List UInt8) (memory : ByteMemory) (ph : Phdr) : ByteMemory :=
  if ph.Loads then ph.placed buf memory else memory

/-- The loop writes the segments in turn. -/
theorem writeSegments_succeeds (backs : memif.Backs mapped holds) {phs : List Phdr}
    (writable : ∀ ph ∈ phs, ph.Loads → ph.Writable buf mapped) :
    ∀ {memory : ByteMemory} {s : σ}, holds memory s →
      Succeeds (phs.forM (writeSegment memif buf)) s fun _ s' =>
        holds (phs.foldl (place buf) memory) s' := by
  induction phs with
  | nil =>
      intro memory s state
      exact Succeeds.pure state
  | cons ph rest inductionHypothesis =>
      intro memory s state
      rw [List.forM_eq_forM, List.forM_cons]
      have first : Succeeds (writeSegment memif buf ph) s fun _ s' =>
          holds (place buf memory ph) s' := by
        by_cases load : ph.Loads
        · rw [place, if_pos load]
          exact writeSegment_succeeds backs state load (writable ph List.mem_cons_self load)
        · rw [place, writeSegment, if_neg load, if_neg load]
          exact Succeeds.pure state
      apply Succeeds.bind first
      intro _ s' held
      exact inductionHypothesis (fun later mem => writable later (List.mem_cons_of_mem ph mem)) held

section Bytes

variable {phs : List Phdr} {addr : Nat}
  (writable : ∀ ph ∈ phs, ph.Loads → ph.Writable buf mapped)

include writable

/-- Segments elsewhere do not change a byte. -/
theorem foldl_place_outside (outside : ∀ ph ∈ phs, ph.Loads → ¬ ph.InMemory addr) :
    ∀ {memory : ByteMemory}, phs.foldl (place buf) memory addr = memory addr := by
  induction phs with
  | nil => exact rfl
  | cons ph rest inductionHypothesis =>
      intro memory
      rw [List.foldl_cons, inductionHypothesis
        (fun later mem => writable later (List.mem_cons_of_mem ph mem))
        fun later mem => outside later (List.mem_cons_of_mem ph mem), place]
      split
      · rename_i load
        have here := writable ph List.mem_cons_self load
        have apart := outside ph List.mem_cons_self load
        have fits := here.fits
        rw [placed_apply here, if_neg, if_neg apart]
        intro inFile
        exact apart ⟨inFile.1, by omega⟩
      · rfl

/-- A byte of the file is where its segment puts it, when no later segment lies there. -/
theorem foldl_place_inFile (apart : phs.Pairwise fun first second => first.Loads → second.Loads →
      ¬ (first.InMemory addr ∧ second.InMemory addr)) :
    ∀ {memory : ByteMemory}, ∀ ph ∈ phs, ph.Loads → ph.InFile addr →
      phs.foldl (place buf) memory addr = byteOf buf (ph.offset + (addr - ph.paddr)) := by
  induction phs with
  | nil =>
      intro memory ph mem
      cases mem
  | cons first rest inductionHypothesis =>
      intro memory ph mem load inFile
      have restWritable : ∀ ph ∈ rest, ph.Loads → ph.Writable buf mapped :=
        fun later mem => writable later (List.mem_cons_of_mem first mem)
      rw [List.pairwise_cons] at apart
      rcases List.mem_cons.mp mem with rfl | later
      · have here := writable ph List.mem_cons_self load
        have fits := here.fits
        have inMemory : ph.InMemory addr := ⟨inFile.1, inFile.2.trans_le (by omega)⟩
        rw [List.foldl_cons, foldl_place_outside restWritable fun other otherMem otherLoads inOther =>
          apart.1 other otherMem load otherLoads ⟨inMemory, inOther⟩, place, if_pos load,
          placed_apply here, if_pos inFile]
      · exact inductionHypothesis restWritable apart.2 ph later load inFile

/-- A byte that no segment has in the file stays zero. -/
theorem foldl_place_zero (outside : ∀ ph ∈ phs, ph.Loads → ¬ ph.InFile addr) :
    ∀ {memory : ByteMemory}, memory addr = 0 → phs.foldl (place buf) memory addr = 0 := by
  induction phs with
  | nil => exact id
  | cons ph rest inductionHypothesis =>
      intro memory zero
      rw [List.foldl_cons]
      apply inductionHypothesis (fun later mem => writable later (List.mem_cons_of_mem ph mem))
        fun later mem => outside later (List.mem_cons_of_mem ph mem)
      rw [place]
      split
      · rename_i load
        have here := outside ph List.mem_cons_self load
        rw [Phdr.InFile] at here
        rw [placed_apply (writable ph List.mem_cons_self load), if_neg here]
        split
        · rfl
        · exact zero
      · exact zero

end Bytes

/-! ## The image of the file -/

/-- `ph[i].p_vaddr`, which this loader does not read. -/
def vaddrAt (buf : List UInt8) (i : Nat) : Nat :=
  let fields := fullLayout buf
  wordAt buf (wordAt buf fields.ePhoffOffset + i * fields.phSize + fields.pVaddrOffset)

/-- A program header that is loaded where it is linked, as a segment. -/
def Phdr.segment (ph : Phdr) : Segment :=
  { offset := ph.offset, vaddr := ph.paddr, filesz := ph.filesz, memsz := ph.memsz }

/-- The segment of a program header, if it is a `PT_LOAD` one. -/
def Phdr.segment? (ph : Phdr) : Option Segment := if ph.type = 1 then some ph.segment else none

/-- A file that `load_elf` accepts, with its symbols; every program header is of the expected
size and is loaded where it is linked. -/
structure Accepted (buf : List UInt8) (symbols : Dict (List UInt8) Nat) : Prop where
  long : 64 ≤ buf.length
  magic : buf.take 4 = elfMagic
  elfClass : byteOf buf 4 = 1 ∨ byteOf buf 4 = 2
  order : byteOf buf 5 = 1
  exec : fieldAt buf 2 16 = 2
  machine : fieldAt buf 2 18 = 243 ∨ fieldAt buf 2 18 = 0
  version : fieldAt buf 4 20 = 1
  entries : ePhentsize buf = (layout buf).phSize
  table : ePhoff buf + ePhnum buf * (layout buf).phSize ≤ buf.length
  symbols : loadSymbols buf = .ok symbols
  linked : ∀ i < ePhnum buf, (phdrAt buf i).type = 1 → (phdrAt buf i).paddr = vaddrAt buf i

section Accepted

variable {symbols : Dict (List UInt8) Nat}

theorem fullLayout_toLayout (buf : List UInt8) : (fullLayout buf).toLayout = layout buf := by
  rw [fullLayout, layout]
  split
  · rfl
  · rfl

theorem Accepted.isElf (accepted : Accepted buf symbols) : IsElf buf := by
  have sizes : (layout buf).ePhnumOffset + 2 ≤ 64 := by
    rcases layout_eq buf with same | same
    · rw [same]
      decide
    · rw [same]
      decide
  have long := accepted.long
  refine ⟨accepted.magic, accepted.elfClass, Or.inl accepted.order, by omega, ?_⟩
  intro i below
  have table := accepted.table
  have entry : (i + 1) * (layout buf).phSize ≤ ePhnum buf * (layout buf).phSize :=
    Nat.mul_le_mul_right _ below
  rw [accepted.entries]
  rw [Nat.succ_mul] at entry
  omega

/-- The segments of the format are the program headers that the loader writes. -/
theorem Accepted.segmentAt_eq (accepted : Accepted buf symbols) {i : Nat} (below : i < ePhnum buf) :
    segmentAt buf (ePhoff buf + i * ePhentsize buf) = (phdrAt buf i).segment? := by
  have little : endian buf = .little := if_pos accepted.order
  have linked := accepted.linked i below
  have place : wordAt buf (fullLayout buf).ePhoffOffset + i * (fullLayout buf).phSize =
      ePhoff buf + i * ePhentsize buf := by
    rw [accepted.entries, ← fullLayout_toLayout, ePhoff, little, ← fullLayout_toLayout]
    rfl
  rw [segmentAt, little, ← place, ← fullLayout_toLayout, Phdr.segment?]
  by_cases load : (phdrAt buf i).type = 1
  · rw [if_pos load, Phdr.segment, linked load]
    exact if_pos load
  · rw [if_neg load]
    exact if_neg load

/-- All program headers of the file. -/
def phdrs (buf : List UInt8) : List Phdr := (List.range (ePhnum buf)).map (phdrAt buf)

theorem Accepted.ptLoad_eq (accepted : Accepted buf symbols) :
    ptLoad buf = (phdrs buf).filterMap Phdr.segment? := by
  rw [ptLoad, phdrs, List.filterMap_map]
  apply List.filterMap_congr
  intro i mem
  rw [Function.comp_apply]
  exact accepted.segmentAt_eq (List.mem_range.mp mem)

/-- The segments of the format and the program headers that are loaded are the same. -/
theorem Accepted.exists_phdr (accepted : Accepted buf symbols) (loadable : IsLoadable buf)
    {seg : Segment} (mem : seg ∈ ptLoad buf) :
    ∃ ph ∈ phdrs buf, ph.Loads ∧ ph.segment = seg := by
  have nonempty := (loadable.loadable seg mem).nonempty
  rw [accepted.ptLoad_eq, List.mem_filterMap] at mem
  obtain ⟨ph, isPh, chosen⟩ := mem
  rw [Phdr.segment?] at chosen
  split at chosen
  · rename_i load
    cases chosen
    exact ⟨ph, isPh, ⟨load, Nat.ne_of_gt nonempty⟩, rfl⟩
  · cases chosen

theorem Accepted.segment_mem (accepted : Accepted buf symbols) {ph : Phdr} (mem : ph ∈ phdrs buf)
    (loads : ph.Loads) : ph.segment ∈ ptLoad buf := by
  rw [accepted.ptLoad_eq, List.mem_filterMap]
  exact ⟨ph, mem, if_pos loads.1⟩

/-- Program headers that are loaded do not overlap. -/
theorem Accepted.apart (accepted : Accepted buf symbols) (loadable : IsLoadable buf) (addr : Nat) :
    (phdrs buf).Pairwise fun first second => first.Loads → second.Loads →
      ¬ (first.InMemory addr ∧ second.InMemory addr) := by
  have disjoint := loadable.disjoint
  rw [accepted.ptLoad_eq, List.pairwise_filterMap] at disjoint
  apply disjoint.imp
  rintro first second before firstLoads secondLoads ⟨⟨_, _⟩, ⟨_, _⟩⟩
  have order := before _ (if_pos firstLoads.1) _ (if_pos secondLoads.1)
  simp only [Phdr.segment] at order
  omega

/-- The segments can be written when their memory is mapped. -/
theorem Accepted.writable (accepted : Accepted buf symbols) (loadable : IsLoadable buf)
    (mappedSegments : ∀ seg ∈ ptLoad buf, ChunkedMemif.InMapped mapped seg.vaddr seg.memsz ∧
      seg.vaddr + seg.memsz ≤ wordRange buf ∧ seg.memsz < 2 ^ 63) :
    ∀ ph ∈ phdrs buf, ph.Loads → ph.Writable buf mapped := by
  intro ph mem loads
  have isSegment := accepted.segment_mem mem loads
  have isLoadable := loadable.loadable _ isSegment
  obtain ⟨isMapped, address, small⟩ := mappedSegments _ isSegment
  obtain ⟨i, _, rfl⟩ := List.mem_map.mp mem
  exact ⟨isLoadable.fits, isLoadable.inside, small, unpack_little_lt _ _ _, address, isMapped⟩

/-- An accepted file is loaded: the memory has the bytes of the file where a segment has them,
and what was zero stays zero elsewhere. -/
theorem loadElf_succeeds (backs : memif.Backs mapped holds) (state : holds (fun _ => 0) s)
    (accepted : Accepted buf symbols) (loadable : IsLoadable buf)
    (mappedSegments : ∀ seg ∈ ptLoad buf, ChunkedMemif.InMapped mapped seg.vaddr seg.memsz ∧
      seg.vaddr + seg.memsz ≤ wordRange buf ∧ seg.memsz < 2 ^ 63) {dict : Dict Nat Nat}
    (image : IsImage buf dict) :
    Succeeds (loadElf memif buf) s fun result s' =>
      result = (wordAt buf 24, symbols) ∧ holds (byteIn dict) s' := by
  have writable := accepted.writable loadable mappedSegments
  have headers := writeSegments_succeeds backs writable state
  have layoutEq := fullLayout_toLayout buf
  have little : endian buf = .little := if_pos accepted.order
  have loop : ((List.range (fieldAt buf 2 (fullLayout buf).ePhnumOffset)).forM fun i =>
      writeSegment memif buf (phdrAt buf i)) = (phdrs buf).forM (writeSegment memif buf) := by
    rw [phdrs, List.forM_eq_forM, List.forM_eq_forM, List.forM_map, ePhnum, little, layoutEq]
    rfl
  have table : ¬ buf.length < (wordAt buf (fullLayout buf).ePhoffOffset +
      fieldAt buf 2 (fullLayout buf).ePhnumOffset * (fullLayout buf).phSize) % 2 ^ 64 := by
    have inside := accepted.table
    rw [ePhoff, ePhnum, little, ← layoutEq] at inside
    exact Nat.not_lt.mpr ((Nat.mod_le _ _).trans inside)
  have memory : (phdrs buf).foldl (place buf) (fun _ => 0) = byteIn dict := by
    funext addr
    by_cases filed : ∃ seg ∈ ptLoad buf, seg.InFile addr
    · obtain ⟨seg, mem, inFile⟩ := filed
      obtain ⟨ph, isPh, loads, rfl⟩ := accepted.exists_phdr loadable mem
      rw [image.filed addr _ mem inFile]
      exact foldl_place_inFile writable (accepted.apart loadable addr) ph isPh loads inFile
    · have outside : ∀ seg ∈ ptLoad buf, ¬ seg.InFile addr :=
        fun seg mem inFile => filed ⟨seg, mem, inFile⟩
      rw [image.zero addr outside]
      exact foldl_place_zero writable (fun ph mem loads =>
        outside _ (accepted.segment_mem mem loads)) rfl
  simp only [loadElf, if_neg (Nat.not_lt.mpr accepted.long),
    if_neg (not_not.mpr (And.intro accepted.magic accepted.elfClass)),
    if_neg (not_not.mpr accepted.order), if_neg (not_not.mpr accepted.exec),
    if_neg (not_not.mpr accepted.machine), if_neg (not_not.mpr accepted.version), if_neg table, loop,
    accepted.symbols]
  rw [memory] at headers
  apply Succeeds.bind headers
  intro _ s' held
  exact Succeeds.pure ⟨rfl, held⟩

end Accepted

end Load

end Difftest.Spike
