import Difftest.Elf.Image

/-!
# The dictionary is the image of the file

The program headers are read by the format and by the loop of the loader; both
find the same segments.  For a file whose segments are in the file and disjoint
the dictionary is exactly its image, so the order of the program headers does not
show in it.
-/

namespace Difftest.Elf

open ByteMemory

/-! ## Reading the program headers -/

/-- The program header at an offset of the file, by the format. -/
def segmentAt (elfData : List UInt8) (phOffset : Nat) : Option Segment :=
  let fields := layout elfData
  let field (offset : Nat) := unpack (endian elfData) fields.wordSize elfData (phOffset + offset)
  if unpack (endian elfData) 4 elfData (phOffset + fields.pTypeOffset) = 1 then
    some { offset := field fields.pOffsetOffset, vaddr := field fields.pVaddrOffset
           filesz := field fields.pFileszOffset, memsz := field fields.pMemszOffset }
  else none

/-- `e_phoff` of a file. -/
def ePhoff (elfData : List UInt8) : Nat :=
  unpack (endian elfData) (layout elfData).wordSize elfData (layout elfData).ePhoffOffset

/-- `e_phentsize` of a file. -/
def ePhentsize (elfData : List UInt8) : Nat :=
  unpack (endian elfData) 2 elfData (layout elfData).ePhentsizeOffset

/-- `e_phnum` of a file. -/
def ePhnum (elfData : List UInt8) : Nat :=
  unpack (endian elfData) 2 elfData (layout elfData).ePhnumOffset

/-- The `PT_LOAD` segments of a file, in the order of its program headers. -/
def ptLoad (elfData : List UInt8) : List Segment :=
  (List.range (ePhnum elfData)).filterMap fun i =>
    segmentAt elfData (ePhoff elfData + i * ePhentsize elfData)

/-- An ELF file of either class and byte order, with its program headers. -/
structure IsElf (elfData : List UInt8) : Prop where
  magic : elfData.take 4 = elfMagic
  elfClass : byteOf elfData 4 = 1 ∨ byteOf elfData 4 = 2
  byteOrder : byteOf elfData 5 = 1 ∨ byteOf elfData 5 = 2
  header : (layout elfData).ePhnumOffset + 2 ≤ elfData.length
  table : ∀ i < ePhnum elfData,
    ePhoff elfData + i * ePhentsize elfData + (layout elfData).phSize ≤ elfData.length

/-- The segments occupy memory, are in the file and do not overlap. -/
structure IsLoadable (elfData : List UInt8) : Prop where
  loadable : ∀ seg ∈ ptLoad elfData, seg.Loadable elfData
  disjoint : (ptLoad elfData).Pairwise fun first second =>
    first.vaddr + first.memsz ≤ second.vaddr ∨ second.vaddr + second.memsz ≤ first.vaddr

theorem layout_eq (elfData : List UInt8) : layout elfData = elf32 ∨ layout elfData = elf64 := by
  unfold layout
  split
  · exact Or.inl rfl
  · exact Or.inr rfl

/-- The fields that are read lie inside the program header. -/
theorem fields_inside (elfData : List UInt8) :
    let fields := layout elfData
    fields.pTypeOffset + 4 ≤ fields.phSize ∧ fields.pOffsetOffset + fields.wordSize ≤ fields.phSize ∧
      fields.pVaddrOffset + fields.wordSize ≤ fields.phSize ∧
        fields.pFileszOffset + fields.wordSize ≤ fields.phSize ∧
          fields.pMemszOffset + fields.wordSize ≤ fields.phSize := by
  rcases layout_eq elfData with same | same
  · rw [same]
    decide
  · rw [same]
    decide

theorem readSegment_eq {elfData : List UInt8} {phOffset : Nat}
    (inside : phOffset + (layout elfData).phSize ≤ elfData.length) :
    readSegment elfData phOffset = .ok (segmentAt elfData phOffset) := by
  have fields : ∀ offset width, offset + width ≤ (layout elfData).phSize →
      unpackFrom (endian elfData) width elfData (phOffset + offset) =
        .ok (unpack (endian elfData) width elfData (phOffset + offset)) := by
    intro offset width below
    exact unpackFrom_eq_ok (by omega)
  obtain ⟨type, offset, vaddr, filesz, memsz⟩ := fields_inside elfData
  simp only [readSegment, segmentAt, fields _ _ type, fields _ _ offset, fields _ _ vaddr,
    fields _ _ filesz, fields _ _ memsz, ok_bind]
  exact (apply_ite Except.ok _ _ _).symm

/-- The loop lists what it reads when all program headers are in the file. -/
theorem loadSegments_eq {elfData : List UInt8} {entrySize base : Nat} {read : Nat → Option Segment}
    (count start : Nat)
    (inside : ∀ i, start ≤ i → i < start + count →
      base + i * entrySize + (layout elfData).phSize ≤ elfData.length)
    (reads : ∀ i, start ≤ i → i < start + count →
      readSegment elfData (base + i * entrySize) = .ok (read i)) :
    loadSegments elfData entrySize count (base + start * entrySize) =
      .ok ((List.range' start count).filterMap read) := by
  induction count generalizing start with
  | zero => rfl
  | succ count ih =>
      have here := inside start (Nat.le_refl start) (by omega)
      have few : ¬ base + start * entrySize + (layout elfData).phSize > elfData.length := by omega
      have next : base + start * entrySize + entrySize = base + (start + 1) * entrySize := by ring
      have later := ih (start + 1) (fun i above below => inside i (by omega) (by omega))
        (fun i above below => reads i (by omega) (by omega))
      rw [loadSegments, if_neg few, reads start (Nat.le_refl start) (by omega), ok_bind, next, later,
        ok_bind, List.range'_succ, List.filterMap_cons]
      cases read start with
      | none => rfl
      | some seg => rfl

/-! ## The image -/

/-- The byte of a dictionary of words at an address. -/
def byteIn (memory : Dict Nat Nat) : ByteMemory := ofWords 8 fun addr => memory.getD addr 0

/-- The dictionary is the image of the file: it has the words that meet a segment,
with the bytes of the file where a segment has them and zero elsewhere. -/
structure IsImage (elfData : List UInt8) (memory : Dict Nat Nat) : Prop where
  keys : ∀ addr, addr ∈ memory.keys ↔ ∃ seg ∈ ptLoad elfData, seg.Meets addr
  fits : ∀ addr value, memory.get? addr = some value → value < 2 ^ 64
  filed : ∀ addr, ∀ seg ∈ ptLoad elfData, seg.InFile addr →
    byteIn memory addr = seg.fileByte elfData addr
  zero : ∀ addr, (∀ seg ∈ ptLoad elfData, ¬ seg.InFile addr) → byteIn memory addr = 0

/-- What the segments of a file contain and where, whatever the program headers
look like. -/
def contents (elfData : List UInt8) : List (Nat × Nat × List UInt8) :=
  (ptLoad elfData).map fun seg => (seg.vaddr, seg.memsz, seg.segData elfData)

section Image

variable {elfData : List UInt8} {memory : Dict Nat Nat}

theorem byteIn_eq {covers : Nat → Prop} {bytes : ByteMemory} (holds : Holds memory covers bytes)
    (addr : Nat) : byteIn memory addr = bytes addr := by
  have agree := holds.words.agree (addr / 8 * 8) (Nat.dvd_mul_left 8 _) (addr % 8)
    (Nat.mod_lt addr (by decide))
  rw [Nat.div_add_mod' addr 8] at agree
  exact agree

theorem isImage_of_holds (loadable : IsLoadable elfData)
    (holds : Holds memory (fun addr => (∃ seg ∈ ptLoad elfData, seg.Meets addr) ∨ False)
      ((ptLoad elfData).foldl (fun bytes seg => seg.image elfData bytes) fun _ => 0)) :
    IsImage elfData memory := by
  have apart : ∀ addr, (ptLoad elfData).Pairwise fun first second =>
      ¬ (first.InFile addr ∧ second.InFile addr) := by
    intro addr
    apply loadable.disjoint.imp_of_mem
    rintro first second firstMem secondMem before ⟨⟨_, _⟩, ⟨_, _⟩⟩
    have firstFits := (loadable.loadable first firstMem).fits
    have secondFits := (loadable.loadable second secondMem).fits
    omega
  have keys : ∀ addr, addr ∈ memory.keys ↔ ∃ seg ∈ ptLoad elfData, seg.Meets addr := by
    intro addr
    rw [holds.keys, or_false]
  constructor
  · exact keys
  · intro addr value found
    have present : addr ∈ memory.keys := by
      rw [Dict.mem_keys_iff, found]
      rfl
    obtain ⟨seg, _, aligned, _⟩ := (keys addr).mp present
    have fits := holds.words.fits addr aligned
    rw [Dict.getD, found] at fits
    exact fits
  · intro addr seg mem filed
    rw [byteIn_eq holds]
    exact (foldl_image (apart addr)).1 seg mem filed
  · intro addr outside
    rw [byteIn_eq holds]
    exact (foldl_image (apart addr)).2 outside

/-- The loader reads the segments of the file and places them in turn. -/
theorem elfToMemoryDict_eq (elfPath : String) (elf : IsElf elfData) (long : 64 ≤ elfData.length) :
    elfToMemoryDict elfPath (some elfData) =
      ((ptLoad elfData).foldlM (loadSegment elfData) Dict.empty >>= fun memory =>
        if memory.entries.isEmpty then
          .error s!"ELF file {elfPath} produced no loadable segments"
        else .ok memory) := by
  have header : ∀ offset width, offset + width ≤ 64 →
      unpackFrom (endian elfData) width elfData offset =
        .ok (unpack (endian elfData) width elfData offset) := by
    intro offset width below
    exact unpackFrom_eq_ok (by omega)
  have offsets : (layout elfData).ePhoffOffset + (layout elfData).wordSize ≤ 64 ∧
      (layout elfData).ePhentsizeOffset + 2 ≤ 64 ∧ (layout elfData).ePhnumOffset + 2 ≤ 64 := by
    rcases layout_eq elfData with same | same
    · rw [same]
      decide
    · rw [same]
      decide
  have headers := @loadSegments_eq elfData (ePhentsize elfData) (ePhoff elfData) _
    (ePhnum elfData) 0 (fun i _ below => elf.table i (by omega)) fun i _ below => readSegment_eq (elf.table i (by omega))
  rw [Nat.zero_mul, Nat.add_zero, ← List.range_eq_range'] at headers
  simp only [elfToMemoryDict]
  rw [if_neg (by simp [elf.magic, Nat.not_lt.mpr long])]
  simp only [header _ _ offsets.1, header _ _ offsets.2.1, header _ _ offsets.2.2, ok_bind]
  have listed : loadSegments elfData (unpack (endian elfData) 2 elfData
      (layout elfData).ePhentsizeOffset) (unpack (endian elfData) 2 elfData
      (layout elfData).ePhnumOffset) (unpack (endian elfData) (layout elfData).wordSize elfData
      (layout elfData).ePhoffOffset) = .ok (ptLoad elfData) := headers
  rw [listed, ok_bind]

/-- A loadable file with a segment loads to its image. -/
theorem elfToMemoryDict_isImage (elfPath : String) (elf : IsElf elfData)
    (long : 64 ≤ elfData.length) (loadable : IsLoadable elfData) (some : ptLoad elfData ≠ []) :
    ∃ memory, elfToMemoryDict elfPath (Option.some elfData) = .ok memory ∧
      IsImage elfData memory := by
  obtain ⟨memory, loaded, holds⟩ := loadSegments_holds loadable.loadable holds_empty
  have image := isImage_of_holds loadable holds
  refine ⟨memory, ?_, image⟩
  have nonempty : ¬ memory.entries.isEmpty := by
    intro empty
    obtain ⟨seg, rest, segs⟩ := List.exists_cons_of_ne_nil some
    have mem : seg ∈ ptLoad elfData := by
      rw [segs]
      exact List.mem_cons_self
    have key : seg.vaddr / 8 * 8 ∈ memory.keys := by
      rw [image.keys]
      have occupied := (loadable.loadable seg mem).nonempty
      exact ⟨seg, mem, Nat.dvd_mul_left 8 _, seg.vaddr, by omega, by omega, by omega, by omega⟩
    rw [Dict.keys, List.isEmpty_iff.mp empty] at key
    cases key
  rw [elfToMemoryDict_eq elfPath elf long, loaded, ok_bind]
  exact if_neg nonempty

end Image

/-! ## Order of the program headers -/

section Order

variable {elfData otherData : List UInt8} {memory other : Dict Nat Nat}

theorem segData_of_loadable {seg : Segment} (loadable : seg.Loadable elfData) :
    (seg.segData elfData).length = seg.filesz ∧
      ∀ addr, seg.InFile addr →
        byteOf (seg.segData elfData) (addr - seg.vaddr) = seg.fileByte elfData addr := by
  have inside := loadable.inside
  have data : seg.segData elfData = (elfData.drop seg.offset).take seg.filesz := if_pos inside
  constructor
  · rw [data, List.length_take, List.length_drop]
    omega
  · rintro addr ⟨first, last⟩
    rw [data, byteOf_take_drop (by omega), Segment.fileByte]

/-- Every segment of one file is a segment of the other with the same contents. -/
theorem exists_same_segment (loadable : IsLoadable elfData) (otherLoadable : IsLoadable otherData)
    (same : ∀ entry ∈ contents otherData, entry ∈ contents elfData) {seg : Segment}
    (mem : seg ∈ ptLoad otherData) :
    ∃ twin ∈ ptLoad elfData, (∀ addr, seg.Meets addr ↔ twin.Meets addr) ∧
      ∀ addr, (seg.InFile addr ↔ twin.InFile addr) ∧
        (seg.InFile addr → seg.fileByte otherData addr = twin.fileByte elfData addr) := by
  obtain ⟨twin, twinMem, agree⟩ := List.mem_map.mp (same _ (List.mem_map_of_mem mem))
  obtain ⟨vaddr, rest⟩ := Prod.mk.inj agree
  obtain ⟨memsz, data⟩ := Prod.mk.inj rest
  obtain ⟨length, bytes⟩ := segData_of_loadable (otherLoadable.loadable seg mem)
  obtain ⟨twinLength, twinBytes⟩ := segData_of_loadable (loadable.loadable twin twinMem)
  have filesz : twin.filesz = seg.filesz := by rw [← length, ← twinLength, data]
  have filed : ∀ addr, seg.InFile addr ↔ twin.InFile addr := by
    intro addr
    rw [Segment.InFile, Segment.InFile, vaddr, filesz]
  refine ⟨twin, twinMem, ?_, fun addr => ⟨filed addr, ?_⟩⟩
  · intro addr
    rw [Segment.Meets, Segment.Meets, vaddr, memsz]
  · intro inFile
    rw [← bytes addr inFile, ← twinBytes addr ((filed addr).mp inFile), vaddr, data]

/-- Files with the same segment contents have the same image. -/
theorem IsImage.get?_eq (loadable : IsLoadable elfData) (otherLoadable : IsLoadable otherData)
    (image : IsImage elfData memory) (otherImage : IsImage otherData other)
    (same : (contents otherData).Perm (contents elfData)) (addr : Nat) :
    other.get? addr = memory.get? addr := by
  have forth := fun seg => @exists_same_segment elfData otherData loadable otherLoadable
    (fun entry => same.mem_iff.mp) seg
  have back := fun seg => @exists_same_segment otherData elfData otherLoadable loadable
    (fun entry => same.mem_iff.mpr) seg
  have keys : addr ∈ other.keys ↔ addr ∈ memory.keys := by
    rw [image.keys, otherImage.keys]
    constructor
    · rintro ⟨seg, mem, meets⟩
      obtain ⟨twin, twinMem, agree, _⟩ := forth seg mem
      exact ⟨twin, twinMem, (agree addr).mp meets⟩
    · rintro ⟨seg, mem, meets⟩
      obtain ⟨twin, twinMem, agree, _⟩ := back seg mem
      exact ⟨twin, twinMem, (agree addr).mp meets⟩
  have bytes : ∀ place, byteIn other place = byteIn memory place := by
    intro place
    by_cases filed : ∃ seg ∈ ptLoad otherData, seg.InFile place
    · obtain ⟨seg, mem, inFile⟩ := filed
      obtain ⟨twin, twinMem, _, agree⟩ := forth seg mem
      rw [otherImage.filed place seg mem inFile, (agree place).2 inFile,
        image.filed place twin twinMem ((agree place).1.mp inFile)]
    · have outside : ∀ seg ∈ ptLoad elfData, ¬ seg.InFile place := by
        intro seg mem inFile
        obtain ⟨twin, twinMem, _, agree⟩ := back seg mem
        exact filed ⟨twin, twinMem, (agree place).1.mp inFile⟩
      rw [image.zero place outside, otherImage.zero place fun seg mem inFile => filed ⟨seg, mem, inFile⟩]
  rw [Dict.mem_keys_iff, Dict.mem_keys_iff] at keys
  cases found : memory.get? addr with
  | none =>
      rw [found] at keys
      exact Option.not_isSome_iff_eq_none.mp fun present => by simpa using keys.mp present
  | some value =>
      obtain ⟨otherValue, otherFound⟩ := Option.isSome_iff_exists.mp (keys.mpr (by rw [found]; rfl))
      have present : addr ∈ memory.keys := by
        rw [Dict.mem_keys_iff, found]
        rfl
      obtain ⟨_, _, ⟨word, rfl⟩, _⟩ := (image.keys addr).mp present
      have wordBytes : ∀ (dict : Dict Nat Nat) (held : Nat), dict.get? (8 * word) = some held →
          ∀ j < 8, byteIn dict (8 * word + j) = byteAt held j := by
        intro dict held dictFound j inside
        have quotient : (8 * word + j) / 8 * 8 = 8 * word := by omega
        have remainder : (8 * word + j) % 8 = j := by omega
        rw [byteIn, ofWords, quotient, remainder, Dict.getD, dictFound]
        rfl
      have equal : ofBytes 8 (byteAt otherValue) = ofBytes 8 (byteAt value) := by
        apply ofBytes_congr
        intro j inside
        rw [← wordBytes other otherValue otherFound j inside,
          ← wordBytes memory value found j inside, bytes]
      rw [ofBytes_byteAt_of_lt (otherImage.fits _ _ otherFound),
        ofBytes_byteAt_of_lt (image.fits _ _ found)] at equal
      rw [otherFound, equal]

end Order

/-- A file of at least 64 bytes with a segment loads to its image: the dictionary
has the words that meet a segment and the bytes of the file, and a file with the
same segments under other program headers loads to the same dictionary. -/
theorem elfToMemoryDict_exact (elfPath : String) {elfData : List UInt8} (elf : IsElf elfData)
    (long : 64 ≤ elfData.length) (loadable : IsLoadable elfData) (some : ptLoad elfData ≠ []) :
    ∃ memory, elfToMemoryDict elfPath (Option.some elfData) = .ok memory ∧
      IsImage elfData memory ∧
      ∀ otherPath otherData, IsElf otherData → 64 ≤ otherData.length → IsLoadable otherData →
        (contents otherData).Perm (contents elfData) →
          ∃ other, elfToMemoryDict otherPath (Option.some otherData) = .ok other ∧
            ∀ addr, other.get? addr = memory.get? addr := by
  obtain ⟨memory, loaded, image⟩ := elfToMemoryDict_isImage elfPath elf long loadable some
  refine ⟨memory, loaded, image, ?_⟩
  intro otherPath otherData otherElf otherLong otherLoadable same
  have otherSome : ptLoad otherData ≠ [] := by
    intro none
    apply some
    have lengths := same.length_eq
    rw [contents, contents, none, List.length_map, List.length_map] at lengths
    exact List.length_eq_zero_iff.mp lengths.symm
  obtain ⟨other, otherLoaded, otherImage⟩ :=
    elfToMemoryDict_isImage otherPath otherElf otherLong otherLoadable otherSome
  exact ⟨other, otherLoaded, image.get?_eq loadable otherLoadable otherImage same⟩

/-- An ELF64 file with two segments that share a word. -/
def twoSegments : List UInt8 :=
  let word (n : UInt8) : List UInt8 := [n, 0, 0, 0, 0, 0, 0, 0]
  let header (offset vaddr filesz memsz : UInt8) : List UInt8 :=
    [1, 0, 0, 0, 5, 0, 0, 0] ++ word offset ++ [vaddr, 0, 0, 0x80, 0, 0, 0, 0] ++ word 0 ++
      word filesz ++ word memsz ++ word 1
  elfMagic ++ [2, 1, 1, 0] ++ word 0 ++ [2, 0, 0xf3, 0, 1, 0, 0, 0] ++ word 0 ++ word 64 ++ word 0 ++
    [0, 0, 0, 0, 64, 0, 56, 0, 2, 0, 64, 0, 0, 0, 0, 0] ++ header 176 2 3 3 ++ header 179 5 1 6 ++
      [1, 2, 3, 9]

theorem elfToMemoryDict_exact_twoSegments : ∃ memory,
    elfToMemoryDict "two.elf" (some twoSegments) = .ok memory ∧ IsImage twoSegments memory := by
  have segments : ptLoad twoSegments =
      [{ offset := 176, vaddr := 0x80000002, filesz := 3, memsz := 3 },
        { offset := 179, vaddr := 0x80000005, filesz := 1, memsz := 6 }] := by
    decide
  have elf : IsElf twoSegments := by
    constructor
    · rfl
    · exact Or.inr rfl
    · exact Or.inl rfl
    · decide +kernel
    · decide +kernel
  have loadable : IsLoadable twoSegments := by
    constructor
    · rw [segments]
      intro seg mem
      rcases List.mem_pair.mp mem with rfl | rfl
      · exact ⟨by decide, by decide, by decide +kernel⟩
      · exact ⟨by decide, by decide, by decide +kernel⟩
    · rw [segments]
      decide
  obtain ⟨memory, loaded, image, _⟩ := elfToMemoryDict_exact "two.elf" elf (by decide +kernel) loadable
    (by rw [segments]; exact List.cons_ne_nil _ _)
  exact ⟨memory, loaded, image⟩

/-- An ELF64 file without program headers. -/
def bareElf : List UInt8 :=
  elfMagic ++ [2, 1, 1] ++ List.replicate 9 0 ++ [2, 0, 0xf3, 0, 1] ++ List.replicate 43 0

/-- An ELF32 file of 52 bytes whose program header lies inside its header. -/
def packedElf : List UInt8 :=
  elfMagic ++ [1, 1, 1] ++ List.replicate 9 0 ++ [2, 0, 0xf3, 0] ++ [1, 0, 0, 0] ++
    List.replicate 4 0 ++ [20, 0, 0, 0] ++ List.replicate 8 0 ++ [52, 0, 32, 0] ++ [1, 0] ++
      List.replicate 6 0

/-- A file without segments and a file shorter than 64 bytes are rejected. -/
theorem elfToMemoryDict_rejects :
    (IsElf bareElf ∧ IsLoadable bareElf ∧ ∀ elfPath, elfToMemoryDict elfPath (some bareElf) =
        .error s!"ELF file {elfPath} produced no loadable segments") ∧
      IsElf packedElf ∧ IsLoadable packedElf ∧ ptLoad packedElf ≠ [] ∧
        ∀ elfPath, elfToMemoryDict elfPath (some packedElf) =
          .error s!"Not a valid ELF file: {elfPath}" := by
  have none : ptLoad bareElf = [] := by rfl
  have bare : IsElf bareElf :=
    ⟨rfl, Or.inr rfl, Or.inl rfl, by decide, by decide⟩
  have one : ptLoad packedElf = [{ offset := 0, vaddr := 20, filesz := 0, memsz := 0x200034 }] := by
    decide
  have packed : IsElf packedElf :=
    ⟨rfl, Or.inl rfl, Or.inl rfl, by decide, by decide⟩
  constructor
  · refine ⟨bare, ⟨?_, ?_⟩, ?_⟩
    · rw [none]
      intro seg mem
      cases mem
    · rw [none]
      exact List.Pairwise.nil
    · intro elfPath
      rw [elfToMemoryDict_eq elfPath bare (by rfl), none]
      rfl
  · refine ⟨packed, ⟨?_, ?_⟩, ?_, ?_⟩
    · rw [one]
      intro seg mem
      rw [List.mem_singleton.mp mem]
      exact ⟨by decide, by decide, by decide⟩
    · rw [one]
      exact List.pairwise_singleton _ _
    · rw [one]
      exact List.cons_ne_nil _ _
    · intro elfPath
      simp only [elfToMemoryDict]
      exact if_pos (Or.inl (by decide))

end Difftest.Elf
