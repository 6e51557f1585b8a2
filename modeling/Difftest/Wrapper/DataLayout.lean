import Difftest.Data.Struct
import Difftest.Host.Lookups

/-!
# Data sections of the wrapped program

The wrapper copies the data of a program into the sections that the signature file covers.  It
pads them to words of eight bytes, whereas the file consists of records of two words.
-/

namespace Difftest.Wrapper

open Difftest.Text Difftest.Host Difftest.Signature

/-! ## Extraction -/

/-- The bytes of a section, filled up to whole words. -/
def padSection (sectionData : List UInt8) : List UInt8 :=
  if sectionData.length % 8 ≠ 0 then
    sectionData ++ List.replicate (8 - sectionData.length % 8) 0
  else sectionData

/-- `extract_data_sections`, from what `objcopy` writes for each of the data sections; a section
that it cannot write is left out. -/
def extractDataSections (binaries : List (Option (List UInt8))) (maxSections : Nat) :
    List (List UInt8) :=
  (binaries.take maxSections).filterMap fun binary => binary.map padSection

/-! ## Emission -/

/-- The directives of a data section. -/
inductive DataDirective where
  | align
  | global (name : String)
  | label (name : String)
  | dword (word : Nat)

/-- The line of a directive. -/
def DataDirective.text : DataDirective → Text
  | .align => ".align 8".toList
  | .global name => ".global ".toList ++ name.toList
  | .label name => name.toList ++ [':']
  | .dword word => "    .dword 0x".toList ++ numeral 16 16 word

/-- The words of a section. -/
def dataWords (sectionData : List UInt8) : List Nat :=
  (stepRange 0 sectionData.length 8).filterMap fun j =>
    if j + 8 ≤ sectionData.length then some (unpack .little 8 sectionData j) else none

/-- The directives of one of the six sections. -/
def sectionDirectives (dataSections : List (List UInt8)) (i : Nat) : List DataDirective :=
  [.align, .global (dataStartSymbol i), .label (dataStartSymbol i)] ++
    (match dataSections[i]? with
      | none => []
      | some sectionData =>
          if sectionData.length > 0 then (dataWords sectionData).map .dword else []) ++
    [.global (dataEndSymbol i), .label (dataEndSymbol i)]

/-- The words that are assembled between the two labels of a section. -/
def assembledWords (dataSections : List (List UInt8)) (i : Nat) : List Nat :=
  (sectionDirectives dataSections i).filterMap fun
    | .dword word => some word
    | _ => none

/-! ## Records -/

/-- The ranges of the data sections that `save_signature` dumps and `read_sig` reads. -/
def dataRanges (symbols : Symbols) : List (Nat × Nat) :=
  (List.range 6).filterMap (sectionRange symbols)

/-- The sections fit the records of the signature file. -/
structure FitsRecords (ranges : List (Nat × Nat)) : Prop where
  /-- Both words of a record that is dumped for a section lie in the section. -/
  inside : ∀ range ∈ ranges, ∀ addr ∈ stepRange range.1 range.2 16, addr + 16 ≤ range.2
  /-- Whatever the memory holds, what is read back for a section are its words, none of another
  section and none left out.  The signature in front of the data is aligned by `.align 4`. -/
  attributed : ∀ (memory : Dict Nat Nat) (sigStart sigEnd : Nat) (file : Text),
    (∀ addr word, memory.get? addr = some word → word < 2 ^ 64) →
    sigStart ≤ sigEnd → 2 ^ 4 ∣ sigStart → 2 ^ 4 ∣ sigEnd →
    saveSignature memory sigStart sigEnd ranges = some file →
      readSections (readlines file) (((sigEnd : Int) - sigStart) / (2 * 8)) ranges =
        some (ranges.map fun range => wordsOf (fun addr => memory.getD addr 0) range.1 range.2)

section Records

variable {ranges : List (Nat × Nat)}

/-- A range of whole records. -/
theorem stepRange_whole {range : Nat × Nat} (whole : 16 ∣ range.2 - range.1) :
    stepRange range.1 range.2 16 = recordAddrs range := by
  have count : (range.2 - range.1 + 16 - 1) / 16 = (range.2 - range.1) / 16 := by omega
  rw [stepRange, count, recordAddrs]

theorem inside_of_whole {range : Nat × Nat} (whole : 16 ∣ range.2 - range.1) {addr : Nat}
    (mem : addr ∈ stepRange range.1 range.2 16) : addr + 16 ≤ range.2 := by
  rw [stepRange_whole whole, recordAddrs] at mem
  rcases List.mem_range'.mp mem with ⟨j, below, rfl⟩
  omega

/-- The last record of a section lies in the section only when the section has whole records. -/
theorem whole_of_inside {range : Nat × Nat} (ordered : range.1 ≤ range.2)
    (inside : ∀ addr ∈ stepRange range.1 range.2 16, addr + 16 ≤ range.2) :
    16 ∣ range.2 - range.1 := by
  by_contra notWhole
  have last : range.1 + 16 * ((range.2 - range.1) / 16) ∈ stepRange range.1 range.2 16 := by
    rw [mem_stepRange (by decide)]
    refine ⟨(range.2 - range.1) / 16, rfl, ?_⟩
    omega
  have bound := inside _ last
  omega

theorem getD_lt {memory : Dict Nat Nat}
    (small : ∀ addr word, memory.get? addr = some word → word < 2 ^ 64) (addr : Nat) :
    memory.getD addr 0 < 2 ^ 64 := by
  rw [Dict.getD]
  cases found : memory.get? addr with
  | none => decide
  | some word => exact small addr word found

/-- Sections of whole records are read back. -/
theorem fitsRecords_of_whole (ordered : ∀ range ∈ ranges, range.1 ≤ range.2)
    (whole : ∀ range ∈ ranges, 16 ∣ range.2 - range.1) : FitsRecords ranges := by
  constructor
  · intro range mem addr isRecord
    exact inside_of_whole (whole range mem) isRecord
  · intro memory sigStart sigEnd file small orderedSig startAligned endAligned saved
    have wholeSig : 16 ∣ sigEnd - sigStart := Nat.dvd_sub endAligned startAligned
    have dataStarts : recordStarts ranges = ranges.flatMap recordAddrs := by
      rw [recordStarts]
      exact List.flatMap_congr fun range mem => stepRange_whole (whole range mem)
    have before := @stepRange_whole (sigStart, sigEnd) wholeSig
    have line : (((sigEnd : Int) - sigStart) / (2 * 8)) =
        (((stepRange sigStart sigEnd 16).map (recordOf memory)).length : Int) := by
      rw [before, List.length_map, recordAddrs_length]
      omega
    have lines : readlines file = (stepRange sigStart sigEnd 16).map (recordOf memory) ++
        (ranges.flatMap recordAddrs).map (record fun addr => memory.getD addr 0) := by
      rw [readlines_saveSignature saved, recordStarts, List.flatMap_cons, List.map_append,
        ← recordStarts, dataStarts]
      rfl
    rw [lines, line]
    exact readSections_eq (fun range mem => ⟨ordered range mem, whole range mem⟩)
      (fun _ _ addr _ _ _ => getD_lt small addr) _

theorem fitsRecords_iff_whole (ordered : ∀ range ∈ ranges, range.1 ≤ range.2) :
    FitsRecords ranges ↔ ∀ range ∈ ranges, 16 ∣ range.2 - range.1 := by
  constructor
  · intro fits range mem
    exact whole_of_inside (ordered range mem) (fits.inside range mem)
  · exact fitsRecords_of_whole ordered

end Records

/-! ## Lengths -/

section Lengths

theorem length_padSection (sectionData : List UInt8) :
    (padSection sectionData).length = (sectionData.length + 7) / 8 * 8 := by
  rw [padSection]
  split
  · rw [List.length_append, List.length_replicate]
    omega
  · omega

/-- A padded section has a word for each eight bytes. -/
theorem length_dataWords {sectionData : List UInt8} (whole : sectionData.length % 8 = 0) :
    (dataWords sectionData).length = sectionData.length / 8 := by
  have all : dataWords sectionData =
      (stepRange 0 sectionData.length 8).map fun j => unpack .little 8 sectionData j := by
    rw [dataWords, ← List.filterMap_eq_map]
    apply List.filterMap_congr
    intro j mem
    rcases (mem_stepRange (by decide)).mp mem with ⟨k, isPlace, below⟩
    exact if_pos (by omega)
  rw [all, List.length_map, length_stepRange]
  omega

/-- The directives between the labels place the words of the section. -/
theorem assembledWords_eq (dataSections : List (List UInt8)) (i : Nat) :
    assembledWords dataSections i = dataWords (dataSections.getD i []) := by
  rw [assembledWords, sectionDirectives, List.filterMap_append, List.filterMap_append]
  cases found : dataSections[i]? with
  | none => simp [found, dataWords]
  | some sectionData =>
      by_cases nonempty : sectionData.length > 0
      · simp only [if_pos nonempty, List.filterMap_map, List.getD_eq_getElem?_getD, found,
          Option.getD_some]
        simp
      · have empty : sectionData = [] := by
          rw [← List.length_eq_zero_iff]
          omega
        simp [found, empty, dataWords]

/-- The number of words of a section. -/
def wordCountOf (sectionData : List UInt8) : Nat := (sectionData.length + 7) / 8

theorem mem_extractDataSections {binaries : List (Option (List UInt8))} {maxSections : Nat}
    {padded : List UInt8} : padded ∈ extractDataSections binaries maxSections ↔
      ∃ sectionData, some sectionData ∈ binaries.take maxSections ∧
        padded = padSection sectionData := by
  rw [extractDataSections, List.mem_filterMap]
  constructor
  · rintro ⟨binary, mem, isPadded⟩
    rcases Option.map_eq_some_iff.mp isPadded with ⟨sectionData, rfl, rfl⟩
    exact ⟨sectionData, mem, rfl⟩
  · rintro ⟨sectionData, mem, rfl⟩
    exact ⟨some sectionData, mem, rfl⟩

theorem length_extractDataSections (binaries : List (Option (List UInt8))) (maxSections : Nat) :
    (extractDataSections binaries maxSections).length ≤ maxSections := by
  rw [extractDataSections]
  exact (List.length_filterMap_le _ _).trans (List.length_take_le _ _)

/-- All sections have an even number of words exactly when the extracted ones have. -/
theorem forall_assembledWords_iff (binaries : List (Option (List UInt8))) :
    (∀ i < 6, (assembledWords (extractDataSections binaries 6) i).length % 2 = 0) ↔
      ∀ sectionData, some sectionData ∈ binaries.take 6 → wordCountOf sectionData % 2 = 0 := by
  have count : ∀ sectionData : List UInt8,
      (dataWords (padSection sectionData)).length = wordCountOf sectionData := by
    intro sectionData
    have length := length_padSection sectionData
    rw [length_dataWords (by omega), length, wordCountOf]
    omega
  constructor
  · intro all sectionData mem
    have extracted := mem_extractDataSections.mpr ⟨sectionData, mem, rfl⟩
    rcases List.mem_iff_getElem?.mp extracted with ⟨i, isSection⟩
    have below := (List.getElem?_eq_some_iff.mp isSection).1
    have most := length_extractDataSections binaries 6
    have even := all i (Nat.lt_of_lt_of_le below most)
    rwa [assembledWords_eq, List.getD_eq_getElem?_getD, isSection, Option.getD_some, count] at even
  · intro all i _
    rw [assembledWords_eq, List.getD_eq_getElem?_getD]
    cases found : (extractDataSections binaries 6)[i]? with
    | none => simp [dataWords]
    | some padded =>
        rcases mem_extractDataSections.mp (List.mem_of_getElem? found) with ⟨sectionData, mem, rfl⟩
        rw [Option.getD_some, count]
        exact all sectionData mem

end Lengths

/-- The layout of the wrapper fits the records of the signature file exactly when each extracted
section, filled up to whole words, has an even number of them. -/
theorem layout_fitsRecords_iff (binaries : List (Option (List UInt8))) {symbols : Symbols}
    {starts : Nat → Nat}
    (linked : Linked (assembledWords (extractDataSections binaries 6)) symbols starts) :
    FitsRecords (dataRanges symbols) ↔
      ∀ sectionData, some sectionData ∈ binaries.take 6 → wordCountOf sectionData % 2 = 0 := by
  have mem_dataRanges : ∀ range, range ∈ dataRanges symbols ↔ ∃ i < 6,
      range = (starts i, starts i + 8 * (assembledWords (extractDataSections binaries 6) i).length)
      := by
    intro range
    rw [dataRanges, List.mem_filterMap]
    constructor
    · rintro ⟨i, mem, isRange⟩
      have below := List.mem_range.mp mem
      rw [linked.range i below] at isRange
      exact ⟨i, below, (Option.some.inj isRange).symm⟩
    · rintro ⟨i, below, rfl⟩
      exact ⟨i, List.mem_range.mpr below, linked.range i below⟩
  have ordered : ∀ range ∈ dataRanges symbols, range.1 ≤ range.2 := by
    intro range mem
    rcases (mem_dataRanges range).mp mem with ⟨i, _, rfl⟩
    exact Nat.le_add_right _ _
  rw [fitsRecords_iff_whole ordered, ← forall_assembledWords_iff]
  constructor
  · intro whole i below
    have length := whole _ ((mem_dataRanges _).mpr ⟨i, below, rfl⟩)
    rw [Nat.add_sub_cancel_left] at length
    omega
  · intro even range mem
    rcases (mem_dataRanges range).mp mem with ⟨i, below, rfl⟩
    have words := even i below
    rw [Nat.add_sub_cancel_left]
    omega

/-! ## A program with data -/

/-- The symbols of the sections of a program with one section of data. -/
def singleSectionSymbols (stop : Nat) : Symbols :=
  sectionSymbols fun n => (0x80002400 + 0x100 * n, if n = 0 then stop else 0x80002400 + 0x100 * n)

theorem linked_singleSection {sectionData : List UInt8} {stop : Nat}
    (ranges : ∀ n < 6, sectionRange (singleSectionSymbols stop) n = some (0x80002400 + 0x100 * n,
      0x80002400 + 0x100 * n +
        8 * (assembledWords (extractDataSections [some sectionData] 6) n).length))
    (short : ∀ n < 6,
      (assembledWords (extractDataSections [some sectionData] 6) n).length ≤ 32) :
    Linked (assembledWords (extractDataSections [some sectionData] 6)) (singleSectionSymbols stop)
      fun n => 0x80002400 + 0x100 * n := by
  constructor
  · exact ranges
  · intro n _
    omega
  · intro m n before below
    have length := short m (before.trans below)
    omega

/-- Sixteen bytes of data are one record. -/
theorem layout_fitsRecords_sixteen :
    FitsRecords (dataRanges (singleSectionSymbols 0x80002410)) := by
  have linked := @linked_singleSection (List.replicate 16 1) 0x80002410 (by decide +kernel)
    (by decide +kernel)
  apply (layout_fitsRecords_iff [some (List.replicate 16 1)] linked).mpr
  intro sectionData mem
  have isData : sectionData = List.replicate 16 1 := by simpa using mem
  rw [isData]
  decide

/-- One byte of data is filled up to one word, and its record reaches behind the section. -/
theorem layout_half_record :
    Linked (assembledWords (extractDataSections [some [1]] 6)) (singleSectionSymbols 0x80002408)
      (fun n => 0x80002400 + 0x100 * n) ∧
    ¬ FitsRecords (dataRanges (singleSectionSymbols 0x80002408)) := by
  constructor
  · exact linked_singleSection (by decide +kernel) (by decide +kernel)
  · intro fits
    have behind := fits.inside (0x80002400, 0x80002408) (by decide +kernel) 0x80002400
      (by decide +kernel)
    exact absurd behind (by decide)

end Difftest.Wrapper
