import Difftest.Data.Bytes

/-!
# The memory map given to Spike

`get_spike_memory_map` returns the page-aligned regions below the DRAM base, with
overlapping ones merged, or nothing when there are none.  The simulator then has
exactly these regions, and without a map the default DRAM.  The main result says
for which segments and symbols that is all the memory a program needs.
-/

namespace Difftest.Spike

/-! ## Regions -/

/-- A base address and a size. -/
abbrev Region := Nat × Nat

/-- The address lies in one of the regions. -/
def Covers (regions : List Region) (addr : Nat) : Prop :=
  ∃ region ∈ regions, region.1 ≤ addr ∧ addr < region.1 + region.2

/-- The test for an overlap with the region from `base` up to `newEnd`. -/
def overlaps (base newEnd : Nat) (region : Region) : Bool :=
  !(decide (newEnd ≤ region.1) || decide (base ≥ region.1 + region.2))

/-- Merge the region from `base` up to `newEnd` with all regions it overlaps, and put
the result at the end. -/
def mergeRegion (base newEnd : Nat) (regions : List Region) : List Region :=
  let hits := regions.filter (overlaps base newEnd)
  let mergedBase := hits.foldl (fun mergedBase region => min mergedBase region.1) base
  let mergedEnd := hits.foldl (fun mergedEnd region => max mergedEnd (region.1 + region.2)) newEnd
  regions.filter (fun region => !overlaps base newEnd region) ++
    [(mergedBase, mergedEnd - mergedBase)]

theorem foldl_min_le_iff {hits : List Region} {base addr : Nat} :
    hits.foldl (fun mergedBase region => min mergedBase region.1) base ≤ addr ↔
      base ≤ addr ∨ ∃ region ∈ hits, region.1 ≤ addr := by
  induction hits generalizing base with
  | nil => simp
  | cons region hits ih =>
      rw [List.foldl_cons, ih, min_le_iff, or_assoc]
      simp

theorem lt_foldl_max_iff {hits : List Region} {newEnd addr : Nat} :
    addr < hits.foldl (fun mergedEnd region => max mergedEnd (region.1 + region.2)) newEnd ↔
      addr < newEnd ∨ ∃ region ∈ hits, addr < region.1 + region.2 := by
  induction hits generalizing newEnd with
  | nil => simp
  | cons region hits ih =>
      rw [List.foldl_cons, ih, lt_max_iff, or_assoc]
      simp

theorem overlaps_iff {base newEnd : Nat} {region : Region} :
    overlaps base newEnd region ↔ region.1 < newEnd ∧ base < region.1 + region.2 := by
  simp [overlaps]

theorem covers_append {regions others : List Region} {addr : Nat} :
    Covers (regions ++ others) addr ↔ Covers regions addr ∨ Covers others addr := by
  simp [Covers, or_and_right, exists_or]

theorem covers_singleton {region : Region} {addr : Nat} :
    Covers [region] addr ↔ region.1 ≤ addr ∧ addr < region.1 + region.2 := by
  simp [Covers]

/-- Merging adds the addresses of the new region and no others. -/
theorem covers_mergeRegion {base newEnd : Nat} {regions : List Region} {addr : Nat} :
    Covers (mergeRegion base newEnd regions) addr ↔
      Covers regions addr ∨ (base ≤ addr ∧ addr < newEnd) := by
  generalize hits_eq : regions.filter (overlaps base newEnd) = hits
  have hit : ∀ region ∈ hits, region ∈ regions ∧ region.1 < newEnd ∧
      base < region.1 + region.2 := by
    intro region mem
    rw [← hits_eq] at mem
    obtain ⟨mem, overlap⟩ := List.mem_filter.mp mem
    exact ⟨mem, overlaps_iff.mp overlap⟩
  have merged : Covers (mergeRegion base newEnd regions) addr ↔
      Covers (regions.filter fun region => !overlaps base newEnd region) addr ∨
        (base ≤ addr ∨ ∃ region ∈ hits, region.1 ≤ addr) ∧
          (addr < newEnd ∨ ∃ region ∈ hits, addr < region.1 + region.2) := by
    rw [mergeRegion, hits_eq, covers_append, covers_singleton, ← foldl_min_le_iff,
      ← lt_foldl_max_iff]
    apply or_congr_right
    apply and_congr_right
    intro low
    dsimp only
    omega
  rw [merged]
  constructor
  · rintro (⟨region, mem, inside⟩ | ⟨low, high⟩)
    · exact Or.inl ⟨region, (List.mem_filter.mp mem).1, inside⟩
    · rcases low with low | ⟨region, mem, low⟩
      · rcases high with high | ⟨region, mem, high⟩
        · exact Or.inr ⟨low, high⟩
        · by_cases below : addr < newEnd
          · exact Or.inr ⟨low, below⟩
          · exact Or.inl ⟨region, (hit region mem).1, by have := hit region mem; omega, high⟩
      · by_cases above : base ≤ addr
        · rcases high with high | ⟨other, otherMem, high⟩
          · exact Or.inr ⟨above, high⟩
          · by_cases below : addr < newEnd
            · exact Or.inr ⟨above, below⟩
            · exact Or.inl ⟨other, (hit other otherMem).1, by have := hit other otherMem; omega, high⟩
        · exact Or.inl ⟨region, (hit region mem).1, low, by have := hit region mem; omega⟩
  · rintro (⟨region, mem, low, high⟩ | ⟨low, high⟩)
    · by_cases overlap : overlaps base newEnd region
      · have isHit : region ∈ hits := hits_eq ▸ List.mem_filter.mpr ⟨mem, overlap⟩
        exact Or.inr ⟨Or.inr ⟨region, isHit, low⟩, Or.inr ⟨region, isHit, high⟩⟩
      · refine Or.inl ⟨region, List.mem_filter.mpr ⟨mem, ?_⟩, low, high⟩
        simpa using overlap
    · exact Or.inr ⟨Or.inl low, Or.inl high⟩

/-! ## The map -/

/-- Start of the DRAM. -/
def dramBase : Nat := 0x80000000

/-- Size of the default DRAM in bytes: `make_mems("2048")`. -/
def dramSize : Nat := 2048 * 2 ^ 20

/-- A PT_LOAD segment as `readelf` lists it. -/
structure LoadSegment where
  vaddr : Nat
  memsz : Nat
deriving DecidableEq, Repr

/-- `addr & ~0xFFF`. -/
def pageFloor (addr : Nat) : Nat := Nat.ldiff addr 0xFFF

/-- The extent of a segment in whole pages. -/
def LoadSegment.pageEnd (segment : LoadSegment) : Nat :=
  pageFloor (segment.vaddr + segment.memsz + 0xFFF)

/-- One turn of the loop over the segments. -/
def addSegment (regions : List Region) (segment : LoadSegment) : List Region :=
  let base := pageFloor segment.vaddr
  let size := segment.pageEnd - base
  if base ≥ dramBase then regions else mergeRegion base (base + size) regions

/-- One turn of the loop over the communication addresses. -/
def addComm (regions : List Region) (commAddr : Nat) : List Region :=
  if commAddr ≠ 0 ∧ commAddr < dramBase then
    let base := pageFloor commAddr
    mergeRegion base (base + 0x1000) regions
  else regions

/-- `get_spike_memory_map`, given the segments of the file and the addresses of
`tohost` and `fromhost` when the symbols exist. -/
def getSpikeMemoryMap (loadSegments : List LoadSegment) (tohost fromhost : Option Nat) :
    Option (List Region) :=
  if loadSegments = [] then none
  else
    let regions := loadSegments.foldl addSegment []
    let regions := [tohost.getD 0, fromhost.getD 0].foldl addComm regions
    let regions := regions.mergeSort fun region other => region.1 ≤ other.1
    if regions = [] then none else some regions

/-- The memory that the simulator is given: the map, or the default DRAM. -/
def Given (map : Option (List Region)) (addr : Nat) : Prop :=
  match map with
  | some regions => Covers regions addr
  | none => Covers [(dramBase, dramSize)] addr

/-! ## What the program needs -/

/-- The address belongs to the segment. -/
def LoadSegment.Contains (segment : LoadSegment) (addr : Nat) : Prop :=
  segment.vaddr ≤ addr ∧ addr < segment.vaddr + segment.memsz

/-- A segment lies below the DRAM, in the default DRAM, or straddles its base. -/
def LoadSegment.Placed (segment : LoadSegment) : Prop :=
  segment.vaddr + segment.memsz ≤ dramBase ∨
    (dramBase ≤ segment.vaddr ∧ segment.vaddr + segment.memsz ≤ dramBase + dramSize) ∨
    (segment.vaddr < dramBase ∧ dramBase < segment.vaddr + segment.memsz)

/-- Every address of a segment and both communication addresses are given. -/
def ReachesProgram (loadSegments : List LoadSegment) (tohost fromhost : Option Nat) : Prop :=
  (∀ segment ∈ loadSegments, ∀ addr, segment.Contains addr →
      Given (getSpikeMemoryMap loadSegments tohost fromhost) addr) ∧
    ∀ symbol ∈ [tohost, fromhost], ∀ addr, symbol = some addr →
      Given (getSpikeMemoryMap loadSegments tohost fromhost) addr

/-- A communication address for which a region is added. -/
def LowComm (commAddr : Nat) : Prop := commAddr ≠ 0 ∧ commAddr < dramBase

/-- Something of the program lies below the DRAM, so that a map is returned. -/
def LiesLow (loadSegments : List LoadSegment) (tohost fromhost : Option Nat) : Prop :=
  loadSegments ≠ [] ∧
    ((∃ segment ∈ loadSegments, segment.vaddr < dramBase) ∨
      ∃ commAddr ∈ [tohost.getD 0, fromhost.getD 0], LowComm commAddr)

/-- The address is in the pages of a segment that starts below the DRAM, or in the
page of a communication address there. -/
def InLowPages (loadSegments : List LoadSegment) (tohost fromhost : Option Nat) (addr : Nat) :
    Prop :=
  (∃ segment ∈ loadSegments, segment.vaddr < dramBase ∧
      pageFloor segment.vaddr ≤ addr ∧ addr < segment.pageEnd) ∨
    ∃ commAddr ∈ [tohost.getD 0, fromhost.getD 0], LowComm commAddr ∧
      pageFloor commAddr ≤ addr ∧ addr < pageFloor commAddr + 0x1000

theorem pageFloor_eq (addr : Nat) : pageFloor addr = addr / 0x1000 * 0x1000 :=
  ldiff_two_pow_sub_one addr 12

theorem dramBase_le_pageFloor {addr : Nat} : dramBase ≤ pageFloor addr ↔ dramBase ≤ addr := by
  rw [pageFloor_eq, dramBase]
  omega

/-- The pages of a segment contain the segment. -/
theorem LoadSegment.Contains.inPages {segment : LoadSegment} {addr : Nat}
    (contains : segment.Contains addr) : pageFloor segment.vaddr ≤ addr ∧ addr < segment.pageEnd := by
  obtain ⟨low, high⟩ := contains
  rw [LoadSegment.pageEnd, pageFloor_eq, pageFloor_eq]
  omega

theorem pageFloor_le_pageEnd (segment : LoadSegment) :
    pageFloor segment.vaddr ≤ segment.pageEnd := by
  rw [LoadSegment.pageEnd, pageFloor_eq, pageFloor_eq]
  omega

theorem covers_addSegment {regions : List Region} {segment : LoadSegment} {addr : Nat} :
    Covers (addSegment regions segment) addr ↔ Covers regions addr ∨
      (segment.vaddr < dramBase ∧ pageFloor segment.vaddr ≤ addr ∧ addr < segment.pageEnd) := by
  have whole := Nat.add_sub_cancel' (pageFloor_le_pageEnd segment)
  rw [addSegment]
  by_cases high : dramBase ≤ segment.vaddr
  · rw [if_pos (dramBase_le_pageFloor.mpr high)]
    have low : ¬ segment.vaddr < dramBase := not_lt.mpr high
    simp [low]
  · rw [if_neg fun above => high (dramBase_le_pageFloor.mp above), covers_mergeRegion, whole]
    simp [not_le.mp high]

theorem covers_foldl_addSegment {segments : List LoadSegment} {regions : List Region} {addr : Nat} :
    Covers (segments.foldl addSegment regions) addr ↔ Covers regions addr ∨
      ∃ segment ∈ segments, segment.vaddr < dramBase ∧
        pageFloor segment.vaddr ≤ addr ∧ addr < segment.pageEnd := by
  induction segments generalizing regions with
  | nil => simp
  | cons segment segments ih =>
      rw [List.foldl_cons, ih, covers_addSegment, or_assoc, List.exists_mem_cons_iff]

theorem covers_addComm {regions : List Region} {commAddr addr : Nat} :
    Covers (addComm regions commAddr) addr ↔ Covers regions addr ∨
      (LowComm commAddr ∧ pageFloor commAddr ≤ addr ∧ addr < pageFloor commAddr + 0x1000) := by
  rw [addComm, LowComm]
  by_cases low : commAddr ≠ 0 ∧ commAddr < dramBase
  · rw [if_pos low, covers_mergeRegion]
    simp [low]
  · rw [if_neg low]
    simp [low]

theorem covers_foldl_addComm {comms : List Nat} {regions : List Region} {addr : Nat} :
    Covers (comms.foldl addComm regions) addr ↔ Covers regions addr ∨
      ∃ commAddr ∈ comms, LowComm commAddr ∧
        pageFloor commAddr ≤ addr ∧ addr < pageFloor commAddr + 0x1000 := by
  induction comms generalizing regions with
  | nil => simp
  | cons commAddr comms ih =>
      rw [List.foldl_cons, ih, covers_addComm, or_assoc, List.exists_mem_cons_iff]

theorem mergeRegion_ne_nil (base newEnd : Nat) (regions : List Region) :
    mergeRegion base newEnd regions ≠ [] := by
  simp [mergeRegion]

theorem foldl_addSegment_eq_nil_iff {segments : List LoadSegment} {regions : List Region} :
    segments.foldl addSegment regions = [] ↔
      regions = [] ∧ ¬ ∃ segment ∈ segments, segment.vaddr < dramBase := by
  induction segments generalizing regions with
  | nil => simp
  | cons segment segments ih =>
      rw [List.foldl_cons, ih, addSegment, List.exists_mem_cons_iff]
      by_cases high : dramBase ≤ segment.vaddr
      · rw [if_pos (dramBase_le_pageFloor.mpr high)]
        simp [not_lt.mpr high]
      · rw [if_neg fun above => high (dramBase_le_pageFloor.mp above)]
        simp [not_le.mp high, mergeRegion_ne_nil]

theorem foldl_addComm_eq_nil_iff {comms : List Nat} {regions : List Region} :
    comms.foldl addComm regions = [] ↔
      regions = [] ∧ ¬ ∃ commAddr ∈ comms, LowComm commAddr := by
  induction comms generalizing regions with
  | nil => simp
  | cons commAddr comms ih =>
      rw [List.foldl_cons, ih, addComm, List.exists_mem_cons_iff]
      by_cases low : commAddr ≠ 0 ∧ commAddr < dramBase
      · rw [if_pos low]
        simp [LowComm, low, mergeRegion_ne_nil]
      · rw [if_neg low]
        simp [LowComm, low]

section Map

variable {loadSegments : List LoadSegment} {tohost fromhost : Option Nat}

/-- Without anything low no map is returned. -/
theorem getSpikeMemoryMap_eq_none (low : ¬ LiesLow loadSegments tohost fromhost) :
    getSpikeMemoryMap loadSegments tohost fromhost = none := by
  rw [getSpikeMemoryMap]
  by_cases empty : loadSegments = []
  · exact if_pos empty
  · have nothing : [tohost.getD 0, fromhost.getD 0].foldl addComm
        (loadSegments.foldl addSegment []) = [] := by
      rw [foldl_addComm_eq_nil_iff, foldl_addSegment_eq_nil_iff]
      refine ⟨⟨rfl, fun segment => low ⟨empty, Or.inl segment⟩⟩, fun comm => low ⟨empty, Or.inr comm⟩⟩
    rw [if_neg empty]
    dsimp only
    rw [nothing, List.mergeSort_nil, if_pos rfl]

/-- Otherwise the map has the regions that were inserted. -/
theorem getSpikeMemoryMap_eq_some (low : LiesLow loadSegments tohost fromhost) :
    ∃ regions, getSpikeMemoryMap loadSegments tohost fromhost = some regions ∧
      regions.Perm ([tohost.getD 0, fromhost.getD 0].foldl addComm
        (loadSegments.foldl addSegment [])) := by
  obtain ⟨nonempty, something⟩ := low
  have sorted := List.mergeSort_perm ([tohost.getD 0, fromhost.getD 0].foldl addComm
    (loadSegments.foldl addSegment [])) fun region other => decide (region.1 ≤ other.1)
  have some_eq : ([tohost.getD 0, fromhost.getD 0].foldl addComm
      (loadSegments.foldl addSegment [])).mergeSort
        (fun region other => decide (region.1 ≤ other.1)) ≠ [] := by
    intro nothing
    rw [nothing] at sorted
    have empty := sorted.nil_eq.symm
    rw [foldl_addComm_eq_nil_iff, foldl_addSegment_eq_nil_iff] at empty
    rcases something with segment | comm
    · exact empty.1.2 segment
    · exact empty.2 comm
  refine ⟨_, ?_, sorted⟩
  rw [getSpikeMemoryMap, if_neg nonempty]
  dsimp only
  rw [if_neg some_eq]

/-- Then exactly the low pages are given. -/
theorem given_iff_inLowPages (low : LiesLow loadSegments tohost fromhost) {addr : Nat} :
    Given (getSpikeMemoryMap loadSegments tohost fromhost) addr ↔
      InLowPages loadSegments tohost fromhost addr := by
  rcases getSpikeMemoryMap_eq_some low with ⟨regions, map, perm⟩
  have sameCover : Covers regions addr ↔ Covers ([tohost.getD 0, fromhost.getD 0].foldl addComm
      (loadSegments.foldl addSegment [])) addr := by
    simp only [Covers, perm.mem_iff]
  rw [map, Given, sameCover, covers_foldl_addComm, covers_foldl_addSegment, InLowPages]
  simp [Covers]

/-- The condition on the segments and symbols.  With something low, what the program
needs from the DRAM base on, and a communication address of zero, must lie in the
low pages; otherwise the communication addresses must lie in the default DRAM. -/
def MapSuffices (loadSegments : List LoadSegment) (tohost fromhost : Option Nat) : Prop :=
  (LiesLow loadSegments tohost fromhost →
    (∀ segment ∈ loadSegments, dramBase ≤ segment.vaddr → ∀ addr, segment.Contains addr →
        InLowPages loadSegments tohost fromhost addr) ∧
      ∀ symbol ∈ [tohost, fromhost], ∀ addr, symbol = some addr → ¬ LowComm addr →
        InLowPages loadSegments tohost fromhost addr) ∧
  (¬ LiesLow loadSegments tohost fromhost →
    ∀ symbol ∈ [tohost, fromhost], ∀ addr, symbol = some addr →
      dramBase ≤ addr ∧ addr < dramBase + dramSize)

/-- The simulator reaches the whole program exactly under that condition. -/
theorem reachesProgram_iff (placed : ∀ segment ∈ loadSegments, segment.Placed) :
    ReachesProgram loadSegments tohost fromhost ↔ MapSuffices loadSegments tohost fromhost := by
  rw [ReachesProgram, MapSuffices]
  by_cases low : LiesLow loadSegments tohost fromhost
  · simp only [given_iff_inLowPages low, low, true_imp_iff, not_true_eq_false, false_imp_iff,
      and_true]
    constructor
    · rintro ⟨segments, symbols⟩
      exact ⟨fun segment mem _ => segments segment mem,
        fun symbol mem addr found _ => symbols symbol mem addr found⟩
    · rintro ⟨segments, symbols⟩
      constructor
      · intro segment mem addr contains
        by_cases high : dramBase ≤ segment.vaddr
        · exact segments segment mem high addr contains
        · exact Or.inl ⟨segment, mem, not_le.mp high, contains.inPages⟩
      · intro symbol mem addr found
        by_cases lowComm : LowComm addr
        · have listed : addr ∈ [tohost.getD 0, fromhost.getD 0] := by
            have inTable := List.mem_map_of_mem (f := fun symbol => symbol.getD 0) mem
            rwa [found] at inTable
          have page : pageFloor addr ≤ addr ∧ addr < pageFloor addr + 0x1000 := by
            rw [pageFloor_eq]
            omega
          exact Or.inr ⟨addr, listed, lowComm, page⟩
        · exact symbols symbol mem addr found lowComm
  · simp only [getSpikeMemoryMap_eq_none low, low, false_imp_iff, not_false_eq_true, true_imp_iff,
      true_and, Given, covers_singleton]
    constructor
    · exact And.right
    · intro symbols
      refine ⟨?_, symbols⟩
      intro segment mem addr contains
      have high : dramBase ≤ segment.vaddr := by
        by_contra below
        exact low ⟨List.ne_nil_of_mem mem, Or.inl ⟨segment, mem, not_le.mp below⟩⟩
      obtain ⟨above, inside⟩ := contains
      rcases placed segment mem with lowRange | dram | straddles
      · omega
      · omega
      · omega

end Map

theorem reachesProgram_iff_dram :
    ReachesProgram [⟨0x80000000, 0x2000⟩] (some 0x80001000) (some 0x80001040) := by
  apply (reachesProgram_iff ?_).mpr
  · have high : ¬ LiesLow [⟨0x80000000, 0x2000⟩] (some 0x80001000) (some 0x80001040) := by
      simp [LiesLow, LowComm, dramBase]
    refine ⟨fun low => absurd low high, fun _ => ?_⟩
    simp [dramBase, dramSize]
  · simp [LoadSegment.Placed, dramBase, dramSize]

/-- With a segment below the DRAM and one in it, the map leaves the DRAM out. -/
theorem map_drops_dram :
    (∀ segment ∈ [(⟨0x1000, 0x1000⟩ : LoadSegment), ⟨0x80000000, 0x1000⟩], segment.Placed) ∧
      getSpikeMemoryMap [⟨0x1000, 0x1000⟩, ⟨0x80000000, 0x1000⟩] none none =
        some [(0x1000, 0x1000)] ∧
      ¬ ReachesProgram [⟨0x1000, 0x1000⟩, ⟨0x80000000, 0x1000⟩] none none := by
  have map : getSpikeMemoryMap [⟨0x1000, 0x1000⟩, ⟨0x80000000, 0x1000⟩] none none =
      some [(0x1000, 0x1000)] := by
    decide +kernel
  refine ⟨by simp [LoadSegment.Placed, dramBase, dramSize], map, ?_⟩
  rintro ⟨segments, _⟩
  have given := segments ⟨0x80000000, 0x1000⟩ (by simp) 0x80000000 (by simp [LoadSegment.Contains])
  rw [map, Given, covers_singleton] at given
  omega

end Difftest.Spike
