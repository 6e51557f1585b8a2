import Difftest.Spike.MemoryMap

/-!
# The memory map as a cover

The regions that are returned consist of whole pages, are sorted and do not meet each other,
and together they are exactly the pages of the segments and communication addresses below the
DRAM.  Each insertion replaces the regions that it overlaps by their hull, which has no gaps,
so it can not meet the regions that stay.  Without segments the source returns nothing, whatever
the communication addresses are.
-/

namespace Difftest.Spike

/-! ## Canonical regions -/

/-- The address lies in the region. -/
def Inside (region : Region) (addr : Nat) : Prop :=
  region.1 ≤ addr ∧ addr < region.1 + region.2

/-- No address lies in both regions. -/
def Apart (region other : Region) : Prop := ∀ addr, ¬ (Inside region addr ∧ Inside other addr)

instance : Std.Symm Apart := ⟨fun _ _ apart addr both => apart addr both.symm⟩

/-- The region consists of whole pages. -/
def WholePages (region : Region) : Prop := 0x1000 ∣ region.1 ∧ 0x1000 ∣ region.2

/-- What every insertion preserves. -/
structure Separate (regions : List Region) : Prop where
  pages : ∀ region ∈ regions, WholePages region
  apart : regions.Pairwise Apart

/-- Whole pages, in order and apart from each other. -/
structure Canonical (regions : List Region) : Prop extends Separate regions where
  sorted : regions.Pairwise fun region other => region.1 ≤ other.1

theorem separate_nil : Separate [] := ⟨nofun, List.Pairwise.nil⟩

/-! ## Merging -/

section Merge

variable {base newEnd : Nat} {regions : List Region}

theorem dvd_foldl_min {k : Nat} {hits : List Region} (isBase : k ∣ base)
    (bases : ∀ region ∈ hits, k ∣ region.1) :
    k ∣ hits.foldl (fun mergedBase region => min mergedBase region.1) base := by
  induction hits generalizing base with
  | nil => exact isBase
  | cons region hits inductionHypothesis =>
      rw [List.foldl_cons]
      apply inductionHypothesis
      · rcases min_choice base region.1 with same | same
        · rwa [same]
        · rw [same]
          exact bases region List.mem_cons_self
      · exact fun other mem => bases other (List.mem_cons_of_mem region mem)

theorem dvd_foldl_max {k : Nat} {hits : List Region} (isEnd : k ∣ newEnd)
    (ends : ∀ region ∈ hits, k ∣ region.1 + region.2) :
    k ∣ hits.foldl (fun mergedEnd region => max mergedEnd (region.1 + region.2)) newEnd := by
  induction hits generalizing newEnd with
  | nil => exact isEnd
  | cons region hits inductionHypothesis =>
      rw [List.foldl_cons]
      apply inductionHypothesis
      · rcases max_choice newEnd (region.1 + region.2) with same | same
        · rwa [same]
        · rw [same]
          exact ends region List.mem_cons_self
      · exact fun other mem => ends other (List.mem_cons_of_mem region mem)

/-- The hull that `mergeRegion` puts at the end. -/
def hull (base newEnd : Nat) (regions : List Region) : Region :=
  let hits := regions.filter (overlaps base newEnd)
  let mergedBase := hits.foldl (fun mergedBase region => min mergedBase region.1) base
  (mergedBase,
    hits.foldl (fun mergedEnd region => max mergedEnd (region.1 + region.2)) newEnd - mergedBase)

theorem mergeRegion_eq (base newEnd : Nat) (regions : List Region) :
    mergeRegion base newEnd regions =
      regions.filter (fun region => !overlaps base newEnd region) ++ [hull base newEnd regions] :=
  rfl

/-- The hull has no gaps: it consists of the new region and the ones that it overlaps. -/
theorem inside_hull_iff {addr : Nat} :
    Inside (hull base newEnd regions) addr ↔
      (∃ region ∈ regions, overlaps base newEnd region = true ∧ Inside region addr) ∨
        base ≤ addr ∧ addr < newEnd := by
  have only : mergeRegion base newEnd (regions.filter (overlaps base newEnd)) =
      [hull base newEnd regions] := by
    rw [mergeRegion_eq, hull, List.filter_filter, List.filter_filter]
    simp [hull]
  have covers := @covers_mergeRegion base newEnd (regions.filter (overlaps base newEnd)) addr
  rw [only, covers_singleton] at covers
  rw [Inside, covers, Covers]
  simp only [List.mem_filter, and_assoc, Inside]

theorem wholePages_hull (separate : Separate regions) (isBase : 0x1000 ∣ base)
    (isEnd : 0x1000 ∣ newEnd) : WholePages (hull base newEnd regions) := by
  have hits : ∀ region ∈ regions.filter (overlaps base newEnd), WholePages region :=
    fun region mem => separate.pages region (List.mem_filter.mp mem).1
  have low := dvd_foldl_min isBase fun region mem => (hits region mem).1
  have high := dvd_foldl_max isEnd fun region mem =>
    Nat.dvd_add (hits region mem).1 (hits region mem).2
  exact ⟨low, Nat.dvd_sub high low⟩

/-- An insertion keeps the regions apart. -/
theorem Separate.mergeRegion (separate : Separate regions) (isBase : 0x1000 ∣ base)
    (isEnd : 0x1000 ∣ newEnd) : Separate (mergeRegion base newEnd regions) := by
  rw [mergeRegion_eq]
  constructor
  · intro region mem
    rcases List.mem_append.mp mem with old | new
    · exact separate.pages region (List.mem_filter.mp old).1
    · rw [List.mem_singleton.mp new]
      exact wholePages_hull separate isBase isEnd
  · rw [List.pairwise_append]
    refine ⟨separate.apart.filter _, List.pairwise_singleton _ _, ?_⟩
    intro region mem other isHull addr
    rcases List.mem_filter.mp mem with ⟨old, stays⟩
    rw [Bool.not_eq_true'] at stays
    rw [List.mem_singleton.mp isHull, inside_hull_iff]
    rintro ⟨inside, ⟨hit, hitMem, overlap, insideHit⟩ | ⟨low, high⟩⟩
    · -- the region that stays and the one that is merged are two regions of the list
      have different : region ≠ hit := by
        rintro rfl
        rw [overlap] at stays
        cases stays
      exact separate.apart.forall old hitMem different addr ⟨inside, insideHit⟩
    · have overlap : overlaps base newEnd region = true :=
        overlaps_iff.mpr ⟨inside.1.trans_lt high, low.trans_lt inside.2⟩
      rw [overlap] at stays
      cases stays

end Merge

/-! ## The map -/

theorem dvd_pageFloor (addr : Nat) : 0x1000 ∣ pageFloor addr := by
  rw [pageFloor_eq]
  exact Nat.dvd_mul_left _ _

theorem Separate.addSegment {regions : List Region} (separate : Separate regions)
    (segment : LoadSegment) : Separate (addSegment regions segment) := by
  rw [Spike.addSegment]
  split
  · exact separate
  · apply separate.mergeRegion (dvd_pageFloor _)
    rw [Nat.add_sub_cancel' (pageFloor_le_pageEnd segment)]
    exact dvd_pageFloor _

theorem Separate.addComm {regions : List Region} (separate : Separate regions) (commAddr : Nat) :
    Separate (addComm regions commAddr) := by
  rw [Spike.addComm]
  split
  · exact separate.mergeRegion (dvd_pageFloor _)
      (Nat.dvd_add (dvd_pageFloor _) (Nat.dvd_refl _))
  · exact separate

theorem Separate.foldl {α : Type} {insert : List Region → α → List Region}
    (step : ∀ regions a, Separate regions → Separate (insert regions a)) (list : List α)
    {regions : List Region} (separate : Separate regions) :
    Separate (list.foldl insert regions) := by
  induction list generalizing regions with
  | nil => exact separate
  | cons a list inductionHypothesis => exact inductionHypothesis (step regions a separate)

/-- Sorting keeps the regions. -/
theorem Separate.mergeSort {regions : List Region} (separate : Separate regions) :
    Canonical (regions.mergeSort fun region other => decide (region.1 ≤ other.1)) := by
  have perm := List.mergeSort_perm regions fun region other => decide (region.1 ≤ other.1)
  refine ⟨⟨?_, ?_⟩, ?_⟩
  · exact fun region mem => separate.pages region (perm.mem_iff.mp mem)
  · exact (perm.pairwise_iff (fun apart => symm apart)).mpr separate.apart
  · have sorted := @List.pairwise_mergeSort _ (fun region other : Region =>
      decide (region.1 ≤ other.1)) (by simpa using fun a b c => Nat.le_trans)
      (by simpa using fun a b => Nat.le_total a b) regions
    simpa using sorted

/-- The pages that belong into the map: those of the segments whose rounded base is below the
DRAM and those of the communication addresses there. -/
def InPages (loadSegments : List LoadSegment) (tohost fromhost : Option Nat) (addr : Nat) : Prop :=
  (∃ segment ∈ loadSegments, pageFloor segment.vaddr < dramBase ∧
      pageFloor segment.vaddr ≤ addr ∧ addr < segment.pageEnd) ∨
    ∃ commAddr ∈ [tohost.getD 0, fromhost.getD 0], LowComm commAddr ∧
      pageFloor commAddr ≤ addr ∧ addr < pageFloor commAddr + 0x1000

theorem inPages_iff {loadSegments : List LoadSegment} {tohost fromhost : Option Nat} {addr : Nat} :
    InPages loadSegments tohost fromhost addr ↔ InLowPages loadSegments tohost fromhost addr := by
  have low : ∀ vaddr, pageFloor vaddr < dramBase ↔ vaddr < dramBase := by
    intro vaddr
    rw [← not_le, ← not_le, dramBase_le_pageFloor]
  rw [InPages, InLowPages]
  simp only [low]

/-- The map consists of whole pages in order, apart from each other, and covers exactly the
low pages of a program with at least one segment. -/
theorem getSpikeMemoryMap_canonical (loadSegments : List LoadSegment)
    (tohost fromhost : Option Nat) :
    Canonical ((getSpikeMemoryMap loadSegments tohost fromhost).getD []) ∧
      ∀ addr, Covers ((getSpikeMemoryMap loadSegments tohost fromhost).getD []) addr ↔
        loadSegments ≠ [] ∧ InPages loadSegments tohost fromhost addr := by
  have nothing : Canonical [] := ⟨separate_nil, List.Pairwise.nil⟩
  by_cases low : LiesLow loadSegments tohost fromhost
  · have regions : Canonical ((getSpikeMemoryMap loadSegments tohost fromhost).getD []) := by
      rw [getSpikeMemoryMap, if_neg low.1]
      dsimp only
      split
      · exact nothing
      · apply Separate.mergeSort
        apply Separate.foldl fun regions comm separate => separate.addComm comm
        exact Separate.foldl (fun regions segment separate => separate.addSegment segment) _
          separate_nil
    refine ⟨regions, ?_⟩
    intro addr
    rcases getSpikeMemoryMap_eq_some low with ⟨map, isMap, _⟩
    have given := @given_iff_inLowPages _ _ _ low addr
    rw [isMap, Given] at given
    rw [isMap, Option.getD_some, given, inPages_iff]
    exact (and_iff_right low.1).symm
  · rw [getSpikeMemoryMap_eq_none low]
    refine ⟨nothing, ?_⟩
    intro addr
    rw [Option.getD_none, inPages_iff]
    constructor
    · rintro ⟨region, mem, _⟩
      cases mem
    · rintro ⟨nonempty, ⟨segment, mem, below, _⟩ | ⟨commAddr, mem, below, _⟩⟩
      · exact absurd ⟨nonempty, Or.inl ⟨segment, mem, below⟩⟩ low
      · exact absurd ⟨nonempty, Or.inr ⟨commAddr, mem, below⟩⟩ low

/-- Without segments the page of `tohost` is not in the map. -/
theorem getSpikeMemoryMap_no_segments :
    InPages [] (some 0x1000) none 0x1000 ∧
      ¬ Covers ((getSpikeMemoryMap [] (some 0x1000) none).getD []) 0x1000 := by
  constructor
  · have page : pageFloor 0x1000 = 0x1000 := by rw [pageFloor_eq]
    refine Or.inr ⟨0x1000, by simp, by simp [LowComm, dramBase], ?_, ?_⟩
    · exact page.le
    · rw [page]
      simp
  · rintro ⟨region, mem, _⟩
    cases mem

end Difftest.Spike
