import Difftest.Spike.Bus
import Difftest.Spike.CanonicalMap
import Difftest.Text.Strtoull

/-!
# The memory map as an argument

The driver writes the regions of the memory map as hexadecimal pairs, and the simulator
reads them, rounds them to pages and merges what overlaps.  The merging moves regions in a
vector while it goes through it from the back.  A canonical map needs no merging, so the
simulator gets the map that was computed.
-/

namespace Difftest.Spike

open Text

/-! ## Writing -/

/-- A region, with the prefix that the simulator requires. -/
def regionStr (region : Region) : Text :=
  hexNumeral 0 region.1 ++ ':' :: hexNumeral 0 region.2

/-- `mem_map_str`. -/
def memMapStr (regions : List Region) : Text := [','].intercalate (regions.map regionStr)

/-! ## Reading -/

/-- How the simulator ends when it can not make its memories. -/
inductive MemsError
  /-- `help()`. -/
  | help
  /-- "zero bytes of target memory requested". -/
  | zeroBytes
  /-- An assertion, or a reference to an element that was erased. -/
  | merging
deriving DecidableEq, Repr

/-- Page-align a base and a size. -/
def alignTuple (base0 size0 : Nat) : Region :=
  let size := (size0 + base0 % pgsize) % 2 ^ 64
  (base0 - base0 % pgsize,
    if size % pgsize ≠ 0 then (size + (pgsize - size % pgsize)) % 2 ^ 64 else size)

/-- The loop of `make_mems` over the pairs of the argument. -/
def memTuples (arg : Text) : Except MemsError (List Region) :=
  match _atBase : (strtoull arg).2 with
  | ':' :: afterBase =>
      let region := alignTuple (strtoull arg).1 (strtoull afterBase).1
      if (region.1 + region.2) % 2 ^ 64 < region.1 then .error .help
      else if region.2 = 0 then .error .zeroBytes
      else
        match _atSize : (strtoull afterBase).2 with
        | [] => .ok [region]
        | ',' :: rest => do return region :: (← memTuples rest)
        | _ => .error .help
  | _ => .error .help
termination_by arg.length
decreasing_by
  have base := length_strtoull_le arg
  have size := length_strtoull_le afterBase
  rw [_atBase, List.length_cons] at base
  rw [_atSize, List.length_cons] at size
  omega

/-! ## Merging -/

/-- The variables of `merge_overlapping_memory_regions`; the element that `_it` points to is
given by its index. -/
structure Merging where
  mems : List Region
  kept : Nat
  startPage : Nat
  endPage : Nat
deriving DecidableEq, Repr

/-- One turn of the loop, at the element with an index. -/
def mergeTurn (index : Nat) (state : Merging) : Except MemsError Merging :=
  match state.mems[index]? with
  | none => .error .merging
  | some region =>
      let first := region.1 / pgsize
      let last := (first + region.2 / pgsize) % 2 ^ 64
      if first ≥ state.startPage ∧ last ≤ state.endPage then
        .ok { state with mems := state.mems.eraseIdx index }
      else if first < state.startPage ∧ last > state.startPage then
        match state.mems[state.kept]? with
        | none => .error .merging
        | some kept =>
            .ok { state with
                  mems := (state.mems.set state.kept (first, kept.2)).eraseIdx index
                  endPage := if last > state.endPage then last else state.endPage }
      else if first < last then
        .ok { state with kept := index, startPage := first, endPage := last }
      else .error .merging

/-- The turns at the elements before an index, from the back. -/
def mergeTurns : (index : Nat) → Merging → Except MemsError Merging
  | 0, state => .ok state
  | index + 1, state => do mergeTurns index (← mergeTurn index state)

/-- `sort_mem_region`, as an order. -/
def sortMemRegion (a b : Region) : Bool :=
  if a.1 = b.1 then decide (a.2 ≤ b.2) else decide (a.1 < b.1)

/-- `merge_overlapping_memory_regions`. -/
def mergeOverlappingMemoryRegions (mems : List Region) : Except MemsError (List Region) := do
  let sorted := mems.mergeSort sortMemRegion
  let state ← mergeTurns sorted.length { mems := sorted, kept := sorted.length - 1
                                         startPage := 0, endPage := 0 }
  return state.mems

/-- `make_mems`. -/
def makeMems (arg : Text) : Except MemsError (List Region) := do
  let mb := strtoull arg
  if mb.2 = [] then
    let size := (mb.1 <<< 20) % 2 ^ 64
    if size = 0 then throw .zeroBytes
    return [(dramBase, size)]
  else
    let res ← memTuples arg
    mergeOverlappingMemoryRegions res

/-! ## A canonical map is read as it was written -/

/-- A region of whole pages in the address space. -/
structure Addressable (region : Region) : Prop where
  pages : WholePages region
  fits : region.1 + region.2 < 2 ^ 64

/-- A region that can be a memory. -/
structure Allocatable (region : Region) : Prop extends Addressable region where
  positive : 0 < region.2

section RoundTrip

variable {region : Region} {regions : List Region}

theorem alignTuple_eq (addressable : Addressable region) : alignTuple region.1 region.2 = region := by
  have base : region.1 % pgsize = 0 := Nat.mod_eq_zero_of_dvd addressable.pages.1
  have size : region.2 % pgsize = 0 := Nat.mod_eq_zero_of_dvd addressable.pages.2
  have small : region.2 % 2 ^ 64 = region.2 :=
    Nat.mod_eq_of_lt ((Nat.le_add_left _ _).trans_lt addressable.fits)
  simp only [alignTuple, base, Nat.add_zero, small, size, Nat.sub_zero, ne_eq, not_true, if_false]

theorem stopsDigits_cons {c : Char} (stops : digitValue 16 c = none) (rest : Text) :
    StopsDigits 16 (c :: rest) := by
  rintro _ ⟨⟩
  exact stops

/-- Both numbers of a pair are scanned. -/
theorem strtoull_regionStr (addressable : Addressable region) {rest : Text}
    (stops : StopsDigits 16 rest) :
    ∃ afterBase, strtoull (regionStr region ++ rest) = (region.1, ':' :: afterBase) ∧
      strtoull afterBase = (region.2, rest) := by
  have fits := addressable.fits
  refine ⟨hexNumeral 0 region.2 ++ rest, ?_, strtoull_hexNumeral (by omega) stops⟩
  rw [regionStr, List.append_assoc]
  exact strtoull_hexNumeral (by omega) (stopsDigits_cons (by decide) _)

theorem not_wrapped (addressable : Addressable region) :
    ¬ (region.1 + region.2) % 2 ^ 64 < region.1 := by
  rw [Nat.mod_eq_of_lt addressable.fits]
  omega

/-- The last pair of the argument. -/
theorem memTuples_last (allocatable : Allocatable region) :
    memTuples (regionStr region) = .ok [region] := by
  obtain ⟨afterBase, base, size⟩ := strtoull_regionStr allocatable.toAddressable (show StopsDigits 16 [] from nofun)
  have nonzero : ¬ region.2 = 0 := Nat.ne_of_gt allocatable.positive
  rw [List.append_nil] at base
  rw [memTuples]
  split
  · rename_i found atBase
    rw [base] at atBase
    cases atBase
    simp only [base, size, alignTuple_eq allocatable.toAddressable,
      if_neg (not_wrapped allocatable.toAddressable),
      if_neg nonzero]
    split
    · rfl
    · rename_i atSize
      rw [size] at atSize
      cases atSize
    · rename_i notEnd _
      exact absurd (congrArg Prod.snd size) notEnd
  · rename_i other
    exact absurd (congrArg Prod.snd base) (other afterBase)

/-- A pair of the argument before others. -/
theorem memTuples_more (allocatable : Allocatable region) (more : Text) :
    memTuples (regionStr region ++ ',' :: more) =
      (memTuples more).map fun regions => region :: regions := by
  obtain ⟨afterBase, base, size⟩ :=
    strtoull_regionStr allocatable.toAddressable (stopsDigits_cons (by decide : digitValue 16 ',' = none) more)
  have nonzero : ¬ region.2 = 0 := Nat.ne_of_gt allocatable.positive
  rw [memTuples]
  split
  · rename_i found atBase
    rw [base] at atBase
    cases atBase
    simp only [base, size, alignTuple_eq allocatable.toAddressable,
      if_neg (not_wrapped allocatable.toAddressable),
      if_neg nonzero]
    split
    · rename_i atSize
      rw [size] at atSize
      cases atSize
    · rename_i atSize
      rw [size] at atSize
      cases atSize
      cases memTuples more with
      | error => rfl
      | ok regions => rfl
    · rename_i _ other
      exact absurd (congrArg Prod.snd size) (other more)
  · rename_i other
    exact absurd (congrArg Prod.snd base) (other afterBase)

/-- A pair without a size ends the simulator. -/
theorem memTuples_zero (addressable : Addressable region) (zero : region.2 = 0) {rest : Text}
    (stops : StopsDigits 16 rest) : memTuples (regionStr region ++ rest) = .error .zeroBytes := by
  obtain ⟨afterBase, base, size⟩ := strtoull_regionStr addressable stops
  rw [memTuples]
  split
  · rename_i found atBase
    rw [base] at atBase
    cases atBase
    simp only [base, size, alignTuple_eq addressable, if_neg (not_wrapped addressable), if_pos zero]
  · rename_i other
    exact absurd (congrArg Prod.snd base) (other afterBase)

/-- What follows the first pair of the argument. -/
theorem memMapStr_cons (region : Region) (rest : List Region) :
    ∃ more, StopsDigits 16 more ∧ memMapStr (region :: rest) = regionStr region ++ more := by
  cases rest with
  | nil => exact ⟨[], nofun, rfl⟩
  | cons next others => exact ⟨_, stopsDigits_cons (by decide) _, rfl⟩

/-- The pairs of the argument are the regions. -/
theorem memTuples_memMapStr (nonempty : regions ≠ [])
    (allocatable : ∀ region ∈ regions, Allocatable region) :
    memTuples (memMapStr regions) = .ok regions := by
  induction regions with
  | nil => exact absurd rfl nonempty
  | cons region rest inductionHypothesis =>
      cases rest with
      | nil =>
          have shape : memMapStr [region] = regionStr region := List.append_nil _
          rw [shape]
          exact memTuples_last (allocatable region List.mem_cons_self)
      | cons next others =>
          have later := inductionHypothesis (List.cons_ne_nil next others)
            fun region mem => allocatable region (List.mem_cons_of_mem _ mem)
          have shape : memMapStr (region :: next :: others) =
              regionStr region ++ ',' :: memMapStr (next :: others) := rfl
          rw [shape, memTuples_more (allocatable region List.mem_cons_self), later]
          rfl

/-- A turn keeps a region that lies before the ones that were kept. -/
theorem mergeTurn_before {state : Merging} {index : Nat} (here : state.mems[index]? = some region)
    (allocatable : Allocatable region)
    (before : (state.startPage = 0 ∧ state.endPage = 0) ∨
      region.1 + region.2 ≤ state.startPage * pgsize) :
    mergeTurn index state =
      .ok { state with
            kept := index
            startPage := region.1 / pgsize
            endPage := (region.1 + region.2) / pgsize } := by
  obtain ⟨baseIndex, base⟩ := allocatable.pages.1
  obtain ⟨sizeIndex, size⟩ := allocatable.pages.2
  have positive := allocatable.positive
  have fits := allocatable.fits
  have first : region.1 / pgsize = baseIndex := by
    rw [base]
    exact Nat.mul_div_cancel_left _ (by decide)
  have pages : region.2 / pgsize = sizeIndex := by
    rw [size]
    exact Nat.mul_div_cancel_left _ (by decide)
  have last : (region.1 + region.2) / pgsize = baseIndex + sizeIndex := by
    rw [base, size, ← Nat.mul_add]
    exact Nat.mul_div_cancel_left _ (by decide)
  have small : (baseIndex + sizeIndex) % 2 ^ 64 = baseIndex + sizeIndex :=
    Nat.mod_eq_of_lt (by omega)
  have order : ¬ (baseIndex ≥ state.startPage ∧ baseIndex + sizeIndex ≤ state.endPage) ∧
      ¬ (baseIndex < state.startPage ∧ baseIndex + sizeIndex > state.startPage) ∧
        baseIndex < baseIndex + sizeIndex := by
    rw [pgsize] at before
    omega
  simp only [mergeTurn, here, first, pages, last, small, if_neg order.1, if_neg order.2.1,
    if_pos order.2.2]

/-- The turns keep regions that are in order and apart. -/
theorem mergeTurns_canonical (allocatable : ∀ region ∈ regions, Allocatable region)
    (ordered : regions.Pairwise fun region other => region.1 + region.2 ≤ other.1) (index : Nat) :
    ∀ {state : Merging}, index ≤ regions.length → state.mems = regions →
      ((state.startPage = 0 ∧ state.endPage = 0) ∨
        ∀ i < index, ∀ region, regions[i]? = some region →
          region.1 + region.2 ≤ state.startPage * pgsize) →
        (mergeTurns index state).map Merging.mems = .ok regions := by
  induction index with
  | zero =>
      intro state _ mems _
      exact congrArg Except.ok mems
  | succ index inductionHypothesis =>
      intro state inside mems before
      have here : regions[index]? = some regions[index] := List.getElem?_eq_getElem inside
      have mem := List.getElem_mem inside
      rw [mergeTurns, mergeTurn_before (mems ▸ here) (allocatable _ mem)
        (before.imp_right fun before => before index (Nat.lt_succ_self index) _ here)]
      change (mergeTurns index _).map Merging.mems = _
      refine inductionHypothesis (Nat.le_of_succ_le inside) mems (Or.inr ?_)
      intro i below region found
      obtain ⟨shorter, rfl⟩ := List.getElem?_eq_some_iff.mp found
      have apart := List.pairwise_iff_getElem.mp ordered i index shorter inside below
      have whole : regions[index].1 / pgsize * pgsize = regions[index].1 :=
        Nat.div_mul_cancel (allocatable _ mem).pages.1
      exact apart.trans_eq whole.symm

/-- Regions that are canonical and not empty are in order and apart. -/
theorem Canonical.ordered (canonical : Canonical regions)
    (positive : ∀ region ∈ regions, 0 < region.2) :
    regions.Pairwise fun region other => region.1 + region.2 ≤ other.1 := by
  apply (canonical.apart.and canonical.sorted).imp_of_mem
  rintro region other mem otherMem ⟨apart, sorted⟩
  by_contra crossing
  have inside := positive other otherMem
  apply apart other.1
  constructor
  · exact ⟨sorted, Nat.lt_of_not_le crossing⟩
  · exact ⟨Nat.le_refl _, Nat.lt_add_of_pos_right inside⟩

/-- Merging leaves a canonical map as it is. -/
theorem mergeOverlapping_canonical (canonical : Canonical regions)
    (allocatable : ∀ region ∈ regions, Allocatable region) :
    mergeOverlappingMemoryRegions regions = .ok regions := by
  have ordered := canonical.ordered fun region mem => (allocatable region mem).positive
  have sorted : regions.mergeSort sortMemRegion = regions := by
    apply List.mergeSort_of_pairwise
    apply ordered.imp_of_mem
    intro region other mem _ apart
    have positive := (allocatable region mem).positive
    have different : region.1 ≠ other.1 := by omega
    rw [sortMemRegion, if_neg different]
    exact decide_eq_true (by omega)
  have merged := @mergeTurns_canonical regions allocatable ordered regions.length
    { mems := regions, kept := regions.length - 1, startPage := 0, endPage := 0 } (Nat.le_refl _)
    rfl (Or.inl ⟨rfl, rfl⟩)
  rw [mergeOverlappingMemoryRegions, sorted]
  exact merged

/-- The argument is not a number of megabytes. -/
theorem strtoull_memMapStr (nonempty : regions ≠ [])
    (addressable : ∀ region ∈ regions, Addressable region) :
    (strtoull (memMapStr regions)).2 ≠ [] := by
  obtain ⟨region, rest, rfl⟩ := List.exists_cons_of_ne_nil nonempty
  obtain ⟨more, stops, shape⟩ := memMapStr_cons region rest
  obtain ⟨afterBase, base, _⟩ :=
    strtoull_regionStr (addressable region List.mem_cons_self) stops
  rw [shape, base]
  exact List.cons_ne_nil _ _

/-- The simulator gets the map that the driver writes. -/
theorem makeMems_memMapStr (nonempty : regions ≠ []) (canonical : Canonical regions)
    (allocatable : ∀ region ∈ regions, Allocatable region) :
    makeMems (memMapStr regions) = .ok regions := by
  have pairs := strtoull_memMapStr nonempty fun region mem => (allocatable region mem).toAddressable
  simp only [makeMems, if_neg pairs, memTuples_memMapStr nonempty allocatable]
  exact mergeOverlapping_canonical canonical allocatable

/-- A region without a size ends the simulator wherever it is. -/
theorem memTuples_some_zero (addressable : ∀ region ∈ regions, Addressable region)
    (zero : ∃ region ∈ regions, region.2 = 0) :
    memTuples (memMapStr regions) = .error .zeroBytes := by
  induction regions with
  | nil =>
      obtain ⟨region, mem, _⟩ := zero
      cases mem
  | cons region rest inductionHypothesis =>
      obtain ⟨more, stops, shape⟩ := memMapStr_cons region rest
      have here := addressable region List.mem_cons_self
      by_cases empty : region.2 = 0
      · rw [shape]
        exact memTuples_zero here empty stops
      · have later : ∃ region ∈ rest, region.2 = 0 := by
          obtain ⟨other, mem, isZero⟩ := zero
          rcases List.mem_cons.mp mem with rfl | mem
          · exact absurd isZero empty
          · exact ⟨other, mem, isZero⟩
        cases rest with
        | nil =>
            obtain ⟨other, mem, _⟩ := later
            cases mem
        | cons next others =>
            have failed := inductionHypothesis
              (fun region mem => addressable region (List.mem_cons_of_mem _ mem)) later
            have written : memMapStr (region :: next :: others) =
                regionStr region ++ ',' :: memMapStr (next :: others) := rfl
            rw [written, memTuples_more ⟨here, Nat.pos_of_ne_zero empty⟩, failed]
            rfl

end RoundTrip

section Driver

variable {limit base newEnd : Nat} {regions : List Region}

/-- The regions have sizes and end by a limit. -/
def Within (limit : Nat) (regions : List Region) : Prop :=
  ∀ region ∈ regions, 0 < region.2 ∧ region.1 + region.2 ≤ limit

/-- An insertion of a region with a size keeps the regions so. -/
theorem Within.mergeRegion (within : Within limit regions) (positive : base < newEnd)
    (below : newEnd ≤ limit) : Within limit (mergeRegion base newEnd regions) := by
  intro region mem
  rw [mergeRegion_eq, List.mem_append, List.mem_singleton] at mem
  rcases mem with old | rfl
  · exact within region (List.mem_filter.mp old).1
  · have start : Inside (hull base newEnd regions) base :=
      inside_hull_iff.mpr (Or.inr ⟨Nat.le_refl _, positive⟩)
    obtain ⟨low, high⟩ := start
    refine ⟨by omega, Nat.le_of_not_lt ?_⟩
    intro beyond
    have last : Inside (hull base newEnd regions) limit := ⟨by omega, beyond⟩
    rcases inside_hull_iff.mp last with ⟨region, mem, _, _, inside⟩ | ⟨_, inside⟩
    · exact absurd (within region mem).2 (Nat.not_le.mpr inside)
    · omega

theorem Within.foldl {α : Type} {insert : List Region → α → List Region} {list : List α}
    (step : ∀ a ∈ list, ∀ regions, Within limit regions → Within limit (insert regions a))
    (within : Within limit regions) : Within limit (list.foldl insert regions) := by
  induction list generalizing regions with
  | nil => exact within
  | cons a list inductionHypothesis =>
      exact inductionHypothesis (fun a mem => step a (List.mem_cons_of_mem _ mem))
        (step a List.mem_cons_self regions within)

theorem Within.addSegment (within : Within limit regions) {segment : LoadSegment}
    (positive : 0 < segment.memsz) (pages : 0x1000 ∣ limit)
    (below : segment.vaddr + segment.memsz ≤ limit) : Within limit (addSegment regions segment) := by
  rw [Spike.addSegment]
  split
  · exact within
  · obtain ⟨index, rfl⟩ := pages
    have start := pageFloor_eq segment.vaddr
    have finish := pageFloor_eq (segment.vaddr + segment.memsz + 0xFFF)
    rw [← LoadSegment.pageEnd] at finish
    apply within.mergeRegion
    · omega
    · omega

theorem Within.addComm (within : Within limit regions) (commAddr : Nat) (above : dramBase ≤ limit) :
    Within limit (addComm regions commAddr) := by
  rw [Spike.addComm]
  split
  · rename_i low
    have start := pageFloor_eq commAddr
    rw [dramBase] at *
    apply within.mergeRegion
    · omega
    · omega
  · exact within

/-- The regions of the map have sizes and end by the limit of the segments, when no segment
is empty. -/
theorem within_getSpikeMemoryMap {loadSegments : List LoadSegment} {tohost fromhost : Option Nat}
    (map : getSpikeMemoryMap loadSegments tohost fromhost = some regions) (pages : 0x1000 ∣ limit)
    (above : dramBase ≤ limit)
    (segments : ∀ segment ∈ loadSegments, 0 < segment.memsz ∧ segment.vaddr + segment.memsz ≤ limit) :
    Within limit regions := by
  rw [getSpikeMemoryMap] at map
  split at map
  · cases map
  · dsimp only at map
    split at map
    · cases map
    · cases map
      have perm := List.mergeSort_perm
        ([tohost.getD 0, fromhost.getD 0].foldl addComm (loadSegments.foldl addSegment []))
        fun region other => decide (region.1 ≤ other.1)
      intro region mem
      have none : Within limit [] := by
        intro region mem
        cases mem
      have filled : Within limit (loadSegments.foldl addSegment []) :=
        none.foldl fun segment mem _ within =>
          within.addSegment (segments segment mem).1 pages (segments segment mem).2
      exact filled.foldl (fun commAddr _ _ within => within.addComm commAddr above) region
        (perm.mem_iff.mp mem)

theorem getSpikeMemoryMap_ne_nil {loadSegments : List LoadSegment} {tohost fromhost : Option Nat}
    (map : getSpikeMemoryMap loadSegments tohost fromhost = some regions) : regions ≠ [] := by
  rw [getSpikeMemoryMap] at map
  split at map
  · cases map
  · dsimp only at map
    split at map
    · cases map
    · rename_i nonempty
      cases map
      exact nonempty

/-- For a program of 32-bit addresses without empty segments the simulator gets the map that
was computed from its segments, page for page. -/
theorem makeMems_getSpikeMemoryMap {loadSegments : List LoadSegment} {tohost fromhost : Option Nat}
    (map : getSpikeMemoryMap loadSegments tohost fromhost = some regions)
    (segments : ∀ segment ∈ loadSegments, 0 < segment.memsz ∧
      segment.vaddr + segment.memsz ≤ 2 ^ 32) :
    makeMems (memMapStr regions) = .ok regions := by
  have canonical := (getSpikeMemoryMap_canonical loadSegments tohost fromhost).1
  rw [map, Option.getD_some] at canonical
  have within := within_getSpikeMemoryMap map (by decide) (by decide) segments
  apply makeMems_memMapStr (getSpikeMemoryMap_ne_nil map) canonical
  intro region mem
  obtain ⟨positive, fits⟩ := within region mem
  exact ⟨⟨canonical.pages region mem, by omega⟩, positive⟩

end Driver

end Difftest.Spike
