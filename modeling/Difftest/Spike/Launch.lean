import Difftest.Spike.LoadElf
import Difftest.Spike.SimBus

/-!
# Launching the simulator

The driver computes a memory map from the segments of the program, the simulator makes its
memories from it, attaches them and loads the program through its own memory interface.
When the map reaches the program and no device is in the way, the memories then hold what
the dictionary of the driver holds, which is what the hardware starts with.
-/

namespace Difftest.Spike

open ByteMemory Elf

/-! ## The memories -/

/-- The memories of a simulator that is given a memory map, or none. -/
def spikeMems (map : Option (List Region)) : Except MemsError (List Region) :=
  match map with
  | some regions => makeMems (memMapStr regions)
  | none => makeMems "2048".toList

/-- The segments of a file as `readelf` lists them. -/
def listedSegments (buf : List UInt8) : List LoadSegment :=
  (ptLoad buf).map fun seg => { vaddr := seg.vaddr, memsz := seg.memsz }

/-- The memory map of a file. -/
def spikeMap (buf : List UInt8) (tohost fromhost : Option Nat) : Option (List Region) :=
  getSpikeMemoryMap (listedSegments buf) tohost fromhost

/-- A program of 32-bit addresses. -/
def Is32 (buf : List UInt8) : Prop := ∀ seg ∈ ptLoad buf, seg.vaddr + seg.memsz ≤ 2 ^ 32

section Launch

variable {δ : Type} {buf : List UInt8} {tohost fromhost : Option Nat}

theorem simMems_dram : SimMems [(dramBase, dramSize)] := by
  constructor
  · exact List.pairwise_singleton _ _
  · intro region mem
    rw [List.mem_singleton.mp mem]
    decide
  · intro region mem
    rw [List.mem_singleton.mp mem]
    exact ⟨by decide, by decide⟩

/-- The simulator makes memories that hold the addresses that are given. -/
theorem exists_spikeMems (loadable : IsLoadable buf) (is32 : Is32 buf) :
    ∃ mems, spikeMems (spikeMap buf tohost fromhost) = .ok mems ∧ SimMems mems ∧
      ∀ addr, Given (spikeMap buf tohost fromhost) addr ↔ ∃ region ∈ mems, Inside region addr := by
  cases map : spikeMap buf tohost fromhost with
  | none => exact ⟨[(dramBase, dramSize)], by decide, simMems_dram, fun addr => Iff.rfl⟩
  | some regions =>
      have segments : ∀ segment ∈ listedSegments buf,
          0 < segment.memsz ∧ segment.vaddr + segment.memsz ≤ 2 ^ 32 := by
        intro segment mem
        obtain ⟨seg, isSegment, rfl⟩ := List.mem_map.mp mem
        exact ⟨(loadable.loadable seg isSegment).nonempty, is32 seg isSegment⟩
      have canonical := (getSpikeMemoryMap_canonical (listedSegments buf) tohost fromhost).1
      rw [← spikeMap, map, Option.getD_some] at canonical
      have within := within_getSpikeMemoryMap map (by decide) (by decide) segments
      have positive : ∀ region ∈ regions, 0 < region.2 := fun region mem => (within region mem).1
      exact ⟨regions, makeMems_getSpikeMemoryMap map segments,
        ⟨canonical.ordered positive, positive, canonical.pages⟩, fun addr => Iff.rfl⟩

/-! ## The program in the memories -/

/-- No device is attached between the base of a region and an address of the program in it. -/
def Clear (buf : List UInt8) (mems : List Region) (bases : List Nat) : Prop :=
  ∀ seg ∈ ptLoad buf, ∀ addr, seg.vaddr ≤ addr → addr < seg.vaddr + seg.memsz →
    ∀ region ∈ mems, Inside region addr → ∀ base ∈ bases, ¬ (region.1 ≤ base ∧ base ≤ addr)

end Launch

/-- An ELF32 file with a segment of a word and a zero word at the start of the DRAM. -/
def wordElf : List UInt8 :=
  elfMagic ++ [1, 1, 1] ++ List.replicate 9 0 ++ [2, 0, 0xf3, 0, 1, 0, 0, 0, 0, 0, 0, 0x80] ++
    [52, 0, 0, 0, 84, 0, 0, 0, 0, 0, 0, 0, 52, 0, 32, 0, 1, 0, 40, 0, 1, 0, 0, 0] ++
    [1, 0, 0, 0, 124, 0, 0, 0, 0, 0, 0, 0x80, 0, 0, 0, 0x80, 4, 0, 0, 0, 8, 0, 0, 0] ++
    [5, 0, 0, 0, 4, 0, 0, 0] ++ [0, 0, 0, 0, 3, 0, 0, 0] ++ List.replicate 8 0 ++
    [128, 0, 0, 0, 1, 0, 0, 0] ++ List.replicate 16 0 ++ [0x13, 0, 0, 0, 0]

theorem ptLoad_wordElf :
    ptLoad wordElf = [{ offset := 124, vaddr := 0x80000000, filesz := 4, memsz := 8 }] := by
  decide

set_option maxRecDepth 4000 in
theorem loadSymbols_wordElf : loadSymbols wordElf = .ok Dict.empty := by rfl

theorem length_wordElf : wordElf.length = 129 := by rfl

theorem accepted_wordElf : Accepted wordElf Dict.empty := by
  constructor
  · rw [length_wordElf]
    decide
  · rfl
  · exact Or.inl rfl
  · rfl
  · rfl
  · exact Or.inl rfl
  · rfl
  · rfl
  · rw [length_wordElf]
    decide
  · exact loadSymbols_wordElf
  · decide

theorem isLoadable_wordElf : IsLoadable wordElf := by
  constructor
  · rw [ptLoad_wordElf]
    intro seg mem
    rw [List.mem_singleton.mp mem]
    refine ⟨by decide, by decide, ?_⟩
    rw [length_wordElf]
    decide
  · rw [ptLoad_wordElf]
    exact List.pairwise_singleton _ _

/-- The debug module and the interrupt controller, before the reset. -/
def muteDevices : SimDevices Unit :=
  { pluginDevices := [], debugModule := mutePlain, clintBase := 0x02000000, clint := mutePlain
    bootRom := none }

theorem listedSegments_wordElf : listedSegments wordElf = [{ vaddr := 0x80000000, memsz := 8 }] := by
  rw [listedSegments, ptLoad_wordElf]
  rfl

theorem spikeMap_wordElf : spikeMap wordElf none none = none := by
  rw [spikeMap, listedSegments_wordElf]
  apply getSpikeMemoryMap_eq_none
  rintro ⟨_, ⟨segment, mem, low⟩ | ⟨commAddr, mem, low⟩⟩
  · rw [List.mem_singleton.mp mem] at low
    exact absurd low (by decide)
  · simp only [List.mem_cons, List.not_mem_nil, or_false, or_self] at mem
    rw [mem] at low
    exact absurd rfl low.1

theorem reachesProgram_wordElf : ReachesProgram (listedSegments wordElf) none none := by
  constructor
  · intro segment mem addr contains
    have none := spikeMap_wordElf
    rw [spikeMap] at none
    rw [none]
    rw [listedSegments_wordElf, List.mem_singleton] at mem
    rw [mem] at contains
    exact ⟨(dramBase, dramSize), List.mem_singleton_self _, contains.1,
      contains.2.trans (by decide)⟩
  · intro symbol mem addr found
    simp only [List.mem_cons, List.not_mem_nil, or_false, or_self] at mem
    rw [mem] at found
    cases found

end Difftest.Spike
