import Difftest.Spike.DebugMemory
import Difftest.Spike.MemoryArgument

/-!
# The bus of a simulator

The simulator attaches its memories, then the plugged-in devices, the debug module and the
interrupt controller, and at a reset also the boot ROM.  A device takes the place of what
was attached at its base, and hides what a memory has from there on: the addresses after the
end of a device still belong to it.
-/

namespace Difftest.Spike

/-! ## Attaching -/

/-- A device that answers loads and stores itself. -/
structure PlainDevice (δ : Type) where
  load : (offset len : Nat) → δ → Option (List Nat × δ)
  store : (offset : Nat) → (bytes : List Nat) → δ → Option δ

/-- What is attached beside the memories. -/
structure SimDevices (δ : Type) where
  pluginDevices : List (Nat × PlainDevice δ)
  debugModule : PlainDevice δ
  clintBase : Nat
  clint : PlainDevice δ
  /-- There is none before the reset. -/
  bootRom : Option (PlainDevice δ)

/-- `DEBUG_START`. -/
def debugStart : Nat := 0

/-- `DEFAULT_RSTVEC`. -/
def defaultRstvec : Nat := 0x00010000

section Sim

variable {δ : Type}

/-- The devices with their bases, in the order in which they are attached. -/
def SimDevices.attached (devices : SimDevices δ) : List (Nat × PlainDevice δ) :=
  devices.pluginDevices ++
    [(debugStart, devices.debugModule), (devices.clintBase, devices.clint)] ++
      (devices.bootRom.map fun rom => (defaultRstvec, rom)).toList

/-- The bases of the devices. -/
def SimDevices.bases (devices : SimDevices δ) : List Nat := devices.attached.map Prod.fst

/-- The memories with their bases; `mems` are numbered in their order. -/
def attachedMems (mems : List Region) : List (Nat × Device δ) :=
  mems.zipIdx.map fun mem => (mem.1.1, .mem mem.2 mem.1.2)

/-- The bus that `sim_t::sim_t` and `sim_t::set_rom` make. -/
def simBus (mems : List Region) (devices : SimDevices δ) : Bus δ :=
  (OrderedMap.empty.insertAll (attachedMems mems)).insertAll
    (devices.attached.map fun device => (device.1, .other device.2.load device.2.store))

/-! ## What is attached -/

/-- The memories of a simulator: regions with sizes, in order and apart. -/
structure SimMems (mems : List Region) : Prop where
  ordered : mems.Pairwise fun region other => region.1 + region.2 ≤ other.1
  positive : ∀ region ∈ mems, 0 < region.2
  pages : ∀ region ∈ mems, WholePages region

variable {mems : List Region} {devices : SimDevices δ} {base number size addr : Nat}

theorem attachedMems_increasing (simMems : SimMems mems) :
    (attachedMems mems : List (Nat × Device δ)).Pairwise fun entry later => entry.1 < later.1 := by
  have bases : mems.Pairwise fun region other => region.1 < other.1 := by
    apply simMems.ordered.imp_of_mem
    intro region other mem _ apart
    have positive := simMems.positive region mem
    omega
  rw [attachedMems, List.pairwise_map]
  rw [← List.zipIdx_map_fst 0 mems, List.pairwise_map] at bases
  exact bases

/-- A memory is on the bus when no device is attached at its base. -/
theorem mem_simBus_iff (simMems : SimMems mems) :
    (base, Device.mem number size) ∈ (simBus mems devices).entries ↔
      mems[number]? = some (base, size) ∧ base ∉ devices.bases := by
  have listed : (base, Device.mem number size) ∈ (attachedMems mems : List (Nat × Device δ)) ↔
      mems[number]? = some (base, size) := by
    rw [attachedMems, List.mem_map]
    constructor
    · rintro ⟨⟨⟨_, _⟩, _⟩, mem, ⟨⟩⟩
      exact List.mem_zipIdx_iff_getElem?.mp mem
    · intro found
      exact ⟨((base, size), number), List.mem_zipIdx_iff_getElem?.mpr found, rfl⟩
  rw [simBus, OrderedMap.mem_insertAll, OrderedMap.mem_insertAll, ← listed]
  constructor
  · rintro (⟨⟨mem, _⟩ | ⟨earlier, later, split, _⟩, fresh⟩ | ⟨earlier, later, split, _⟩)
    · exact absurd mem List.not_mem_nil
    · refine ⟨split ▸ List.mem_append_right _ List.mem_cons_self, ?_⟩
      intro taken
      obtain ⟨device, mem, rfl⟩ := List.mem_map.mp taken
      exact fresh _ (List.mem_map_of_mem mem) rfl
    · have mem : (base, Device.mem number size) ∈ devices.attached.map fun device =>
          (device.1, Device.other device.2.load device.2.store) :=
        split ▸ List.mem_append_right _ List.mem_cons_self
      obtain ⟨device, _, same⟩ := List.mem_map.mp mem
      cases same
  · rintro ⟨mem, free⟩
    obtain ⟨earlier, later, split⟩ := List.append_of_mem mem
    have increasing := attachedMems_increasing (δ := δ) simMems
    rw [split, List.pairwise_append, List.pairwise_cons] at increasing
    refine Or.inl ⟨Or.inr ⟨earlier, later, split, ?_⟩, ?_⟩
    · intro other otherMem
      exact (increasing.2.1.1 other otherMem).ne'
    · rintro other otherMem rfl
      obtain ⟨device, deviceMem, rfl⟩ := List.mem_map.mp otherMem
      exact free (List.mem_map_of_mem deviceMem)

/-- The bases on the bus are those of the memories and of the devices. -/
theorem base_of_mem_simBus {entry : Nat × Device δ} (mem : entry ∈ (simBus mems devices).entries) :
    (∃ region ∈ mems, entry.1 = region.1) ∨ entry.1 ∈ devices.bases := by
  rw [simBus, OrderedMap.mem_insertAll, OrderedMap.mem_insertAll] at mem
  rcases mem with ⟨⟨none, _⟩ | ⟨earlier, later, split, _⟩, _⟩ | ⟨earlier, later, split, _⟩
  · exact absurd none List.not_mem_nil
  · have listed : entry ∈ (attachedMems mems : List (Nat × Device δ)) :=
      split ▸ List.mem_append_right _ List.mem_cons_self
    obtain ⟨⟨region, number⟩, indexed, rfl⟩ := List.mem_map.mp listed
    exact Or.inl ⟨region, List.fst_mem_of_mem_zipIdx indexed, rfl⟩
  · have listed : entry ∈ devices.attached.map fun device =>
        (device.1, Device.other device.2.load device.2.store) :=
      split ▸ List.mem_append_right _ List.mem_cons_self
    obtain ⟨device, deviceMem, rfl⟩ := List.mem_map.mp listed
    exact Or.inr (List.mem_map_of_mem deviceMem)

theorem exists_mem_simBus (taken : base ∈ devices.bases) :
    ∃ entry ∈ (simBus mems devices).entries, entry.1 = base := by
  apply OrderedMap.exists_mem_insertAll
  rw [List.map_map]
  exact taken

/-- The bus consists of whole pages when the devices start at pages. -/
theorem simBus_paged (simMems : SimMems mems) (bases : ∀ base ∈ devices.bases, pgsize ∣ base) :
    (simBus mems devices).Paged := by
  constructor
  · intro entry mem
    rcases base_of_mem_simBus mem with ⟨region, isMem, same⟩ | device
    · rw [same]
      exact (simMems.pages region isMem).1
    · exact bases _ device
  · intro base number size mem
    have isMem := List.mem_of_getElem? ((mem_simBus_iff simMems).mp mem).1
    exact (simMems.pages _ isMem).2

theorem simBus_onePlace (simMems : SimMems mems) : (simBus mems devices).OnePlace := by
  intro base base' number size size' mem mem'
  have first := ((mem_simBus_iff simMems).mp mem).1
  rw [((mem_simBus_iff simMems).mp mem').1] at first
  cases first
  rfl

/-- An address is in a memory of the simulator exactly when it is in a region, and no device is
attached between the base of the region and the address. -/
theorem backed_simBus_iff (simMems : SimMems mems) :
    (simBus mems devices).Backed addr ↔
      addr < 2 ^ 32 ∧ ∃ region ∈ mems, Inside region addr ∧
        ∀ base ∈ devices.bases, ¬ (region.1 ≤ base ∧ base ≤ addr) := by
  rw [Bus.Backed, Option.isSome_iff_exists]
  constructor
  · rintro ⟨⟨number, offset⟩, found⟩
    obtain ⟨small, base, size, device, inside, rfl⟩ := addrToMem_eq_some_iff.mp found
    obtain ⟨⟨mem, low⟩, greatest⟩ := OrderedMap.floor_eq_some_iff.mp device
    obtain ⟨isMem, free⟩ := (mem_simBus_iff simMems).mp mem
    dsimp only at low greatest
    refine ⟨small, (base, size), List.mem_of_getElem? isMem, ⟨low, by dsimp only; omega⟩, ?_⟩
    rintro other taken ⟨above, below⟩
    obtain ⟨entry, entryMem, rfl⟩ := @exists_mem_simBus _ mems _ _ taken
    have same : entry.1 = base := Nat.le_antisymm (greatest entry entryMem below) above
    exact free (same ▸ taken)
  · rintro ⟨small, region, isMem, ⟨low, high⟩, free⟩
    obtain ⟨number, inside, here⟩ := List.mem_iff_getElem.mp isMem
    have attached : (region.1, Device.mem number region.2) ∈ (simBus mems devices).entries := by
      refine (mem_simBus_iff simMems).mpr ⟨?_, ?_⟩
      · rw [List.getElem?_eq_getElem inside, here]
      · exact fun taken => free region.1 taken ⟨Nat.le_refl _, low⟩
    refine ⟨(number, addr - region.1), addrToMem_eq_some_iff.mpr
      ⟨small, region.1, region.2, ?_, by omega, rfl⟩⟩
    refine OrderedMap.floor_eq_some_iff.mpr ⟨⟨attached, low⟩, ?_⟩
    intro entry mem below
    dsimp only
    rcases base_of_mem_simBus mem with ⟨other, otherMem, same⟩ | taken
    · rw [same] at below ⊢
      obtain ⟨index, otherInside, rfl⟩ := List.mem_iff_getElem.mp otherMem
      subst here
      rcases Nat.lt_trichotomy number index with before | rfl | behind
      · have apart := List.pairwise_iff_getElem.mp simMems.ordered _ _ inside otherInside before
        omega
      · exact Nat.le_refl _
      · have apart := List.pairwise_iff_getElem.mp simMems.ordered _ _ otherInside inside behind
        omega
    · by_contra above
      exact free entry.1 taken ⟨Nat.le_of_not_le above, below⟩

/-- Without plugged-in devices and after the reset, an address of the map is lost to the program
exactly when its region starts at the debug module, or when the boot ROM or the interrupt
controller is attached between the base of its region and the address. -/
theorem lost_after_reset_iff (simMems : SimMems mems) (noPlugins : devices.pluginDevices = [])
    {rom : PlainDevice δ} (reset : devices.bootRom = some rom) (small : addr < 2 ^ 32)
    {region : Region} (isMem : region ∈ mems) (inside : Inside region addr) :
    ¬ (simBus mems devices).Backed addr ↔
      region.1 = 0 ∨ (region.1 ≤ defaultRstvec ∧ defaultRstvec ≤ addr) ∨
        (region.1 ≤ devices.clintBase ∧ devices.clintBase ≤ addr) := by
  have only : ∀ other ∈ mems, Inside other addr → other = region := by
    intro other otherMem otherInside
    obtain ⟨i, iBelow, rfl⟩ := List.mem_iff_getElem.mp isMem
    obtain ⟨j, jBelow, rfl⟩ := List.mem_iff_getElem.mp otherMem
    obtain ⟨low, high⟩ := inside
    obtain ⟨otherLow, otherHigh⟩ := otherInside
    rcases Nat.lt_trichotomy i j with before | rfl | behind
    · have apart := List.pairwise_iff_getElem.mp simMems.ordered _ _ iBelow jBelow before
      omega
    · rfl
    · have apart := List.pairwise_iff_getElem.mp simMems.ordered _ _ jBelow iBelow behind
      omega
  have bases : devices.bases = [debugStart, devices.clintBase, defaultRstvec] := by
    rw [SimDevices.bases, SimDevices.attached, noPlugins, reset]
    rfl
  rw [backed_simBus_iff simMems, bases]
  constructor
  · intro lost
    by_contra clear
    simp only [not_or, not_and] at clear
    refine lost ⟨small, region, isMem, inside, ?_⟩
    rintro base taken ⟨above, below⟩
    simp only [List.mem_cons, List.not_mem_nil, or_false] at taken
    rcases taken with rfl | rfl | rfl
    · exact clear.1 (Nat.le_zero.mp above)
    · exact clear.2.2 above below
    · exact clear.2.1 above below
  · rintro taken ⟨_, other, otherMem, otherInside, free⟩
    have same := only other otherMem otherInside
    subst same
    rcases taken with start | rom | clint
    · exact free debugStart List.mem_cons_self ⟨start.le, Nat.zero_le _⟩
    · exact free defaultRstvec (by simp) rom
    · exact free devices.clintBase (by simp) clint

end Sim

/-- A device that answers nothing. -/
def mutePlain : PlainDevice Unit := { load := fun _ _ _ => none, store := fun _ _ _ => none }

/-- A region that begins before the boot ROM loses the addresses from there on. -/
theorem lost_after_reset_iff_rom :
    ¬ (simBus [(0x8000, 0x10000)]
        { pluginDevices := [], debugModule := mutePlain, clintBase := 0x02000000
          clint := mutePlain, bootRom := some mutePlain }).Backed 0x12000 ↔
      (0x8000 = 0 ∨ (0x8000 ≤ defaultRstvec ∧ defaultRstvec ≤ 0x12000) ∨
        (0x8000 ≤ 0x02000000 ∧ 0x02000000 ≤ 0x12000)) := by
  have simMems : SimMems [(0x8000, 0x10000)] := by
    constructor
    · exact List.pairwise_singleton _ _
    · decide
    · intro region mem
      rw [List.mem_singleton.mp mem]
      exact ⟨by decide, by decide⟩
  exact lost_after_reset_iff simMems rfl rfl (by decide) (List.mem_singleton_self _)
    ⟨by decide, by decide⟩

end Difftest.Spike
