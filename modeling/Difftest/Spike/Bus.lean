import Difftest.Data.OrderedMap

/-!
# The bus of the simulator

Devices are attached to the bus at their base addresses, and an address belongs to the
device with the greatest base that is not above it, whether or not it is beyond the end
of that device.  A memory is read and written through a pointer into its contents; every
other device answers loads and stores itself.
-/

namespace Difftest.Spike

/-! ## Devices -/

/-- What is attached to the bus: a memory with its number among the memories, or a device
that answers loads and stores with its own state. -/
inductive Device (δ : Type)
  /-- `mem_t`, of `size` bytes. -/
  | mem (number size : Nat)
  /-- Any other `abstract_device_t`; nothing is a `false` of `load` or `store`. -/
  | other (load : (offset len : Nat) → δ → Option (List Nat × δ))
      (store : (offset : Nat) → (bytes : List Nat) → δ → Option δ)

/-- `bus_t`. -/
abbrev Bus (δ : Type) := OrderedMap Nat (Device δ)

/-- A `char*` into the contents of a memory: its number and the offset of the byte. -/
abbrev HostAddr := Nat × Nat

section Devices

variable {δ : Type}

/-- `bus_t::add_device`. -/
def Bus.addDevice (bus : Bus δ) (addr : Nat) (device : Device δ) : Bus δ := bus.insert addr device

/-- `bus_t::find_device`. -/
def Bus.findDevice (bus : Bus δ) (addr : Nat) : Option (Nat × Device δ) := bus.floor addr

/-- `abstract_device_t::load`. -/
def Device.load (device : Device δ) (offset len : Nat) (state : δ) : Option (List Nat × δ) :=
  match device with
  | .mem _ _ => none
  | .other load _ => load offset len state

/-- `abstract_device_t::store`. -/
def Device.store (device : Device δ) (offset : Nat) (bytes : List Nat) (state : δ) : Option δ :=
  match device with
  | .mem _ _ => none
  | .other _ store => store offset bytes state

/-- `bus_t::load`. -/
def Bus.load (bus : Bus δ) (addr len : Nat) (state : δ) : Option (List Nat × δ) :=
  match bus.findDevice addr with
  | none => none
  | some (base, device) => device.load (addr - base) len state

/-- `bus_t::store`. -/
def Bus.store (bus : Bus δ) (addr : Nat) (bytes : List Nat) (state : δ) : Option δ :=
  match bus.findDevice addr with
  | none => none
  | some (base, device) => device.store (addr - base) bytes state

/-- `MAX_PADDR_BITS`. -/
def maxPaddrBits : Nat := 32

/-- `paddr_ok`. -/
def paddrOk (addr : Nat) : Bool := addr >>> maxPaddrBits == 0

/-- `sim_t::mmio_load`. -/
def Bus.mmioLoad (bus : Bus δ) (addr len : Nat) (state : δ) : Option (List Nat × δ) :=
  if (addr + len) % 2 ^ 64 < addr ∨ paddrOk ((addr + len - 1) % 2 ^ 64) = false then none
  else bus.load addr len state

/-- `sim_t::mmio_store`. -/
def Bus.mmioStore (bus : Bus δ) (addr : Nat) (bytes : List Nat) (state : δ) : Option δ :=
  if (addr + bytes.length) % 2 ^ 64 < addr ∨
      paddrOk ((addr + bytes.length - 1) % 2 ^ 64) = false then none
  else bus.store addr bytes state

/-- `sim_t::addr_to_mem`. -/
def Bus.addrToMem (bus : Bus δ) (addr : Nat) : Option HostAddr :=
  if paddrOk addr then
    match bus.findDevice addr with
    | some (base, .mem number size) =>
        if addr - base < size then some (number, addr - base) else none
    | _ => none
  else none

theorem paddrOk_iff {addr : Nat} : paddrOk addr = true ↔ addr < 2 ^ 32 := by
  rw [paddrOk, beq_iff_eq, maxPaddrBits, Nat.shiftRight_eq_div_pow, Nat.div_eq_zero_iff]
  simp

/-- An address has a pointer when its device is a memory that contains it. -/
theorem addrToMem_eq_some_iff {bus : Bus δ} {addr number offset : Nat} :
    bus.addrToMem addr = some (number, offset) ↔
      addr < 2 ^ 32 ∧ ∃ base size, bus.findDevice addr = some (base, .mem number size) ∧
        addr - base < size ∧ offset = addr - base := by
  rw [Bus.addrToMem]
  by_cases small : paddrOk addr = true
  · rw [if_pos small]
    have bound := paddrOk_iff.mp small
    cases found : bus.findDevice addr with
    | none => simp
    | some entry =>
        rcases entry with ⟨base, device⟩
        cases device with
        | other load store => simp
        | mem other size =>
            by_cases inside : addr - base < size
            · simp only [if_pos inside, Option.some.injEq, Prod.mk.injEq, Device.mem.injEq]
              constructor
              · rintro ⟨rfl, rfl⟩
                exact ⟨bound, base, size, ⟨rfl, rfl, rfl⟩, inside, rfl⟩
              · rintro ⟨_, _, _, ⟨rfl, rfl, rfl⟩, _, rfl⟩
                exact ⟨rfl, rfl⟩
            · simp only [if_neg inside, reduceCtorEq, false_iff, not_and, not_exists]
              rintro _ otherBase otherSize equal within
              cases equal
              exact absurd within inside
  · rw [if_neg small]
    simp only [reduceCtorEq, false_iff, not_and]
    intro bound
    exact absurd (paddrOk_iff.mpr bound) small

/-! ## Pages -/

/-- `PGSIZE`. -/
def pgsize : Nat := 2 ^ 12

/-- Every device starts at a page and every memory consists of whole pages. -/
structure Bus.Paged (bus : Bus δ) : Prop where
  bases : ∀ entry ∈ bus.entries, pgsize ∣ entry.1
  sizes : ∀ base number size, (base, Device.mem number size) ∈ bus.entries → pgsize ∣ size

/-- All addresses of a page belong to the same device. -/
theorem Bus.Paged.findDevice_eq {bus : Bus δ} (paged : bus.Paged) {addr other : Nat}
    (samePage : addr / pgsize = other / pgsize) : bus.findDevice addr = bus.findDevice other := by
  have lowAgree : ∀ entry ∈ bus.entries, entry.1 ≤ addr ↔ entry.1 ≤ other := by
    intro entry mem
    obtain ⟨page, base⟩ := paged.bases entry mem
    rw [base, Nat.mul_comm, ← Nat.le_div_iff_mul_le (by decide), samePage,
      Nat.le_div_iff_mul_le (by decide)]
  apply Option.ext
  intro entry
  rw [Bus.findDevice, Bus.findDevice, OrderedMap.floor_eq_some_iff, OrderedMap.floor_eq_some_iff]
  constructor
  · rintro ⟨⟨mem, low⟩, greatest⟩
    exact ⟨⟨mem, (lowAgree entry mem).mp low⟩,
      fun later laterMem below => greatest later laterMem ((lowAgree later laterMem).mpr below)⟩
  · rintro ⟨⟨mem, low⟩, greatest⟩
    exact ⟨⟨mem, (lowAgree entry mem).mpr low⟩,
      fun later laterMem below => greatest later laterMem ((lowAgree later laterMem).mp below)⟩

/-- A page with one address in a memory lies in that memory as a whole. -/
theorem Bus.Paged.addrToMem_page {bus : Bus δ} (paged : bus.Paged) {addr number offset : Nat}
    (found : bus.addrToMem addr = some (number, offset)) :
    addr % pgsize ≤ offset ∧ ∀ other, other / pgsize = addr / pgsize →
      bus.addrToMem other = some (number, offset - addr % pgsize + other % pgsize) := by
  obtain ⟨small, base, size, device, inside, rfl⟩ := addrToMem_eq_some_iff.mp found
  obtain ⟨⟨mem, low⟩, _⟩ := OrderedMap.floor_eq_some_iff.mp device
  obtain ⟨basePage, baseEq⟩ := paged.bases _ mem
  obtain ⟨sizePages, sizeEq⟩ := paged.sizes _ _ _ mem
  dsimp only at baseEq low
  rw [pgsize] at *
  have split := Nat.div_add_mod addr (2 ^ 12)
  constructor
  · omega
  · intro other samePage
    have otherSplit := Nat.div_add_mod other (2 ^ 12)
    have otherLow := Nat.mod_lt other (show 0 < 2 ^ 12 by decide)
    rw [addrToMem_eq_some_iff, paged.findDevice_eq samePage]
    exact ⟨by omega, base, size, device, by omega, by omega⟩

end Devices

/-- A bus with one memory of a page. -/
def pageBus : Bus Unit := OrderedMap.empty.insert 0x80000000 (.mem 0 pgsize)

theorem pageBus_paged : pageBus.Paged := by
  constructor
  · intro entry mem
    rcases mem with _ | ⟨_, ⟨⟩⟩
    decide
  · intro base number size mem
    rcases mem with _ | ⟨_, ⟨⟩⟩
    exact dvd_rfl

end Difftest.Spike
