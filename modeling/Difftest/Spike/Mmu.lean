import Difftest.Data.Bytes
import Difftest.Spike.Bus

/-!
# The memory port of a processor

An access is translated, checked and looked up on the bus only when its page is not in the
TLB.  A TLB entry has one tag for each type of access, but only one host address, and an
access that hits goes straight to the host address.  Between two flushes the translation
does not change; the port is given by what it asks of the processor in that time.
-/

namespace Difftest.Spike

/-! ## Accesses and traps -/

/-- `access_type`. -/
inductive AccessType
  | fetch
  | load
  | store
deriving DecidableEq, Repr

/-- A trigger that matched: its index and the `timing` of its `mcontrol`. -/
structure Trigger where
  index : Nat
  timing : Nat
deriving DecidableEq, Repr

/-- What an access can throw. -/
inductive Trap
  | accessFault (type : AccessType) (addr : Nat)
  | pageFault (type : AccessType) (addr : Nat)
  | misaligned (type : AccessType) (addr : Nat)
  | triggerMatched (index : Nat) (type : AccessType) (addr data : Nat)
  /-- `abort`. -/
  | aborted
deriving DecidableEq, Repr

/-! ## The port -/

/-- `tlb_entry_t`: the distance from a virtual address to its host address, which is a
pointer into a memory, and to its physical address. -/
structure TlbEntry where
  memory : Nat
  hostOffset : Int
  targetOffset : Int
deriving DecidableEq, Repr

/-- `tlb_insn_tag`, `tlb_load_tag`, `tlb_store_tag` and `tlb_data`. -/
structure Tlb where
  tag : AccessType → Nat → Nat
  data : Nat → TlbEntry

/-- The bytes of the memories, by number and offset. -/
abbrev Contents := Nat → Nat → Nat

/-- The state that accesses change. -/
structure Machine (δ : Type) where
  contents : Contents
  peripherals : δ
  tlb : Tlb
  matchedTrigger : Option (Nat × AccessType × Nat × Nat)
  loadReservation : Nat

/-- What a port asks of its processor and of the simulator, between two flushes. -/
structure Mmu (δ : Type) where
  bus : Bus δ
  translate : (type : AccessType) → (addr len : Nat) → Contents → Except Trap Nat
  pmpHomogeneous : (addr : Nat) → Bool
  mmioOk : (addr : Nat) → Bool
  checkTriggers : AccessType → Bool
  triggerMatch : (type : AccessType) → (addr data : Nat) → Option Trigger

/-- `PGSHIFT`. -/
def pgshift : Nat := 12

/-- `TLB_ENTRIES`. -/
def tlbEntries : Nat := 256

/-- `TLB_CHECK_TRIGGERS`. -/
def tlbCheckTriggers : Nat := 2 ^ 63

/-- A `reg_t` whose bits are all set. -/
def allOnes : Nat := 2 ^ 64 - 1

/-- `mmu_t::flush_tlb`. -/
def Tlb.flush (tlb : Tlb) : Tlb := { tlb with tag := fun _ _ => allOnes }

/-- `mmu_t::mmu_t`, over memories that were just allocated. -/
def Machine.fresh {δ : Type} (peripherals : δ) : Machine δ where
  contents := fun _ _ => 0
  peripherals
  tlb := { tag := fun _ _ => allOnes, data := fun _ => ⟨0, 0, 0⟩ }
  matchedTrigger := none
  loadReservation := allOnes

/-- The bytes from a host address on. -/
def Contents.read (contents : Contents) (memory : Nat) (offset : Int) (len : Nat) : List Nat :=
  (List.range len).map fun j : Nat => contents memory (offset + j).toNat

/-- Copy bytes to a host address. -/
def Contents.write (contents : Contents) (memory : Nat) (offset : Int) (bytes : List Nat) :
    Contents :=
  fun number place =>
    if number = memory ∧ offset ≤ place ∧ place < offset + bytes.length then
      bytes.getD (place - offset).toNat 0
    else contents number place

/-- `reg_from_bytes`. -/
def regFromBytes (bytes : List Nat) : Nat := ofBytes bytes.length fun i => bytes.getD i 0

/-- The bytes of a value in memory. -/
def bytesOf (size value : Nat) : List Nat := (List.range size).map (byteAt value)

/-- A computation of the simulator, which keeps its effects when it throws. -/
abbrev SimM (δ : Type) := EStateM Trap (Machine δ)

namespace Mmu

variable {δ : Type}

/-- `mmu_t::flush_tlb`. -/
def flushTlb : SimM δ Unit := modify fun machine => { machine with tlb := machine.tlb.flush }

/-- `mmu_t::translate`. -/
def translateAddr (mmu : Mmu δ) (type : AccessType) (addr len : Nat) : SimM δ Nat := do
  match mmu.translate type addr len (← get).contents with
  | .ok paddr => return paddr
  | .error trap => throw trap

/-- The tag that an access leaves in the TLB. -/
def expectedTag (mmu : Mmu δ) (type : AccessType) (vpn : Nat) : Nat :=
  if mmu.checkTriggers type then vpn ||| tlbCheckTriggers else vpn

/-- The tags of the entry after `refill_tlb`: those of other pages are dropped, and the
one of the access is set when the page is homogeneous. -/
def refillTag (mmu : Mmu δ) (vaddr paddr : Nat) (type : AccessType) (tlb : Tlb)
    (other : AccessType) : Nat :=
  let vpn := vaddr >>> pgshift
  let old := tlb.tag other (vpn % tlbEntries)
  let kept := if Nat.ldiff old tlbCheckTriggers ≠ vpn then allOnes else old
  if other = type ∧ mmu.pmpHomogeneous (paddr / pgsize * pgsize) then mmu.expectedTag type vpn
  else kept

/-- The entry that `refill_tlb` returns. -/
def refillEntry (vaddr paddr : Nat) (host : HostAddr) : TlbEntry where
  memory := host.1
  hostOffset := host.2 - vaddr
  targetOffset := paddr - vaddr

/-- `mmu_t::refill_tlb`. -/
def refillTlb (mmu : Mmu δ) (vaddr paddr : Nat) (host : HostAddr) (type : AccessType) :
    SimM δ TlbEntry := do
  let idx := (vaddr >>> pgshift) % tlbEntries
  let entry := refillEntry vaddr paddr host
  modify fun machine =>
    { machine with tlb :=
        { tag := fun other i =>
            if i = idx then mmu.refillTag vaddr paddr type machine.tlb other
            else machine.tlb.tag other i
          data := fun i => if i = idx then entry else machine.tlb.data i } }
  return entry

/-- Throw the trigger that the access matches, unless one has matched already. -/
def triggerException (mmu : Mmu δ) (type : AccessType) (addr data : Nat) : SimM δ Unit := do
  if (← get).matchedTrigger = none then
    match mmu.triggerMatch type addr data with
    | none => return
    | some trigger =>
        -- a trigger that fires after the access is remembered, so that the instruction can restart
        if trigger.timing ≠ 0 then
          modify fun machine =>
            { machine with matchedTrigger := some (trigger.index, type, addr, data) }
        throw (.triggerMatched trigger.index type addr data)

/-- `mmu_t::mmio_load`. -/
def mmioLoad (mmu : Mmu δ) (addr len : Nat) : SimM δ (Option (List Nat)) := do
  if mmu.mmioOk addr then
    match mmu.bus.mmioLoad addr len (← get).peripherals with
    | some (bytes, peripherals) =>
        modify fun machine => { machine with peripherals }
        return some bytes
    | none => return none
  else return none

/-- `mmu_t::mmio_store`. -/
def mmioStore (mmu : Mmu δ) (addr : Nat) (bytes : List Nat) : SimM δ Bool := do
  if mmu.mmioOk addr then
    match mmu.bus.mmioStore addr bytes (← get).peripherals with
    | some peripherals =>
        modify fun machine => { machine with peripherals }
        return true
    | none => return false
  else return false

/-- The bytes at a host address. -/
def readHost (memory : Nat) (offset : Int) (len : Nat) : SimM δ (List Nat) := do
  return (← get).contents.read memory offset len

/-- Copy bytes to a host address. -/
def writeHost (memory : Nat) (offset : Int) (bytes : List Nat) : SimM δ Unit :=
  modify fun machine => { machine with contents := machine.contents.write memory offset bytes }

/-- `mmu_t::load_slow_path`. -/
def loadSlowPath (mmu : Mmu δ) (addr len : Nat) : SimM δ (List Nat) := do
  let paddr ← mmu.translateAddr .load addr len
  let bytes ← match mmu.bus.addrToMem paddr with
    | some host => do
        let bytes ← readHost host.1 host.2 len
        let _ ← mmu.refillTlb addr paddr host .load
        pure bytes
    | none =>
        match ← mmu.mmioLoad paddr len with
        | some bytes => pure bytes
        | none => throw (.accessFault .load addr)
  mmu.triggerException .load addr (regFromBytes bytes)
  return bytes

/-- `mmu_t::store_slow_path`. -/
def storeSlowPath (mmu : Mmu δ) (addr : Nat) (bytes : List Nat) : SimM δ Unit := do
  let paddr ← mmu.translateAddr .store addr bytes.length
  mmu.triggerException .store addr (regFromBytes bytes)
  match mmu.bus.addrToMem paddr with
  | some host =>
      writeHost host.1 host.2 bytes
      let _ ← mmu.refillTlb addr paddr host .store
  | none =>
      if !(← mmu.mmioStore paddr bytes) then
        throw (.accessFault .store addr)

/-- The entry of an address in the TLB. -/
def tlbEntry (addr : Nat) : SimM δ TlbEntry := do
  return (← get).tlb.data ((addr >>> pgshift) % tlbEntries)

/-- The tag of an address in the TLB. -/
def tlbTag (type : AccessType) (addr : Nat) : SimM δ Nat := do
  return (← get).tlb.tag type ((addr >>> pgshift) % tlbEntries)

/-- `load_func`, for a value of `size` bytes. -/
def load (mmu : Mmu δ) (size addr : Nat) : SimM δ Nat := do
  let vpn := addr >>> pgshift
  let tag ← tlbTag .load addr
  if tag = vpn then
    let entry ← tlbEntry addr
    return regFromBytes (← readHost entry.memory (entry.hostOffset + addr) size)
  else if tag = vpn ||| tlbCheckTriggers then
    let entry ← tlbEntry addr
    let data := regFromBytes (← readHost entry.memory (entry.hostOffset + addr) size)
    mmu.triggerException .load addr data
    return data
  else
    let bytes ← mmu.loadSlowPath addr size
    if addr % size ≠ 0 then
      throw (.misaligned .load addr)
    return regFromBytes bytes

/-- `store_func`, for a value of `size` bytes. -/
def store (mmu : Mmu δ) (size addr value : Nat) : SimM δ Unit := do
  let vpn := addr >>> pgshift
  let tag ← tlbTag .store addr
  if tag = vpn then
    let entry ← tlbEntry addr
    writeHost entry.memory (entry.hostOffset + addr) (bytesOf size value)
  else if tag = vpn ||| tlbCheckTriggers then
    mmu.triggerException .store addr value
    let entry ← tlbEntry addr
    writeHost entry.memory (entry.hostOffset + addr) (bytesOf size value)
  else
    mmu.storeSlowPath addr (bytesOf size value)
  -- the check comes after the store
  if addr % size ≠ 0 then
    throw (.misaligned .store addr)

/-- `mmu_t::fetch_slow_path`: a pointer into a memory, or the parcel in `fetch_temp`. -/
def fetchSlowPath (mmu : Mmu δ) (vaddr : Nat) : SimM δ (TlbEntry ⊕ List Nat) := do
  let paddr ← mmu.translateAddr .fetch vaddr 2
  match mmu.bus.addrToMem paddr with
  | some host => return .inl (← mmu.refillTlb vaddr paddr host .fetch)
  | none =>
      match ← mmu.mmioLoad paddr 2 with
      | some parcel => return .inr parcel
      | none => throw (.accessFault .fetch vaddr)

/-- Throw the trigger that a parcel matches before it executes. -/
def fetchTrigger (mmu : Mmu δ) (addr data : Nat) : SimM δ Unit :=
  match mmu.triggerMatch .fetch addr data with
  | some trigger => throw (.triggerMatched trigger.index .fetch addr data)
  | none => pure ()

/-- `mmu_t::translate_insn_addr`. -/
def translateInsnAddr (mmu : Mmu δ) (addr : Nat) : SimM δ (TlbEntry ⊕ List Nat) := do
  let vpn := addr >>> pgshift
  let tag ← tlbTag .fetch addr
  if tag = vpn then
    return .inl (← tlbEntry addr)
  else
    let result ←
      if tag ≠ vpn ||| tlbCheckTriggers then mmu.fetchSlowPath addr
      else pure (.inl (← tlbEntry addr))
    if (← tlbTag .fetch addr) = vpn ||| tlbCheckTriggers then
      let entry ← tlbEntry addr
      mmu.fetchTrigger addr (regFromBytes (← readHost entry.memory (entry.hostOffset + addr) 2))
    return result

/-- One parcel of an instruction, as `refill_icache` reads it. -/
def fetchParcel (mmu : Mmu δ) (addr : Nat) : SimM δ Nat := do
  match ← mmu.translateInsnAddr addr with
  | .inl entry => return regFromBytes (← readHost entry.memory (entry.hostOffset + addr) 2)
  | .inr parcel => return regFromBytes parcel

/-- `mmu_t::acquire_load_reservation`. -/
def acquireLoadReservation (mmu : Mmu δ) (vaddr : Nat) : SimM δ Unit := do
  let paddr ← mmu.translateAddr .load vaddr 1
  match mmu.bus.addrToMem paddr with
  | some host =>
      let entry ← mmu.refillTlb vaddr paddr host .load
      modify fun machine =>
        { machine with loadReservation := (entry.targetOffset + vaddr).toNat }
  | none => throw (.accessFault .load vaddr)

/-- `mmu_t::check_load_reservation`. -/
def checkLoadReservation (mmu : Mmu δ) (vaddr size : Nat) : SimM δ Bool := do
  if vaddr % size ≠ 0 then
    throw (.misaligned .store vaddr)
  let paddr ← mmu.translateAddr .store vaddr 1
  match mmu.bus.addrToMem paddr with
  | some host =>
      let entry ← mmu.refillTlb vaddr paddr host .store
      return decide ((← get).loadReservation = (entry.targetOffset + vaddr).toNat)
  | none => throw (.accessFault .store vaddr)

/-- `mmu_t::yield_load_reservation`. -/
def yieldLoadReservation : SimM δ Unit :=
  modify fun machine => { machine with loadReservation := allOnes }

end Mmu

end Difftest.Spike
