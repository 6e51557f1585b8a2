import Difftest.Spike.ChunkedMemif
import Difftest.Spike.Transparent

/-!
# The simulator as a target

The simulator reads and writes the chunks of the host through a port of its own, which has
a TLB but no processor.  On the chunks that lie in its memories the port is transparent, so
the simulator is a byte memory to the host.
-/

namespace Difftest.Spike

open ByteMemory Mmu

section Target

variable {δ : Type} {bus : Bus δ}

/-- `debug_mmu`: a port without a processor. -/
def debugMmu (bus : Bus δ) : Mmu δ where
  bus
  translate := fun _ addr _ _ => .ok addr
  pmpHomogeneous := fun _ => true
  mmioOk := fun _ => true
  checkTriggers := fun _ => false
  triggerMatch := fun _ _ _ => none

/-- `sim_t::read_chunk`. -/
def readChunkSim (bus : Bus δ) (taddr len : Nat) : SimM δ (List Nat) := do
  if len ≠ 8 then throw .aborted
  let data ← (debugMmu bus).load 8 taddr
  return bytesOf 8 data

/-- `sim_t::write_chunk`. -/
def writeChunkSim (bus : Bus δ) (taddr : Nat) (src : List Nat) : SimM δ Unit := do
  if src.length ≠ 8 then throw .aborted
  (debugMmu bus).store 8 taddr (regFromBytes src)

/-- `sim_t` as a `chunked_memif_t`. -/
def simMemif (bus : Bus δ) : ChunkedMemif Trap (Machine δ) where
  readChunk := readChunkSim bus
  writeChunk := writeChunkSim bus

/-- Each memory is attached in one place. -/
def Bus.OnePlace (bus : Bus δ) : Prop :=
  ∀ {base base' number size size'}, (base, Device.mem number size) ∈ bus.entries →
    (base', Device.mem number size') ∈ bus.entries → base = base'

/-- The address of a byte in a memory. -/
def Bus.Backed (bus : Bus δ) (addr : Nat) : Prop := (bus.addrToMem addr).isSome

/-- The memories of the simulator contain the bytes of a memory. -/
structure HoldsMemory (bus : Bus δ) (memory : ByteMemory) (machine : Machine δ) : Prop where
  coherent : Coherent (debugMmu bus) (fun _ addr _ => .ok addr) machine.tlb
  bytes : ∀ {addr host}, bus.addrToMem addr = some host →
    machine.contents host.1 host.2 = memory addr
  small : ∀ addr, memory addr < 256

/-! ## One chunk -/

/-- The translation of the port without a processor is uniform. -/
theorem uniform_debugMmu (paged : bus.Paged) :
    (debugMmu bus).Uniform fun _ addr _ => .ok addr := by
  constructor
  · exact paged
  · rintro type addr len _ ⟨⟩
    rfl
  · rintro type addr len _ type' addr' len' _ samePage ⟨⟩ ⟨⟩
    exact samePage
  · intro type addr len paddr _ _ _ addr' len' _ _
    exact ⟨addr', rfl⟩
  · intro type _ addr data
    rfl

theorem bytesOf_regFromBytes {bytes : List Nat} (small : ∀ byte ∈ bytes, byte < 256) :
    bytesOf bytes.length (regFromBytes bytes) = bytes := by
  apply List.ext_getElem
  · exact length_bytesOf _ _
  · intro j _ inside
    have value := @byteAt_ofBytes bytes.length j (fun i => bytes.getD i 0)
      (fun i below => by
        rw [List.getD_eq_getElem _ _ below]
        exact small _ (List.getElem_mem below)) inside
    rw [List.getD_eq_getElem _ _ inside] at value
    simp only [bytesOf, List.getElem_map, List.getElem_range]
    exact value

theorem regFromBytes_lt {bytes : List Nat} (small : ∀ byte ∈ bytes, byte < 256) :
    regFromBytes bytes < 256 ^ bytes.length := by
  apply ofBytes_lt
  intro j inside
  rw [List.getD_eq_getElem _ _ inside]
  exact small _ (List.getElem_mem inside)

/-- A chunk in a memory lies in it as a whole. -/
theorem addrToMem_chunk (paged : bus.Paged) {taddr : Nat} {host : HostAddr}
    (found : bus.addrToMem taddr = some host) (aligned : chunkAlign ∣ taddr) {j : Nat}
    (inside : j < chunkAlign) : bus.addrToMem (taddr + j) = some (host.1, host.2 + j) := by
  obtain ⟨low, page⟩ := paged.addrToMem_page found
  obtain ⟨index, rfl⟩ := aligned
  rw [page (chunkAlign * index + j) (by rw [chunkAlign, pgsize] at *; omega)]
  rw [chunkAlign, pgsize] at *
  congr 2
  omega

theorem HoldsMemory.read_eq (paged : bus.Paged) {memory : ByteMemory} {machine : Machine δ}
    (holds : HoldsMemory bus memory machine) {taddr : Nat} {host : HostAddr}
    (found : bus.addrToMem taddr = some host) (aligned : chunkAlign ∣ taddr) :
    machine.contents.read host.1 host.2 chunkAlign = memory.slice taddr chunkAlign := by
  rw [Contents.read, slice]
  apply List.map_congr_left
  intro j mem
  have byte := holds.bytes (addrToMem_chunk paged found aligned (List.mem_range.mp mem))
  exact byte

/-- A chunk that is written to a memory changes the bytes at its addresses and no others. -/
theorem HoldsMemory.write (paged : bus.Paged) (onePlace : bus.OnePlace) {memory : ByteMemory}
    {machine : Machine δ} (holds : HoldsMemory bus memory machine) {taddr : Nat} {host : HostAddr}
    (found : bus.addrToMem taddr = some host) (aligned : chunkAlign ∣ taddr) {src : List Nat}
    (length : src.length = chunkAlign) (srcSmall : ∀ byte ∈ src, byte < 256) {after : Machine δ}
    (coherent : Coherent (debugMmu bus) (fun _ addr _ => .ok addr) after.tlb)
    (written : after.contents = machine.contents.write host.1 host.2 src) :
    HoldsMemory bus (memory.overwrite taddr src) after := by
  constructor
  · exact coherent
  · intro addr other foundOther
    rw [written, Contents.write]
    by_cases inChunk : taddr ≤ addr ∧ addr < taddr + src.length
    · obtain ⟨j, rfl⟩ := Nat.exists_eq_add_of_le inChunk.1
      have inside : j < src.length := by omega
      have place := addrToMem_chunk paged found aligned (length ▸ inside)
      rw [foundOther] at place
      cases place
      rw [overwrite_inside inside, if_pos ⟨rfl, by omega, by omega⟩]
      congr 1
      omega
    · rw [overwrite_outside inChunk, if_neg, holds.bytes foundOther]
      obtain ⟨number, offset⟩ := host
      obtain ⟨otherNumber, otherOffset⟩ := other
      obtain ⟨_, base, size, device, _, rfl⟩ := addrToMem_eq_some_iff.mp found
      obtain ⟨_, otherBase, otherSize, otherDevice, _, rfl⟩ := addrToMem_eq_some_iff.mp foundOther
      obtain ⟨⟨mem, low⟩, _⟩ := OrderedMap.floor_eq_some_iff.mp device
      obtain ⟨⟨otherMem, otherLow⟩, _⟩ := OrderedMap.floor_eq_some_iff.mp otherDevice
      dsimp only at low otherLow ⊢
      -- the same memory is attached in one place, so its offsets are apart as the addresses are
      rintro ⟨rfl, above, below⟩
      have base_eq := onePlace mem otherMem
      subst base_eq
      omega
  · exact overwrite_lt holds.small srcSmall

section Port

variable {memory : ByteMemory} {machine : Machine δ} {taddr : Nat} {host : HostAddr}

theorem fits_of_found (found : bus.addrToMem taddr = some host) (aligned : chunkAlign ∣ taddr) :
    Fits taddr 8 := by
  have small := (addrToMem_eq_some_iff.mp found).1
  exact ⟨by omega, by decide, aligned⟩

theorem HoldsMemory.related (holds : HoldsMemory bus memory machine) :
    Related (debugMmu bus) (fun _ addr _ => .ok addr) machine machine :=
  ⟨⟨rfl, rfl, rfl, rfl⟩, holds.coherent, holds.coherent⟩

/-- A load returns the bytes of the memory, whether or not its page is in the TLB. -/
theorem load_backed (paged : bus.Paged) (holds : HoldsMemory bus memory machine)
    (found : bus.addrToMem taddr = some host) (aligned : chunkAlign ∣ taddr) :
    Succeeds ((debugMmu bus).load 8 taddr) machine fun data machine' =>
      data = regFromBytes (memory.slice taddr chunkAlign) ∧ HoldsMemory bus memory machine' := by
  have uniform := uniform_debugMmu paged
  have fits := fits_of_found found aligned
  have same := same_load_slow uniform (fun _ _ _ => rfl) holds.related fits
  have slow : (debugMmu bus).slowLoad 8 taddr machine =
      .ok (regFromBytes (machine.contents.read host.1 host.2 8))
        { machine with tlb := refilledTlb (debugMmu bus) taddr taddr host .load machine.tlb } := by
    rw [@slowLoad_memory _ (debugMmu bus) machine _ _ _ _ fits rfl found]
    simp only [bind, EStateM.bind, triggerException_quiet uniform rfl]
    rfl
  rw [slow] at same
  cases loaded : (debugMmu bus).load 8 taddr machine with
  | error trap machine' =>
      rw [loaded] at same
      cases same
  | ok data machine' =>
      rw [loaded] at same
      cases same with
      | ok related =>
          refine ⟨_, machine', loaded, congrArg regFromBytes (holds.read_eq paged found aligned),
            related.left, ?_, holds.small⟩
          intro addr other foundOther
          rw [related.core.contents]
          exact holds.bytes foundOther

/-- A store changes the memory at its bytes. -/
theorem store_backed (paged : bus.Paged) (onePlace : bus.OnePlace)
    (holds : HoldsMemory bus memory machine) (found : bus.addrToMem taddr = some host)
    (aligned : chunkAlign ∣ taddr) {src : List Nat} (length : src.length = chunkAlign)
    (srcSmall : ∀ byte ∈ src, byte < 256) :
    Succeeds ((debugMmu bus).store 8 taddr (regFromBytes src)) machine fun _ machine' =>
      HoldsMemory bus (memory.overwrite taddr src) machine' := by
  have uniform := uniform_debugMmu paged
  have fits := fits_of_found found aligned
  have value := regFromBytes_lt srcSmall
  have bytes := bytesOf_regFromBytes srcSmall
  rw [length] at value bytes
  have same := same_store_slow uniform (fun _ _ _ => rfl) holds.related fits value
  rw [show bytesOf 8 (regFromBytes src) = src from bytes] at same
  have slow : (debugMmu bus).storeSlowPath taddr src machine = .ok ()
      { machine with
        contents := machine.contents.write host.1 host.2 src
        tlb := refilledTlb (debugMmu bus) taddr taddr host .store machine.tlb } := by
    rw [@storeSlowPath_memory _ (debugMmu bus) machine _ _ _ _ rfl found]
    simp only [bind, EStateM.bind, triggerException_quiet uniform rfl]
    rfl
  rw [slow] at same
  cases stored : (debugMmu bus).store 8 taddr (regFromBytes src) machine with
  | error trap machine' =>
      rw [stored] at same
      cases same
  | ok value machine' =>
      rw [stored] at same
      cases same with
      | ok related =>
          exact ⟨(), machine', stored, holds.write paged onePlace found aligned length srcSmall
            related.left related.core.contents⟩

end Port

/-- The simulator holds a byte memory on the chunks in its memories. -/
theorem simMemif_backs (paged : bus.Paged) (onePlace : bus.OnePlace) :
    (simMemif bus).Backs bus.Backed (HoldsMemory bus) := by
  constructor
  · intro memory machine holds
    exact holds.small
  · intro memory machine taddr holds aligned backed
    obtain ⟨host, found⟩ := Option.isSome_iff_exists.mp backed
    apply Succeeds.bind (load_backed paged holds found aligned)
    rintro _ machine' ⟨rfl, held⟩
    apply Succeeds.pure
    have bytes : ∀ byte ∈ memory.slice taddr chunkAlign, byte < 256 := by
      intro byte mem
      obtain ⟨j, _, rfl⟩ := List.mem_map.mp mem
      exact holds.small _
    have value := bytesOf_regFromBytes bytes
    rw [length_slice] at value
    exact ⟨value, held⟩
  · intro memory machine taddr src holds aligned backed length srcSmall
    obtain ⟨host, found⟩ := Option.isSome_iff_exists.mp backed
    have whole : (simMemif bus).writeChunk taddr src =
        (debugMmu bus).store 8 taddr (regFromBytes src) := by
      have eight : ¬ src.length ≠ 8 := not_not.mpr length
      change writeChunkSim bus taddr src = _
      simp only [writeChunkSim, if_neg eight]
    rw [whole]
    exact store_backed paged onePlace holds found aligned length srcSmall

/-! ## Runs of the host -/

/-- What the host asks of the memory interface. -/
inductive HostAccess
  | read (addr len : Nat)
  | write (addr : Nat) (bytes : List Nat)
deriving DecidableEq, Repr

/-- The addresses of the access. -/
def HostAccess.Meets : HostAccess → Nat → Prop
  | .read start len, addr => start ≤ addr ∧ addr < start + len
  | .write start bytes, addr => start ≤ addr ∧ addr < start + bytes.length

/-- The start of the access. -/
def HostAccess.start : HostAccess → Nat
  | .read start _ => start
  | .write start _ => start

/-- The access consists of bytes at addresses in memories. -/
structure HostAccess.InMemory (bus : Bus δ) (access : HostAccess) : Prop where
  address : access.start < 2 ^ 64
  backed : ∀ addr, access.Meets addr → bus.Backed addr
  small : ∀ start bytes, access = .write start bytes → ∀ byte ∈ bytes, byte < 256

/-- Perform an access; the answer is the bytes that were read. -/
def HostAccess.perform (bus : Bus δ) : HostAccess → SimM δ (List Nat)
  | .read addr len => (simMemif bus).read addr len
  | .write addr bytes => do
      (simMemif bus).write addr bytes
      return []

/-- The answer of a byte memory to an access, and the memory after it. -/
def HostAccess.onMemory (memory : ByteMemory) : HostAccess → List Nat × ByteMemory
  | .read addr len => (memory.slice addr len, memory)
  | .write addr bytes => ([], memory.overwrite addr bytes)

/-- The answers of a byte memory to a run, and the memory after it. -/
def runOnMemory : List HostAccess → ByteMemory → List (List Nat) × ByteMemory
  | [], memory => ([], memory)
  | access :: rest, memory =>
      let later := runOnMemory rest (access.onMemory memory).2
      ((access.onMemory memory).1 :: later.1, later.2)

/-- The memories are zero at first. -/
theorem holdsMemory_fresh (peripherals : δ) :
    HoldsMemory bus (fun _ => 0) (Machine.fresh peripherals) := by
  constructor
  · exact coherent_flush _ _ (Machine.fresh peripherals).tlb
  · intro addr host _
    rfl
  · exact fun _ => by decide

/-- A range of bytes in memories lies in chunks in memories. -/
theorem inMapped_of_backed (paged : bus.Paged) {addr len : Nat} (address : addr < 2 ^ 64)
    (backed : ∀ place, addr ≤ place → place < addr + len → bus.Backed place) :
    ChunkedMemif.InMapped bus.Backed addr len := by
  constructor
  · by_cases empty : len = 0
    · rw [empty]
      exact address
    · obtain ⟨host, found⟩ := Option.isSome_iff_exists.mp
        (backed (addr + len - 1) (by omega) (by omega))
      have small := (addrToMem_eq_some_iff.mp found).1
      omega
  · intro place above below
    obtain ⟨host, found⟩ := Option.isSome_iff_exists.mp (backed place above below)
    have page := (paged.addrToMem_page found).2 (place / chunkAlign * chunkAlign)
      (by rw [chunkAlign, pgsize]; omega)
    rw [Bus.Backed, page]
    rfl

theorem perform_succeeds (paged : bus.Paged) (onePlace : bus.OnePlace) {memory : ByteMemory}
    {machine : Machine δ} (holds : HoldsMemory bus memory machine) {access : HostAccess}
    (inMemory : access.InMemory bus) :
    Succeeds (access.perform bus) machine fun answer machine' =>
      answer = (access.onMemory memory).1 ∧ HoldsMemory bus (access.onMemory memory).2 machine' := by
  have backs := simMemif_backs paged onePlace
  cases access with
  | read addr len =>
      exact ChunkedMemif.read_succeeds backs holds (inMapped_of_backed paged inMemory.address
        fun place above below => inMemory.backed place ⟨above, below⟩)
  | write addr bytes =>
      apply Succeeds.bind (ChunkedMemif.write_succeeds backs holds (inMemory.small addr bytes rfl)
        (inMapped_of_backed paged inMemory.address
          fun place above below => inMemory.backed place ⟨above, below⟩))
      intro _ machine' held
      exact Succeeds.pure ⟨rfl, held⟩

/-- Any run of the host on addresses in memories, of any lengths and alignments, is answered
as by a byte memory, and leaves its bytes in the memories. -/
theorem host_runs_on_memory (paged : bus.Paged) (onePlace : bus.OnePlace)
    {accesses : List HostAccess} (inMemory : ∀ access ∈ accesses, access.InMemory bus) :
    ∀ {memory : ByteMemory} {machine : Machine δ}, HoldsMemory bus memory machine →
      Succeeds (accesses.mapM (HostAccess.perform bus)) machine fun answers machine' =>
        answers = (runOnMemory accesses memory).1 ∧
          HoldsMemory bus (runOnMemory accesses memory).2 machine' := by
  induction accesses with
  | nil =>
      intro memory machine holds
      exact Succeeds.pure ⟨rfl, holds⟩
  | cons access rest inductionHypothesis =>
      intro memory machine holds
      rw [List.mapM_cons]
      apply Succeeds.bind (perform_succeeds paged onePlace holds
        (inMemory access List.mem_cons_self))
      rintro _ machine' ⟨rfl, held⟩
      apply Succeeds.bind (inductionHypothesis
        (fun later mem => inMemory later (List.mem_cons_of_mem access mem)) held)
      rintro _ machine'' ⟨rfl, final⟩
      exact Succeeds.pure ⟨rfl, final⟩

end Target

theorem pageBus_onePlace : pageBus.OnePlace := by
  intro base base' number size size' mem mem'
  rcases mem with _ | ⟨_, ⟨⟩⟩
  rcases mem' with _ | ⟨_, ⟨⟩⟩
  rfl

/-- A few bytes across a boundary of chunks are written and read. -/
theorem host_runs_on_memory_page :
    Succeeds ([HostAccess.write 0x80000005 [1, 2, 3, 4, 5], .read 0x80000006 3].mapM
        (HostAccess.perform pageBus)) (Machine.fresh ()) fun answers machine' =>
      answers = (runOnMemory [.write 0x80000005 [1, 2, 3, 4, 5], .read 0x80000006 3]
          fun _ => 0).1 ∧
        HoldsMemory pageBus (runOnMemory [.write 0x80000005 [1, 2, 3, 4, 5], .read 0x80000006 3]
          fun _ => 0).2 machine' := by
  have inPage : ∀ addr, 0x80000000 ≤ addr → addr < 0x80001000 → pageBus.Backed addr := by
    intro addr above below
    have found := (pageBus_paged.addrToMem_page (rfl : pageBus.addrToMem 0x80000000 = some (0, 0))).2
      addr (by rw [pgsize]; omega)
    rw [Bus.Backed, found]
    rfl
  apply host_runs_on_memory pageBus_paged pageBus_onePlace
  · intro access mem
    simp only [List.mem_cons, List.not_mem_nil, or_false] at mem
    rcases mem with rfl | rfl
    · refine ⟨by decide, fun addr meets => inPage addr ?_ ?_, ?_⟩
      · exact le_trans (by decide) meets.1
      · exact lt_of_lt_of_le meets.2 (by decide)
      · rintro _ _ ⟨⟩
        decide
    · refine ⟨by decide, fun addr meets => inPage addr ?_ ?_, ?_⟩
      · exact le_trans (by decide) meets.1
      · exact lt_of_lt_of_le meets.2 (by decide)
      · rintro _ _ ⟨⟩
  · exact holdsMemory_fresh ()

end Difftest.Spike
