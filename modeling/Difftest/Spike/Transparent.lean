import Mathlib
import Difftest.Spike.Tlb

/-!
# Accesses do not show the TLB

Each access is run from two machines that differ in their TLBs alone, both coherent.  On
both sides the slow path asks the same of the processor and the bus, and an entry that is
hit leads to the bytes that the slow path reads or writes.
-/

namespace Difftest.Spike

namespace Mmu

variable {δ : Type} {mmu : Mmu δ} {frozen : Translation} {m d : Machine δ} {type : AccessType}
  {addr len size paddr : Nat} {host : HostAddr}

/-! ## What the slow paths do -/

theorem translateAddr_apply : mmu.translateAddr type addr len m =
    match mmu.translate type addr len m.contents with
    | .ok paddr => .ok paddr m
    | .error trap => .error trap m := by
  simp only [translateAddr, bind, EStateM.bind, get, getThe, MonadStateOf.get, EStateM.get]
  cases mmu.translate type addr len m.contents <;> rfl

theorem triggerException_apply (data : Nat) : mmu.triggerException type addr data m =
    if m.matchedTrigger = none then
      match mmu.triggerMatch type addr data with
      | none => .ok () m
      | some trigger =>
          .error (.triggerMatched trigger.index type addr data)
            (if trigger.timing ≠ 0 then
              { m with matchedTrigger := some (trigger.index, type, addr, data) }
            else m)
    else .ok () m := by
  simp only [triggerException, bind, EStateM.bind, get, getThe, MonadStateOf.get, EStateM.get]
  split
  · cases mmu.triggerMatch type addr data with
    | none => rfl
    | some trigger =>
        by_cases timed : trigger.timing ≠ 0
        · simp only [if_pos timed]
          rfl
        · simp only [if_neg timed]
          rfl
  · rfl

theorem refillTlb_apply : mmu.refillTlb addr paddr host type m =
    .ok (refillEntry addr paddr host)
      { m with tlb := refilledTlb mmu addr paddr host type m.tlb } :=
  rfl

theorem mmioLoad_apply : mmu.mmioLoad addr len m =
    if mmu.mmioOk addr then
      match mmu.bus.mmioLoad addr len m.peripherals with
      | some (bytes, peripherals) => .ok (some bytes) { m with peripherals }
      | none => .ok none m
    else .ok none m := by
  simp only [mmioLoad]
  split
  · simp only [bind, EStateM.bind, get, getThe, MonadStateOf.get, EStateM.get]
    cases mmu.bus.mmioLoad addr len m.peripherals <;> rfl
  · rfl

theorem mmioStore_apply {bytes : List Nat} : mmu.mmioStore addr bytes m =
    if mmu.mmioOk addr then
      match mmu.bus.mmioStore addr bytes m.peripherals with
      | some peripherals => .ok true { m with peripherals }
      | none => .ok false m
    else .ok false m := by
  simp only [mmioStore]
  split
  · simp only [bind, EStateM.bind, get, getThe, MonadStateOf.get, EStateM.get]
    cases mmu.bus.mmioStore addr bytes m.peripherals <;> rfl
  · rfl

theorem loadSlowPath_error {trap : Trap}
    (translated : mmu.translate .load addr len m.contents = .error trap) :
    mmu.loadSlowPath addr len m = .error trap m := by
  simp only [loadSlowPath, bind, EStateM.bind, translateAddr_apply, translated]

theorem loadSlowPath_memory (translated : mmu.translate .load addr len m.contents = .ok paddr)
    (found : mmu.bus.addrToMem paddr = some host) :
    mmu.loadSlowPath addr len m =
      (do
        let bytes := m.contents.read host.1 host.2 len
        mmu.triggerException .load addr (regFromBytes bytes)
        return bytes : SimM δ (List Nat))
      { m with tlb := refilledTlb mmu addr paddr host .load m.tlb } := by
  simp only [loadSlowPath, bind, EStateM.bind, translateAddr_apply, translated, found]
  rfl

theorem loadSlowPath_other (translated : mmu.translate .load addr len m.contents = .ok paddr)
    (found : mmu.bus.addrToMem paddr = none) :
    mmu.loadSlowPath addr len m =
      (do
        match ← mmu.mmioLoad paddr len with
        | some bytes => do
            mmu.triggerException .load addr (regFromBytes bytes)
            return bytes
        | none => throw (.accessFault .load addr) : SimM δ (List Nat)) m := by
  simp only [loadSlowPath, bind, EStateM.bind, translateAddr_apply, translated, found]
  cases mmu.mmioLoad paddr len m with
  | ok result m' => cases result <;> rfl
  | error => rfl

theorem storeSlowPath_error {bytes : List Nat} {trap : Trap}
    (translated : mmu.translate .store addr bytes.length m.contents = .error trap) :
    mmu.storeSlowPath addr bytes m = .error trap m := by
  simp only [storeSlowPath, bind, EStateM.bind, translateAddr_apply, translated]

theorem storeSlowPath_memory {bytes : List Nat}
    (translated : mmu.translate .store addr bytes.length m.contents = .ok paddr)
    (found : mmu.bus.addrToMem paddr = some host) :
    mmu.storeSlowPath addr bytes m =
      (do
        mmu.triggerException .store addr (regFromBytes bytes)
        writeHost host.1 host.2 bytes
        let _ ← mmu.refillTlb addr paddr host .store : SimM δ Unit) m := by
  simp only [storeSlowPath, bind, EStateM.bind, translateAddr_apply, translated, found]

theorem storeSlowPath_other {bytes : List Nat}
    (translated : mmu.translate .store addr bytes.length m.contents = .ok paddr)
    (found : mmu.bus.addrToMem paddr = none) :
    mmu.storeSlowPath addr bytes m =
      (do
        mmu.triggerException .store addr (regFromBytes bytes)
        if !(← mmu.mmioStore paddr bytes) then
          throw (.accessFault .store addr) : SimM δ Unit) m := by
  simp only [storeSlowPath, bind, EStateM.bind, translateAddr_apply, translated, found]

/-! ## Machines that differ in their TLBs -/

/-- Everything but the TLB is the same. -/
structure SameCore (m d : Machine δ) : Prop where
  contents : m.contents = d.contents
  peripherals : m.peripherals = d.peripherals
  matchedTrigger : m.matchedTrigger = d.matchedTrigger
  loadReservation : m.loadReservation = d.loadReservation

/-- Two machines with coherent TLBs that are the same otherwise. -/
structure Related (mmu : Mmu δ) (frozen : Translation) (m d : Machine δ) : Prop where
  core : SameCore m d
  left : Coherent mmu frozen m.tlb
  right : Coherent mmu frozen d.tlb

theorem SameCore.symm (core : SameCore m d) : SameCore d m :=
  ⟨core.contents.symm, core.peripherals.symm, core.matchedTrigger.symm, core.loadReservation.symm⟩

/-- The TLBs do not matter. -/
theorem SameCore.other (core : SameCore m d) {tlb tlb' : Tlb} :
    SameCore { m with tlb } { d with tlb := tlb' } :=
  ⟨core.contents, core.peripherals, core.matchedTrigger, core.loadReservation⟩

/-- Both sides write the same bytes. -/
theorem Related.write (related : Related mmu frozen m d) (memory : Nat) (offset : Int)
    (bytes : List Nat) :
    Related mmu frozen { m with contents := m.contents.write memory offset bytes }
      { d with contents := d.contents.write memory offset bytes } :=
  ⟨⟨congrArg (fun contents => contents.write memory offset bytes) related.core.contents,
    related.core.peripherals, related.core.matchedTrigger, related.core.loadReservation⟩,
    related.left, related.right⟩

theorem Related.symm (related : Related mmu frozen m d) : Related mmu frozen d m :=
  ⟨related.core.symm, related.right, related.left⟩

theorem Related.trans {d' : Machine δ} (related : Related mmu frozen m d)
    (later : Related mmu frozen d d') : Related mmu frozen m d' :=
  ⟨⟨related.core.contents.trans later.core.contents,
    related.core.peripherals.trans later.core.peripherals,
    related.core.matchedTrigger.trans later.core.matchedTrigger,
    related.core.loadReservation.trans later.core.loadReservation⟩, related.left, later.right⟩

/-- Agreement of two results. -/
abbrev Same (mmu : Mmu δ) (frozen : Translation) {α : Type} :
    EStateM.Result Trap (Machine δ) α → EStateM.Result Trap (Machine δ) α → Prop :=
  Agree (Related mmu frozen)

theorem Same.symm {α : Type} {first second : EStateM.Result Trap (Machine δ) α}
    (same : Same mmu frozen first second) : Same mmu frozen second first :=
  Agree.symm Related.symm same

theorem Same.trans {α : Type} {first second third : EStateM.Result Trap (Machine δ) α}
    (same : Same mmu frozen first second) (later : Same mmu frozen second third) :
    Same mmu frozen first third :=
  Agree.trans Related.trans same later

theorem same_triggerException (related : Related mmu frozen m d) (type : AccessType)
    (addr data : Nat) :
    Same mmu frozen (mmu.triggerException type addr data m) (mmu.triggerException type addr data d) := by
  rw [triggerException_apply, triggerException_apply, related.core.matchedTrigger]
  split
  · cases mmu.triggerMatch type addr data with
    | none => exact .ok related
    | some trigger =>
        apply Agree.error
        by_cases timed : trigger.timing ≠ 0
        · rw [if_pos timed, if_pos timed]
          exact ⟨⟨related.core.contents, related.core.peripherals, rfl,
            related.core.loadReservation⟩, related.left, related.right⟩
        · rw [if_neg timed, if_neg timed]
          exact related
  · exact .ok related

theorem same_mmioLoad (related : Related mmu frozen m d) (addr len : Nat) :
    Same mmu frozen (mmu.mmioLoad addr len m) (mmu.mmioLoad addr len d) := by
  rw [mmioLoad_apply, mmioLoad_apply, ← related.core.peripherals]
  split
  · cases mmu.bus.mmioLoad addr len m.peripherals with
    | none => exact .ok related
    | some answer =>
        exact .ok ⟨⟨related.core.contents, rfl, related.core.matchedTrigger,
          related.core.loadReservation⟩, related.left, related.right⟩
  · exact .ok related

theorem same_mmioStore (related : Related mmu frozen m d) (addr : Nat) (bytes : List Nat) :
    Same mmu frozen (mmu.mmioStore addr bytes m) (mmu.mmioStore addr bytes d) := by
  rw [mmioStore_apply, mmioStore_apply, ← related.core.peripherals]
  split
  · cases mmu.bus.mmioStore addr bytes m.peripherals with
    | none => exact .ok related
    | some peripherals =>
        exact .ok ⟨⟨related.core.contents, rfl, related.core.matchedTrigger,
          related.core.loadReservation⟩, related.left, related.right⟩
  · exact .ok related

/-- Both sides refill after the same translation. -/
theorem same_refill (uniform : Uniform mmu frozen) (related : Related mmu frozen m d)
    (fits : Fits addr len) (translated : frozen type addr len = .ok paddr)
    (found : mmu.bus.addrToMem paddr = some host) :
    Related mmu frozen { m with tlb := refilledTlb mmu addr paddr host type m.tlb }
      { d with tlb := refilledTlb mmu addr paddr host type d.tlb } :=
  ⟨related.core.other, related.left.refill uniform fits translated found,
    related.right.refill uniform fits translated found⟩

/-! ## Loads -/

/-- What `load_func` does when no tag matches. -/
def slowLoad (mmu : Mmu δ) (size addr : Nat) : SimM δ Nat := do
  let bytes ← mmu.loadSlowPath addr size
  if addr % size ≠ 0 then
    throw (.misaligned .load addr)
  return regFromBytes bytes

theorem load_apply : mmu.load size addr m =
    let vpn := addr / pgsize
    let entry := m.tlb.data (vpn % tlbEntries)
    let data := regFromBytes (m.contents.read entry.memory (entry.hostOffset + addr) size)
    if m.tlb.tag .load (vpn % tlbEntries) = vpn then .ok data m
    else if m.tlb.tag .load (vpn % tlbEntries) = vpn ||| tlbCheckTriggers then
      (do
        mmu.triggerException .load addr data
        return data : SimM δ Nat) m
    else mmu.slowLoad size addr m := by
  rw [← shiftRight_pgshift]
  simp only [load, tlbTag, bind, EStateM.bind, get, getThe, MonadStateOf.get, EStateM.get, pure,
    EStateM.pure]
  split
  · rfl
  · split
    · rfl
    · rfl

/-- An aligned load from a memory. -/
theorem slowLoad_memory (fits : Fits addr size)
    (translated : mmu.translate .load addr size m.contents = .ok paddr)
    (found : mmu.bus.addrToMem paddr = some host) :
    mmu.slowLoad size addr m =
      (do
        let data := regFromBytes (m.contents.read host.1 host.2 size)
        mmu.triggerException .load addr data
        return data : SimM δ Nat)
      { m with tlb := refilledTlb mmu addr paddr host .load m.tlb } := by
  have aligned : ¬ addr % size ≠ 0 := not_not.mpr (Nat.mod_eq_zero_of_dvd fits.aligned)
  simp only [slowLoad, bind, EStateM.bind, loadSlowPath_memory translated found, if_neg aligned]
  cases mmu.triggerException .load addr (regFromBytes (m.contents.read host.1 host.2 size))
    { m with tlb := refilledTlb mmu addr paddr host .load m.tlb } with
  | ok => rfl
  | error => rfl

/-- Without a check no trigger fires. -/
theorem triggerException_quiet (uniform : Uniform mmu frozen)
    (unchecked : mmu.checkTriggers type = false) (addr data : Nat) :
    mmu.triggerException type addr data m = .ok () m := by
  rw [triggerException_apply, uniform.quiet unchecked]
  split
  · rfl
  · rfl

/-- A tag that matches is the one that a refill sets, and its page is cached. -/
theorem Coherent.of_tag (coherent : Coherent mmu frozen m.tlb) (address : addr < 2 ^ 64)
    (matched : m.tlb.tag type (addr / pgsize % tlbEntries) = addr / pgsize ∨
      m.tlb.tag type (addr / pgsize % tlbEntries) = addr / pgsize ||| tlbCheckTriggers) :
    m.tlb.tag type (addr / pgsize % tlbEntries) = mmu.expectedTag type (addr / pgsize) ∧
      ∃ page host, Cached mmu frozen type (addr / pgsize) page host
        (m.tlb.data (addr / pgsize % tlbEntries)) := by
  have small := vpn_lt address
  apply coherent type _ small
  rw [Held]
  rcases matched with plain | checked
  · rw [plain, ldiff_check small]
  · rw [checked, ldiff_or_check small]

/-- A tag without a check is set only where no triggers are checked. -/
theorem unchecked_of_tag (address : addr < 2 ^ 64)
    (tag : addr / pgsize = mmu.expectedTag type (addr / pgsize)) :
    mmu.checkTriggers type = false := by
  rw [expectedTag] at tag
  by_contra checked
  rw [Bool.not_eq_false] at checked
  rw [if_pos checked] at tag
  exact or_check_ne (vpn_lt address) tag.symm

theorem Cached.hostOffset_add {vpn page : Nat} {entry : TlbEntry}
    (cached : Cached mmu frozen type vpn page host entry) (inPage : addr / pgsize = vpn) :
    entry.memory = host.1 ∧ entry.hostOffset + addr = ((host.2 + addr % pgsize : Nat) : Int) := by
  have split := Nat.div_add_mod' addr pgsize
  rw [inPage] at split
  rw [cached.leads, refillEntry]
  constructor
  · rfl
  · dsimp only
    omega

theorem Settled.of_core (settled : Settled mmu frozen m.contents) (core : SameCore m d) :
    Settled mmu frozen d.contents := by
  rwa [← core.contents]

section Agreement

variable (uniform : Uniform mmu frozen) (settled : Settled mmu frozen m.contents)

include uniform settled

theorem same_loadSlowPath (related : Related mmu frozen m d) (fits : Fits addr len) :
    Same mmu frozen (mmu.loadSlowPath addr len m) (mmu.loadSlowPath addr len d) := by
  have others := settled.of_core related.core
  cases translated : frozen .load addr len with
  | error trap =>
      rw [loadSlowPath_error ((settled _ _ _).trans translated),
        loadSlowPath_error ((others _ _ _).trans translated)]
      exact .error related
  | ok paddr =>
      have left := (settled _ _ _).trans translated
      have right := (others _ _ _).trans translated
      cases found : mmu.bus.addrToMem paddr with
      | some host =>
          have refilled := same_refill uniform related fits translated found
          rw [loadSlowPath_memory left found, loadSlowPath_memory right found,
            related.core.contents]
          rw [related.core.contents] at refilled
          exact Agree.bind (same_triggerException refilled _ _ _)
            fun _ _ _ _ _ related => .ok related
      | none =>
          rw [loadSlowPath_other left found, loadSlowPath_other right found]
          apply Agree.bind (same_mmioLoad related _ _)
          intro answer s t _ _ related
          cases answer with
          | none => exact .error related
          | some bytes =>
              exact Agree.bind (same_triggerException related _ _ _)
                fun _ _ _ _ _ related => .ok related

theorem same_slowLoad (related : Related mmu frozen m d) (fits : Fits addr size) :
    Same mmu frozen (mmu.slowLoad size addr m) (mmu.slowLoad size addr d) := by
  apply Agree.bind (same_loadSlowPath uniform settled related fits)
  intro bytes s t _ _ related
  by_cases misaligned : addr % size ≠ 0
  · simp only [if_pos misaligned]
    exact .error related
  · simp only [if_neg misaligned]
    exact .ok related

/-- A load does what its slow path does on the other side. -/
theorem same_load_slow (related : Related mmu frozen m d) (fits : Fits addr size) :
    Same mmu frozen (mmu.load size addr m) (mmu.slowLoad size addr d) := by
  by_cases matched : m.tlb.tag .load (addr / pgsize % tlbEntries) = addr / pgsize ∨
      m.tlb.tag .load (addr / pgsize % tlbEntries) = addr / pgsize ||| tlbCheckTriggers
  · obtain ⟨tag, page, host, cached⟩ := related.left.of_tag fits.address matched
    have translated := cached.translated rfl fits
    have found := cached.inMemory (Nat.mod_lt addr (show 0 < pgsize by decide))
    obtain ⟨memory, offset⟩ := cached.hostOffset_add (rfl : addr / pgsize = _)
    have refilled : Related mmu frozen m
        { d with tlb := refilledTlb mmu addr _ _ .load d.tlb } :=
      ⟨related.core.other, related.left,
        related.right.refill uniform fits translated found⟩
    -- the hit, with its check for triggers, is the slow path after the translation
    have hit : mmu.load size addr m =
        (do
          let data := regFromBytes (m.contents.read host.1 (host.2 + addr % pgsize : Nat) size)
          mmu.triggerException .load addr data
          return data : SimM δ Nat) m := by
      rw [load_apply]
      simp only [memory, offset]
      by_cases plain : m.tlb.tag .load (addr / pgsize % tlbEntries) = addr / pgsize
      · have unchecked := unchecked_of_tag fits.address (plain.symm.trans tag)
        rw [if_pos plain]
        simp only [bind, EStateM.bind, triggerException_quiet uniform unchecked]
        rfl
      · rw [if_neg plain, if_pos (matched.resolve_left plain)]
    rw [hit, slowLoad_memory fits ((settled.of_core related.core _ _ _).trans translated) found,
      related.core.contents]
    exact Agree.bind (same_triggerException refilled _ _ _) fun _ _ _ _ _ related => .ok related
  · have slow : mmu.load size addr m = mmu.slowLoad size addr m := by
      rw [not_or] at matched
      rw [load_apply]
      dsimp only
      rw [if_neg matched.1, if_neg matched.2]
    rw [slow]
    exact same_slowLoad uniform settled related fits

end Agreement

/-! ## Stores -/

theorem length_bytesOf (size value : Nat) : (bytesOf size value).length = size := by
  rw [bytesOf, List.length_map, List.length_range]

/-- A value is read back from its bytes. -/
theorem regFromBytes_bytesOf {value : Nat} (fits : value < 256 ^ size) :
    regFromBytes (bytesOf size value) = value := by
  rw [regFromBytes, length_bytesOf, ← ofBytes_byteAt_of_lt fits]
  apply ofBytes_congr
  intro i inside
  rw [bytesOf, ofBytes_byteAt_of_lt fits, List.getD_eq_getElem?_getD, List.getElem?_map,
    List.getElem?_range inside]
  rfl

theorem triggerException_ok {data : Nat} {s : Machine δ}
    (quiet : mmu.triggerException type addr data m = .ok () s) : s = m := by
  rw [triggerException_apply] at quiet
  split at quiet
  · cases fires : mmu.triggerMatch type addr data with
    | none =>
        rw [fires] at quiet
        cases quiet
        rfl
    | some trigger =>
        rw [fires] at quiet
        cases quiet
  · cases quiet
    rfl

/-- An aligned store. -/
theorem store_apply {value : Nat} (fits : Fits addr size) : mmu.store size addr value m =
    let vpn := addr / pgsize
    let entry := m.tlb.data (vpn % tlbEntries)
    let write : SimM δ Unit :=
      writeHost entry.memory (entry.hostOffset + addr) (bytesOf size value)
    if m.tlb.tag .store (vpn % tlbEntries) = vpn then write m
    else if m.tlb.tag .store (vpn % tlbEntries) = vpn ||| tlbCheckTriggers then
      (mmu.triggerException .store addr value >>= fun _ => write) m
    else mmu.storeSlowPath addr (bytesOf size value) m := by
  have aligned : ¬ addr % size ≠ 0 := not_not.mpr (Nat.mod_eq_zero_of_dvd fits.aligned)
  rw [← shiftRight_pgshift]
  simp only [store, tlbTag, if_neg aligned, bind, EStateM.bind, get, getThe, MonadStateOf.get,
    EStateM.get, pure, EStateM.pure]
  split
  · rfl
  · split
    · cases quiet : mmu.triggerException .store addr value m with
      | error => simp only [EStateM.bind, quiet]
      | ok _ s =>
          cases triggerException_ok quiet
          simp only [EStateM.bind, quiet]
          rfl
    · change EStateM.bind _ _ m = _
      unfold EStateM.bind
      cases mmu.storeSlowPath addr (bytesOf size value) m with
      | ok => rfl
      | error => rfl

section Agreement

variable (uniform : Uniform mmu frozen) (settled : Settled mmu frozen m.contents)

include uniform settled

theorem same_storeSlowPath {bytes : List Nat} (related : Related mmu frozen m d)
    (fits : Fits addr bytes.length) :
    Same mmu frozen (mmu.storeSlowPath addr bytes m) (mmu.storeSlowPath addr bytes d) := by
  have others := settled.of_core related.core
  cases translated : frozen .store addr bytes.length with
  | error trap =>
      rw [storeSlowPath_error ((settled _ _ _).trans translated),
        storeSlowPath_error ((others _ _ _).trans translated)]
      exact .error related
  | ok paddr =>
      have left := (settled _ _ _).trans translated
      have right := (others _ _ _).trans translated
      cases found : mmu.bus.addrToMem paddr with
      | some host =>
          rw [storeSlowPath_memory left found, storeSlowPath_memory right found]
          apply Agree.bind (same_triggerException related _ _ _)
          intro _ s t _ _ related
          have written := related.write host.1 host.2 bytes
          exact .ok (same_refill uniform written fits translated found)
      | none =>
          rw [storeSlowPath_other left found, storeSlowPath_other right found]
          apply Agree.bind (same_triggerException related _ _ _)
          intro _ s t _ _ related
          apply Agree.bind (same_mmioStore related _ _)
          intro answered s t _ _ related
          cases answered with
          | true => exact .ok related
          | false => exact .error related

/-- A store does what its slow path does on the other side. -/
theorem same_store_slow {value : Nat} (related : Related mmu frozen m d) (fits : Fits addr size)
    (small : value < 256 ^ size) :
    Same mmu frozen (mmu.store size addr value m)
      (mmu.storeSlowPath addr (bytesOf size value) d) := by
  by_cases matched : m.tlb.tag .store (addr / pgsize % tlbEntries) = addr / pgsize ∨
      m.tlb.tag .store (addr / pgsize % tlbEntries) = addr / pgsize ||| tlbCheckTriggers
  · obtain ⟨tag, page, host, cached⟩ := related.left.of_tag fits.address matched
    have translated := cached.translated rfl fits
    have found := cached.inMemory (Nat.mod_lt addr (show 0 < pgsize by decide))
    obtain ⟨memory, offset⟩ := cached.hostOffset_add (rfl : addr / pgsize = _)
    have hit : mmu.store size addr value m =
        (mmu.triggerException .store addr value >>= fun _ =>
          writeHost host.1 (host.2 + addr % pgsize : Nat) (bytesOf size value)) m := by
      rw [store_apply fits]
      simp only [memory, offset]
      by_cases plain : m.tlb.tag .store (addr / pgsize % tlbEntries) = addr / pgsize
      · have unchecked := unchecked_of_tag fits.address (plain.symm.trans tag)
        rw [if_pos plain]
        simp only [bind, EStateM.bind, triggerException_quiet uniform unchecked]
      · rw [if_neg plain, if_pos (matched.resolve_left plain)]
    have there := (settled.of_core related.core _ _ _).trans translated
    rw [← length_bytesOf size value] at there
    rw [hit, storeSlowPath_memory there found, regFromBytes_bytesOf small]
    apply Agree.bind (same_triggerException related _ _ _)
    intro _ s t _ _ related
    have written := related.write host.1 (host.2 + addr % pgsize : Nat) (bytesOf size value)
    exact .ok ⟨written.core.other, written.left,
      written.right.refill uniform fits translated found⟩
  · have slow : mmu.store size addr value m = mmu.storeSlowPath addr (bytesOf size value) m := by
      rw [not_or] at matched
      rw [store_apply fits]
      dsimp only
      rw [if_neg matched.1, if_neg matched.2]
    rw [slow]
    rw [← length_bytesOf size value] at fits
    exact same_storeSlowPath uniform settled related fits

end Agreement

/-! ## Fetches -/

/-- What a fetch does when no tag matches: triggers are checked where the refill sets the tag
with the check. -/
def slowFetch (mmu : Mmu δ) (addr : Nat) : SimM δ Nat := do
  let paddr ← mmu.translateAddr .fetch addr 2
  match mmu.bus.addrToMem paddr with
  | some host =>
      let _ ← mmu.refillTlb addr paddr host .fetch
      let data := regFromBytes (← readHost host.1 host.2 2)
      if mmu.checkTriggers .fetch ∧ mmu.pmpHomogeneous (paddr / pgsize * pgsize) then
        mmu.fetchTrigger addr data
      return data
  | none =>
      match ← mmu.mmioLoad paddr 2 with
      | some parcel => return regFromBytes parcel
      | none => throw (.accessFault .fetch addr)

theorem fetchParcel_plain (plain : m.tlb.tag .fetch (addr / pgsize % tlbEntries) = addr / pgsize) :
    mmu.fetchParcel addr m =
      .ok (regFromBytes (m.contents.read (m.tlb.data (addr / pgsize % tlbEntries)).memory
        ((m.tlb.data (addr / pgsize % tlbEntries)).hostOffset + addr) 2)) m := by
  rw [← shiftRight_pgshift] at plain ⊢
  simp only [fetchParcel, translateInsnAddr, tlbTag, bind, EStateM.bind, get, getThe,
    MonadStateOf.get, EStateM.get, pure, EStateM.pure, if_pos plain]
  rfl

theorem fetchParcel_checked (small : addr / pgsize < 2 ^ 52)
    (checked : m.tlb.tag .fetch (addr / pgsize % tlbEntries) = addr / pgsize ||| tlbCheckTriggers) :
    mmu.fetchParcel addr m =
      (do
        let data := regFromBytes (m.contents.read (m.tlb.data (addr / pgsize % tlbEntries)).memory
          ((m.tlb.data (addr / pgsize % tlbEntries)).hostOffset + addr) 2)
        mmu.fetchTrigger addr data
        return data : SimM δ Nat) m := by
  have notPlain := or_check_ne small
  rw [← shiftRight_pgshift] at *
  cases fires : mmu.triggerMatch .fetch addr (regFromBytes (m.contents.read
      (m.tlb.data (addr >>> pgshift % tlbEntries)).memory
      ((m.tlb.data (addr >>> pgshift % tlbEntries)).hostOffset + addr) 2)) with
  | none =>
      simp [fetchParcel, translateInsnAddr, fetchTrigger, tlbTag, tlbEntry, readHost, bind,
        EStateM.bind, get, getThe, MonadStateOf.get, EStateM.get, pure, EStateM.pure, checked,
        notPlain, fires]
  | some trigger =>
      simp [fetchParcel, translateInsnAddr, fetchTrigger, tlbTag, tlbEntry, readHost, bind,
        EStateM.bind, get, getThe, MonadStateOf.get, EStateM.get, pure, EStateM.pure, checked,
        notPlain, fires]
      rfl

/-- When no tag matched, the refill sets the tag with the check exactly where triggers are
checked and the page is homogeneous. -/
theorem refillTag_checked_iff {tlb : Tlb} (coherent : Coherent mmu frozen tlb)
    (address : addr < 2 ^ 64)
    (missed : ¬ (tlb.tag type (addr / pgsize % tlbEntries) = addr / pgsize ∨
      tlb.tag type (addr / pgsize % tlbEntries) = addr / pgsize ||| tlbCheckTriggers)) :
    mmu.refillTag addr paddr type tlb type = addr / pgsize ||| tlbCheckTriggers ↔
      mmu.checkTriggers type = true ∧ mmu.pmpHomogeneous (paddr / pgsize * pgsize) = true := by
  have small := vpn_lt address
  rw [refillTag, shiftRight_pgshift]
  by_cases homogeneous : mmu.pmpHomogeneous (paddr / pgsize * pgsize) = true
  · simp only [homogeneous, and_self, if_true, and_true, expectedTag]
    by_cases checked : mmu.checkTriggers type = true
    · simp [checked]
    · simp [checked, (or_check_ne small).symm]
  · have unheld : Nat.ldiff (tlb.tag type (addr / pgsize % tlbEntries)) tlbCheckTriggers ≠
        addr / pgsize := by
      intro held
      have tag := (coherent type _ small held).1
      rw [expectedTag] at tag
      split at tag
      · exact missed (Or.inr tag)
      · exact missed (Or.inl tag)
    have flushed : allOnes ≠ addr / pgsize ||| tlbCheckTriggers := by
      intro same
      apply ldiff_allOnes_ne small
      rw [same, ldiff_or_check small]
    simp [homogeneous, unheld, flushed]

theorem fetchParcel_missed (coherent : Coherent mmu frozen m.tlb) (address : addr < 2 ^ 64)
    (missed : ¬ (m.tlb.tag .fetch (addr / pgsize % tlbEntries) = addr / pgsize ∨
      m.tlb.tag .fetch (addr / pgsize % tlbEntries) = addr / pgsize ||| tlbCheckTriggers)) :
    mmu.fetchParcel addr m = mmu.slowFetch addr m := by
  have sets := fun paddr => @refillTag_checked_iff δ mmu frozen .fetch addr paddr m.tlb coherent
    address missed
  rw [not_or] at missed
  rw [← shiftRight_pgshift] at *
  cases translated : mmu.translate .fetch addr 2 m.contents with
  | error trap =>
      simp [fetchParcel, translateInsnAddr, slowFetch, fetchSlowPath, tlbTag, bind, EStateM.bind, get,
        getThe, MonadStateOf.get, EStateM.get, pure, EStateM.pure, missed, translateAddr_apply,
        translated]
  | ok paddr =>
      simp only [fetchParcel, translateInsnAddr, slowFetch, fetchSlowPath, bind, EStateM.bind,
        translateAddr_apply, translated]
      cases found : mmu.bus.addrToMem paddr with
      | none =>
          by_cases allowed : mmu.mmioOk paddr = true
          · cases answer : mmu.bus.mmioLoad paddr 2 m.peripherals with
            | none =>
                simp [tlbTag, bind, EStateM.bind, get, getThe, MonadStateOf.get, EStateM.get, pure,
                  EStateM.pure, missed, mmioLoad_apply, allowed, answer, translateAddr_apply,
                  translated, found]
                rfl
            | some loaded =>
                simp [tlbTag, bind, EStateM.bind, get, getThe, MonadStateOf.get, EStateM.get, pure,
                  EStateM.pure, missed, mmioLoad_apply, allowed, answer, translateAddr_apply,
                  translated, found]
          · simp [tlbTag, bind, EStateM.bind, get, getThe, MonadStateOf.get, EStateM.get, pure,
              EStateM.pure, missed, mmioLoad_apply, allowed, translateAddr_apply, translated, found]
            rfl
      | some host =>
          by_cases checks : mmu.checkTriggers .fetch = true ∧
              mmu.pmpHomogeneous (paddr / pgsize * pgsize) = true
          · cases fires : mmu.triggerMatch .fetch addr (regFromBytes (m.contents.read host.1 host.2 2)) with
            | none =>
                simp [tlbTag, tlbEntry, readHost, bind, EStateM.bind, get, getThe, MonadStateOf.get,
                  EStateM.get, pure, EStateM.pure, missed, translateAddr_apply, translated, found,
                  refillTlb_apply, refilledTlb, refillEntry, (sets paddr).mpr checks, checks,
                  fetchTrigger, fires]
            | some trigger =>
                simp [tlbTag, tlbEntry, readHost, bind, EStateM.bind, get, getThe, MonadStateOf.get,
                  EStateM.get, pure, EStateM.pure, missed, translateAddr_apply, translated, found,
                  refillTlb_apply, refilledTlb, refillEntry, (sets paddr).mpr checks, checks,
                  fetchTrigger, fires]
                rfl
          · simp [tlbTag, readHost, bind, EStateM.bind, get, getThe, MonadStateOf.get, EStateM.get,
              pure, EStateM.pure, missed, translateAddr_apply, translated, found,
              refillTlb_apply, refilledTlb, refillEntry, sets, checks]

theorem slowFetch_error {trap : Trap}
    (translated : mmu.translate .fetch addr 2 m.contents = .error trap) :
    mmu.slowFetch addr m = .error trap m := by
  simp only [slowFetch, bind, EStateM.bind, translateAddr_apply, translated]

theorem slowFetch_memory (translated : mmu.translate .fetch addr 2 m.contents = .ok paddr)
    (found : mmu.bus.addrToMem paddr = some host) :
    mmu.slowFetch addr m =
      (do
        let data := regFromBytes (m.contents.read host.1 host.2 2)
        if mmu.checkTriggers .fetch ∧ mmu.pmpHomogeneous (paddr / pgsize * pgsize) then
          mmu.fetchTrigger addr data
        return data : SimM δ Nat)
      { m with tlb := refilledTlb mmu addr paddr host .fetch m.tlb } := by
  simp only [slowFetch, bind, EStateM.bind, translateAddr_apply, translated, found]
  rfl

theorem slowFetch_other (translated : mmu.translate .fetch addr 2 m.contents = .ok paddr)
    (found : mmu.bus.addrToMem paddr = none) :
    mmu.slowFetch addr m =
      (do
        match ← mmu.mmioLoad paddr 2 with
        | some parcel => return regFromBytes parcel
        | none => throw (.accessFault .fetch addr) : SimM δ Nat) m := by
  simp only [slowFetch, bind, EStateM.bind, translateAddr_apply, translated, found]

theorem same_fetchTrigger (related : Related mmu frozen m d) (addr data : Nat) :
    Same mmu frozen (mmu.fetchTrigger addr data m) (mmu.fetchTrigger addr data d) := by
  rw [fetchTrigger]
  cases mmu.triggerMatch .fetch addr data with
  | none => exact .ok related
  | some trigger => exact .error related

section Agreement

variable (uniform : Uniform mmu frozen) (settled : Settled mmu frozen m.contents)

include uniform settled

theorem same_slowFetch (related : Related mmu frozen m d) (fits : Fits addr 2) :
    Same mmu frozen (mmu.slowFetch addr m) (mmu.slowFetch addr d) := by
  have others := settled.of_core related.core
  cases translated : frozen .fetch addr 2 with
  | error trap =>
      rw [slowFetch_error ((settled _ _ _).trans translated),
        slowFetch_error ((others _ _ _).trans translated)]
      exact .error related
  | ok paddr =>
      have left := (settled _ _ _).trans translated
      have right := (others _ _ _).trans translated
      cases found : mmu.bus.addrToMem paddr with
      | some host =>
          have refilled := same_refill uniform related fits translated found
          rw [slowFetch_memory left found, slowFetch_memory right found, related.core.contents]
          rw [related.core.contents] at refilled
          by_cases checks : mmu.checkTriggers .fetch = true ∧
              mmu.pmpHomogeneous (paddr / pgsize * pgsize) = true
          · simp only [if_pos checks]
            exact Agree.bind (same_fetchTrigger refilled _ _) fun _ _ _ _ _ related => .ok related
          · simp only [if_neg checks]
            exact .ok refilled
      | none =>
          rw [slowFetch_other left found, slowFetch_other right found]
          apply Agree.bind (same_mmioLoad related _ _)
          intro answer s t _ _ related
          cases answer with
          | none => exact .error related
          | some parcel => exact .ok related

/-- A fetch does what its slow path does on the other side. -/
theorem same_fetch_slow (related : Related mmu frozen m d) (fits : Fits addr 2) :
    Same mmu frozen (mmu.fetchParcel addr m) (mmu.slowFetch addr d) := by
  by_cases matched : m.tlb.tag .fetch (addr / pgsize % tlbEntries) = addr / pgsize ∨
      m.tlb.tag .fetch (addr / pgsize % tlbEntries) = addr / pgsize ||| tlbCheckTriggers
  · obtain ⟨tag, page, host, cached⟩ := related.left.of_tag fits.address matched
    have low := Nat.mod_lt addr (show 0 < pgsize by decide)
    have translated := cached.translated rfl fits
    have found := cached.inMemory low
    obtain ⟨memory, offset⟩ := cached.hostOffset_add (rfl : addr / pgsize = _)
    have samePage : (page * pgsize + addr % pgsize) / pgsize = page := by
      rw [Nat.mul_comm, Nat.mul_add_div (by decide), Nat.div_eq_of_lt low, Nat.add_zero]
    have refilled : Related mmu frozen m
        { d with tlb := refilledTlb mmu addr _ _ .fetch d.tlb } :=
      ⟨related.core.other, related.left,
        related.right.refill uniform fits translated found⟩
    rw [slowFetch_memory ((settled.of_core related.core _ _ _).trans translated) found, samePage]
    by_cases plain : m.tlb.tag .fetch (addr / pgsize % tlbEntries) = addr / pgsize
    · have unchecked := unchecked_of_tag fits.address (plain.symm.trans tag)
      rw [fetchParcel_plain plain, memory, offset, related.core.contents]
      simp only [unchecked, Bool.false_eq_true, false_and, if_false]
      exact .ok refilled
    · have checked := matched.resolve_left plain
      have checks : mmu.checkTriggers .fetch = true := by
        by_contra unchecked
        rw [tag, expectedTag, if_neg unchecked] at checked
        exact or_check_ne (vpn_lt fits.address) checked.symm
      rw [fetchParcel_checked (vpn_lt fits.address) checked, memory, offset, related.core.contents]
      simp only [checks, cached.homogeneous, and_self, if_true]
      exact Agree.bind (same_fetchTrigger refilled _ _) fun _ _ _ _ _ related => .ok related
  · rw [fetchParcel_missed related.left fits.address matched]
    exact same_slowFetch uniform settled related fits

omit uniform in
/-- The translation is the one in force on both sides. -/
theorem same_translateAddr (related : Related mmu frozen m d) :
    Same mmu frozen (mmu.translateAddr type addr len m) (mmu.translateAddr type addr len d) := by
  rw [translateAddr_apply, translateAddr_apply, settled, settled.of_core related.core]
  cases frozen type addr len with
  | ok paddr => exact .ok related
  | error trap => exact .error related

omit uniform in
/-- A translation that succeeds is the one in force. -/
theorem frozen_of_translateAddr {s : Machine δ} (translated : mmu.translateAddr type addr len m = .ok paddr s) :
    frozen type addr len = .ok paddr := by
  rw [translateAddr_apply, settled] at translated
  cases inForce : frozen type addr len with
  | ok target =>
      rw [inForce] at translated
      cases translated
      rfl
  | error trap =>
      rw [inForce] at translated
      cases translated

/-- Both sides acquire a reservation alike. -/
theorem same_acquire (related : Related mmu frozen m d) (fits : Fits addr 1) :
    Same mmu frozen (mmu.acquireLoadReservation addr m) (mmu.acquireLoadReservation addr d) := by
  apply Agree.bind (same_translateAddr settled related)
  intro paddr s t left _ related
  have translated := frozen_of_translateAddr settled left
  cases found : mmu.bus.addrToMem paddr with
  | none => exact .error related
  | some host =>
      have refilled := same_refill uniform related fits translated found
      exact .ok ⟨⟨refilled.core.contents, refilled.core.peripherals, refilled.core.matchedTrigger,
        rfl⟩, refilled.left, refilled.right⟩

/-- Both sides find a reservation or not. -/
theorem same_check (related : Related mmu frozen m d) (fits : Fits addr 1) :
    Same mmu frozen (mmu.checkLoadReservation addr size m)
      (mmu.checkLoadReservation addr size d) := by
  rw [checkLoadReservation]
  by_cases misaligned : addr % size ≠ 0
  · simp only [if_pos misaligned]
    exact .error related
  · simp only [if_neg misaligned]
    apply Agree.bind (same_translateAddr settled related)
    intro paddr s t left _ related
    have translated := frozen_of_translateAddr settled left
    cases found : mmu.bus.addrToMem paddr with
    | none => exact .error related
    | some host =>
        have refilled := same_refill uniform related fits translated found
        have answer : Same mmu frozen
            (.ok (decide (s.loadReservation = ((refillEntry addr paddr host).targetOffset + addr).toNat))
              { s with tlb := refilledTlb mmu addr paddr host .store s.tlb })
            (.ok (decide (t.loadReservation = ((refillEntry addr paddr host).targetOffset + addr).toNat))
              { t with tlb := refilledTlb mmu addr paddr host .store t.tlb }) := by
          rw [related.core.loadReservation]
          rw [related.core.loadReservation] at refilled
          exact .ok refilled
        exact answer

end Agreement

end Mmu

end Difftest.Spike
