import Difftest.Spike.Pmp

/-!
# Address translation

A processor translates an address by walking its page table, which lies in memory, and asks
the physical memory protection about the result.  The walk looks at the page number alone,
and the accesses of one mode that succeed reach the same page, so between two flushes the
translation is uniform as long as instructions and data are accessed in the same mode.
-/

namespace Difftest.Spike

/-! ## The processor -/

/-- `mcontrol_t`; `hits` is the comparison of the address or the data with `tdata2`. -/
structure Mcontrol where
  enabled : AccessType → Bool
  modes : Privilege → Bool
  chain : Bool
  timing : Nat
  hits : (addr data : Nat) → Bool

/-- The state of a processor that its accesses depend on. -/
structure Processor where
  xlen : Nat
  maxXlen : Nat
  prv : Privilege
  debugMode : Bool
  mprv : Bool
  mpp : Privilege
  sum : Bool
  mxr : Bool
  satp : Nat
  pmp : Pmp
  mcontrol : List Mcontrol
  /-- A register has 32 or 64 bits. -/
  isXlen : xlen = 32 ∨ xlen = 64

/-- `vm_info`, for the first stage. -/
structure VmInfo where
  levels : Nat
  idxbits : Nat
  ptesize : Nat
  ptbase : Nat
deriving DecidableEq, Repr

namespace Processor

/-- `SATP32_PPN`. -/
def satp32Ppn : Nat := 0x003FFFFF

/-- `SATP64_PPN`. -/
def satp64Ppn : Nat := 0x00000FFFFFFFFFFF

/-- `decode_vm_info`; nothing is an `abort`. -/
def decodeVmInfo (maxXlen : Nat) (prv : Privilege) (satp : Nat) : Option VmInfo :=
  let off : VmInfo := { levels := 0, idxbits := 0, ptesize := 0, ptbase := 0 }
  if prv = .machine then some off
  else if maxXlen = 32 then
    match satp / 2 ^ 31 % 2 with
    | 0 => some off
    | _ => some { levels := 2, idxbits := 10, ptesize := 4
                  ptbase := (satp &&& satp32Ppn) <<< pgshift }
  else
    let table (levels : Nat) : VmInfo :=
      { levels, idxbits := 9, ptesize := 8, ptbase := (satp &&& satp64Ppn) <<< pgshift }
    match satp / 2 ^ 60 % 16 with
    | 0 => some off
    | 8 => some (table 3)
    | 9 => some (table 4)
    | 10 => some (table 5)
    | 11 => some (table 6)
    | _ => none

/-! ## Page table entries -/

/-- `PTE_V`. -/
def pteV : Nat := 0x001

/-- `PTE_R`. -/
def pteR : Nat := 0x002

/-- `PTE_W`. -/
def pteW : Nat := 0x004

/-- `PTE_X`. -/
def pteX : Nat := 0x008

/-- `PTE_U`. -/
def pteU : Nat := 0x010

/-- `PTE_A`. -/
def pteA : Nat := 0x040

/-- `PTE_D`. -/
def pteD : Nat := 0x080

/-- `PTE_PPN_SHIFT`. -/
def ptePpnShift : Nat := 10

/-- A bit of an entry. -/
def has (pte bit : Nat) : Bool := pte &&& bit != 0

/-- `PTE_TABLE`. -/
def pteTable (pte : Nat) : Bool := pte &&& (pteV ||| pteR ||| pteW ||| pteX) == pteV

/-- May this mode not use the page? -/
def wrongMode (proc : Processor) (type : AccessType) (mode : Privilege) (pte : Nat) : Bool :=
  if has pte pteU then mode = .supervisor && (type = .fetch || !proc.sum)
  else !(mode = .supervisor)

/-- Does the page not permit this type of access? -/
def wrongType (proc : Processor) (type : AccessType) (pte : Nat) : Bool :=
  match type with
  | .fetch => !has pte pteX
  | .load => !has pte pteR && !(proc.mxr && has pte pteX)
  | .store => !(has pte pteR && has pte pteW)

/-- The bits that a leaf must have for the access. -/
def adBits (type : AccessType) : Nat := pteA ||| if type = .store then pteD else 0

/-! ## The walk -/

section Walk

variable {δ : Type}

/-- The loop of `mmu_t::walk` over the levels that are left. -/
def walkFrom (proc : Processor) (bus : Bus δ) (contents : Contents) (vm : VmInfo)
    (type : AccessType) (mode : Privilege) (addr : Nat) :
    (level : Nat) → (base : Nat) → Except Trap Nat
  | 0, _ => .error (.pageFault type addr)
  | level + 1, base =>
      let ptshift := level * vm.idxbits
      let idx := (addr >>> (pgshift + ptshift)) &&& (1 <<< vm.idxbits - 1)
      let ptePaddr := (base + idx * vm.ptesize) % 2 ^ 64
      match bus.addrToMem ptePaddr with
      | none => .error (.accessFault type addr)
      | some ppte =>
          if !proc.pmp.pmpOk ptePaddr vm.ptesize .load .supervisor then
            .error (.accessFault type addr)
          else
            let pte := regFromBytes (contents.read ppte.1 ppte.2 vm.ptesize)
            let ppn := pte >>> ptePpnShift
            if pteTable pte then
              walkFrom proc bus contents vm type mode addr level ((ppn <<< pgshift) % 2 ^ 64)
            else if proc.wrongMode type mode pte then .error (.pageFault type addr)
            else if !has pte pteV || (!has pte pteR && has pte pteW) then
              .error (.pageFault type addr)
            else if proc.wrongType type pte then .error (.pageFault type addr)
            else if ppn &&& (1 <<< ptshift - 1) ≠ 0 then .error (.pageFault type addr)
            else if pte &&& adBits type ≠ adBits type then .error (.pageFault type addr)
            else
              let vpn := addr >>> pgshift
              .ok (((ppn ||| (vpn &&& (1 <<< ptshift - 1))) <<< pgshift) % 2 ^ 64)

/-- `mmu_t::walk`. -/
def walk (proc : Processor) (bus : Bus δ) (contents : Contents) (type : AccessType)
    (mode : Privilege) (addr : Nat) : Except Trap Nat :=
  match decodeVmInfo proc.maxXlen mode proc.satp with
  | none => .error .aborted
  | some vm =>
      if vm.levels = 0 then .ok (addr % 2 ^ proc.xlen / pgsize * pgsize)
      else
        let vaBits := pgshift + vm.levels * vm.idxbits
        let mask := 1 <<< (proc.xlen - (vaBits - 1)) - 1
        let maskedMsbs := (addr >>> (vaBits - 1)) &&& mask
        let levels := if maskedMsbs ≠ 0 ∧ maskedMsbs ≠ mask then 0 else vm.levels
        proc.walkFrom bus contents vm type mode addr levels vm.ptbase

/-- `mode` in `mmu_t::translate`. -/
def accessMode (proc : Processor) (type : AccessType) : Privilege :=
  if type ≠ .fetch ∧ proc.debugMode = false ∧ proc.mprv = true then proc.mpp else proc.prv

/-- `mmu_t::translate`. -/
def translate (proc : Processor) (bus : Bus δ) (type : AccessType) (addr len : Nat)
    (contents : Contents) : Except Trap Nat := do
  let mode := proc.accessMode type
  let page ← proc.walk bus contents type mode addr
  let paddr := page ||| addr % pgsize
  if !proc.pmp.pmpOk paddr len type mode then throw (.accessFault type addr)
  return paddr

/-! ## Triggers -/

/-- `processor_t::trigger_match`. -/
def triggerMatch (proc : Processor) (type : AccessType) (addr data : Nat) : Option Trigger :=
  if proc.debugMode then none
  else
    (proc.mcontrol.zipIdx.find? fun trigger =>
        trigger.1.enabled type && trigger.1.modes proc.prv && trigger.1.hits addr data &&
          !trigger.1.chain).map
      fun trigger => { index := trigger.2, timing := trigger.1.timing }

/-- The flags that `processor_t::trigger_updated` sets. -/
def checkTriggers (proc : Processor) (type : AccessType) : Bool :=
  proc.mcontrol.any fun mcontrol => mcontrol.enabled type

/-- `DEBUG_END`. -/
def debugEnd : Nat := 0x1000 - 1

/-- The port of a processor. -/
def mmu (proc : Processor) (bus : Bus δ) : Mmu δ where
  bus
  translate := proc.translate bus
  pmpHomogeneous := fun addr => proc.pmp.pmpHomogeneous addr pgsize
  mmioOk := fun addr => !(decide (addr ≤ debugEnd) && !proc.debugMode)
  checkTriggers := proc.checkTriggers
  triggerMatch := proc.triggerMatch

end Walk

/-! ## Uniformity -/

section Uniform

variable {δ : Type} {proc : Processor} {bus : Bus δ} {contents : Contents} {vm : VmInfo}
  {type type' : AccessType} {mode : Privilege} {addr addr' page page' paddr paddr' len len' : Nat}

theorem shiftRight_of_page (samePage : addr / pgsize = addr' / pgsize) (shift : Nat) :
    addr >>> (pgshift + shift) = addr' >>> (pgshift + shift) := by
  rw [Nat.shiftRight_add, Nat.shiftRight_add, Mmu.shiftRight_pgshift, Mmu.shiftRight_pgshift,
    samePage]

theorem mod_pgsize_shiftLeft (ppn : Nat) : (ppn <<< pgshift) % 2 ^ 64 % pgsize = 0 := by
  rw [Nat.shiftLeft_eq, pgshift, pgsize, Nat.mod_mod_of_dvd _ (by decide), Nat.mul_mod_left]

/-- The walk depends on the page number, and the type decides only whether it succeeds. -/
theorem walkFrom_page (samePage : addr / pgsize = addr' / pgsize) {level base : Nat}
    (walked : proc.walkFrom bus contents vm type mode addr level base = .ok page) :
    page % pgsize = 0 ∧ page < 2 ^ 64 ∧
      proc.walkFrom bus contents vm type mode addr' level base = .ok page ∧
      ∀ page', proc.walkFrom bus contents vm type' mode addr' level base = .ok page' →
        page' = page := by
  induction level generalizing base with
  | zero => cases walked
  | succ level inductionHypothesis =>
      have vpn := shiftRight_of_page samePage 0
      rw [Nat.add_zero] at vpn
      rw [walkFrom] at walked ⊢
      simp only [walkFrom, ← shiftRight_of_page samePage (level * vm.idxbits), ← vpn] at walked ⊢
      cases found : bus.addrToMem ((base + (addr >>> (pgshift + level * vm.idxbits) &&&
          1 <<< vm.idxbits - 1) * vm.ptesize) % 2 ^ 64) with
      | none =>
          rw [found] at walked
          cases walked
      | some ppte =>
          simp only [found] at walked ⊢
          split at walked
          · cases walked
          · rename_i allowed
            simp only [if_neg allowed]
            split at walked
            · rename_i isTable
              simp only [if_pos isTable]
              exact inductionHypothesis walked
            · rename_i isLeaf
              simp only [if_neg isLeaf]
              split at walked
              · cases walked
              split at walked
              · cases walked
              split at walked
              · cases walked
              split at walked
              · cases walked
              split at walked
              · cases walked
              rename_i mode' valid type'' whole dirty
              cases walked
              refine ⟨mod_pgsize_shiftLeft _, Nat.mod_lt _ (by decide), ?_, ?_⟩
              · simp only [if_neg mode', if_neg valid, if_neg type'', if_neg whole, if_neg dirty]
              · intro page' other
                split at other
                · cases other
                split at other
                · cases other
                split at other
                · cases other
                cases other
                rfl

theorem mod_two_pow_page (samePage : addr / pgsize = addr' / pgsize) {bits : Nat} (wide : 12 ≤ bits) :
    addr % 2 ^ bits / pgsize = addr' % 2 ^ bits / pgsize := by
  obtain ⟨high, rfl⟩ := Nat.exists_eq_add_of_le wide
  rw [pgsize] at *
  rw [Nat.pow_add, Nat.mod_mul_right_div_self, Nat.mod_mul_right_div_self, samePage]

/-- A page table has indices. -/
theorem idxbits_pos {maxXlen satp : Nat} (decoded : decodeVmInfo maxXlen mode satp = some vm)
    (table : vm.levels ≠ 0) : 0 < vm.idxbits := by
  rw [decodeVmInfo] at decoded
  split at decoded
  · cases decoded
    exact absurd rfl table
  · split at decoded
    · split at decoded
      · cases decoded
        exact absurd rfl table
      · cases decoded
        exact Nat.succ_pos _
    · split at decoded
      · cases decoded
        exact absurd rfl table
      · cases decoded
        exact Nat.succ_pos _
      · cases decoded
        exact Nat.succ_pos _
      · cases decoded
        exact Nat.succ_pos _
      · cases decoded
        exact Nat.succ_pos _
      · cases decoded

/-- The walk as a whole depends on the page number in the same way. -/
theorem walk_page (samePage : addr / pgsize = addr' / pgsize)
    (walked : proc.walk bus contents type mode addr = .ok page) :
    page % pgsize = 0 ∧ page < 2 ^ 64 ∧ proc.walk bus contents type mode addr' = .ok page ∧
      ∀ page', proc.walk bus contents type' mode addr' = .ok page' → page' = page := by
  have wide : 12 ≤ proc.xlen := by
    rcases proc.isXlen with narrow | long
    · omega
    · omega
  have narrow : 2 ^ proc.xlen ≤ 2 ^ 64 := by
    apply Nat.pow_le_pow_right (by decide)
    rcases proc.isXlen with narrow | long
    · omega
    · omega
  rw [walk] at walked ⊢
  simp only [walk]
  cases decoded : decodeVmInfo proc.maxXlen mode proc.satp with
  | none =>
      rw [decoded] at walked
      cases walked
  | some vm =>
      simp only [decoded] at walked ⊢
      by_cases bare : vm.levels = 0
      · simp only [if_pos bare] at walked ⊢
        cases walked
        rw [mod_two_pow_page samePage wide]
        refine ⟨Nat.mul_mod_left _ _, ?_, rfl, ?_⟩
        · exact (Nat.div_mul_le_self _ _).trans_lt
            ((Nat.mod_lt _ (Nat.two_pow_pos _)).trans_le narrow)
        · rintro page' ⟨⟩
          rfl
      · simp only [if_neg bare] at walked ⊢
        have pages : 0 < vm.levels * vm.idxbits :=
          Nat.mul_pos (Nat.pos_of_ne_zero bare) (idxbits_pos decoded bare)
        obtain ⟨shift, split⟩ : ∃ shift, pgshift + vm.levels * vm.idxbits - 1 = pgshift + shift :=
          ⟨vm.levels * vm.idxbits - 1, by omega⟩
        rw [split, ← shiftRight_of_page samePage shift]
        rw [split] at walked
        exact walkFrom_page samePage walked

theorem page_or_offset (aligned : page % pgsize = 0) (addr : Nat) :
    page ||| addr % pgsize = page + addr % pgsize := by
  obtain ⟨index, rfl⟩ := Nat.dvd_of_mod_eq_zero aligned
  rw [pgsize, Nat.two_pow_add_eq_or_of_lt (Nat.mod_lt addr (by decide))]

/-- A translation that succeeds is a walk that succeeds and is permitted. -/
theorem translate_eq_ok_iff : proc.translate bus type addr len contents = .ok paddr ↔
    ∃ page, proc.walk bus contents type (proc.accessMode type) addr = .ok page ∧
      proc.pmp.pmpOk (page ||| addr % pgsize) len type (proc.accessMode type) = true ∧
        paddr = page ||| addr % pgsize := by
  rw [translate]
  cases walked : proc.walk bus contents type (proc.accessMode type) addr with
  | error trap =>
      simp only [reduceCtorEq, false_and, exists_false, iff_false]
      intro translated
      cases translated
  | ok page =>
      change (if _ then throw _ else pure _) = _ ↔ _
      cases allowed : proc.pmp.pmpOk (page ||| addr % pgsize) len type (proc.accessMode type) with
      | false =>
          simp only [Bool.not_false, if_true, Except.ok.injEq, exists_eq_left', allowed,
            Bool.false_eq_true, false_and, iff_false]
          intro translated
          cases translated
      | true =>
          simp only [Bool.not_true, Bool.false_eq_true, if_false, Except.ok.injEq, exists_eq_left',
            allowed, true_and]
          constructor
          · rintro ⟨⟩
            rfl
          · rintro rfl
            rfl

/-- Without triggers that are enabled for an access none matches it. -/
theorem triggerMatch_quiet (unchecked : proc.checkTriggers type = false) (addr data : Nat) :
    proc.triggerMatch type addr data = none := by
  rw [triggerMatch]
  split
  · rfl
  · rw [Option.map_eq_none_iff, List.find?_eq_none]
    intro trigger mem matched
    rw [checkTriggers, List.any_eq_false] at unchecked
    have member := List.fst_mem_of_mem_zipIdx mem
    simp only [Bool.and_eq_true] at matched
    exact unchecked _ member matched.1.1.1

/-- Instructions and data are accessed in the same mode. -/
def OneMode (proc : Processor) : Prop :=
  proc.debugMode = true ∨ proc.mprv = false ∨ proc.mpp = proc.prv

theorem OneMode.accessMode_eq (oneMode : proc.OneMode) (type : AccessType) :
    proc.accessMode type = proc.prv := by
  rw [accessMode]
  split
  · rename_i loaded
    rcases oneMode with debugging | plain | same
    · rw [loaded.2.1] at debugging
      cases debugging
    · rw [loaded.2.2] at plain
      cases plain
    · exact same
  · rfl

/-- The translation of a processor that uses one mode is uniform. -/
theorem uniform_translate (paged : bus.Paged) (oneMode : proc.OneMode) (contents : Contents) :
    (proc.mmu bus).Uniform fun type addr len => proc.translate bus type addr len contents := by
  constructor
  · exact paged
  · intro type addr len paddr translated
    obtain ⟨page, walked, _, rfl⟩ := translate_eq_ok_iff.mp translated
    obtain ⟨aligned, _, _⟩ := @walk_page _ _ _ _ _ type _ _ addr _ rfl walked
    rw [page_or_offset aligned, Nat.add_mod, aligned, Nat.zero_add, Nat.mod_mod, Nat.mod_mod]
  · intro type addr len paddr type' addr' len' paddr' samePage translated translated'
    obtain ⟨page, walked, _, rfl⟩ := translate_eq_ok_iff.mp translated
    obtain ⟨page', walked', _, rfl⟩ := translate_eq_ok_iff.mp translated'
    rw [oneMode.accessMode_eq] at walked walked'
    obtain ⟨aligned, _, _, only⟩ := walk_page samePage walked
    have same := only page' walked'
    subst same
    obtain ⟨index, rfl⟩ := Nat.dvd_of_mod_eq_zero aligned
    rw [page_or_offset aligned, page_or_offset aligned, Nat.mul_add_div (by decide),
      Nat.mul_add_div (by decide), Nat.div_eq_of_lt (Nat.mod_lt _ (by decide)),
      Nat.div_eq_of_lt (Nat.mod_lt _ (by decide))]
  · intro type addr len paddr translated fits homogeneous addr' len' samePage fits'
    obtain ⟨page, walked, allowed, rfl⟩ := translate_eq_ok_iff.mp translated
    obtain ⟨aligned, pageFits, walked', _⟩ := @walk_page _ _ _ _ _ type _ _ _ _ samePage.symm walked
    have physical : ∀ {addr len}, Mmu.Fits addr len → Mmu.Fits (page ||| addr % pgsize) len ∧
        (page ||| addr % pgsize) / pgsize = page / pgsize := by
      intro addr len fits
      obtain ⟨index, rfl⟩ := Nat.dvd_of_mod_eq_zero aligned
      have low := Nat.mod_lt addr (show 0 < pgsize by decide)
      rw [page_or_offset aligned]
      refine ⟨⟨?_, fits.size, ?_⟩, ?_⟩
      · rw [pgsize] at *
        omega
      · have whole : len ∣ pgsize := by
          rcases fits.size with rfl | rfl | rfl | rfl
          all_goals decide
        exact Nat.dvd_add (whole.mul_right index) ((Nat.dvd_mod_iff whole).mpr fits.aligned)
      · rw [Nat.mul_add_div (by decide), Nat.mul_div_cancel_left _ (by decide),
          Nat.div_eq_of_lt low, Nat.add_zero]
    have decided := Pmp.pmpOk_page type (proc.accessMode type) (physical fits).1 (physical fits').1
      ((physical fits').2.trans (physical fits).2.symm) homogeneous
    exact ⟨_, translate_eq_ok_iff.mpr ⟨page, walked', decided.trans allowed, rfl⟩⟩
  · intro type unchecked addr data
    exact triggerMatch_quiet unchecked addr data

end Uniform

end Processor

end Difftest.Spike
