import Difftest.Data.Lockstep
import Difftest.Spike.Mmu

/-!
# The TLB is transparent

While the translation does not change, a tag that is set promises that the whole page
translates to one page of one memory, and the entry leads there.  Refilling keeps that
promise for all three tags, although they share one entry, because the accesses of a page
agree on its physical page.  So an aligned access that hits does what the slow path does,
and in a run of aligned accesses it does not show where the TLB was flushed.
-/

namespace Difftest.Spike

namespace Mmu

variable {δ : Type}

/-! ## Pages -/

/-- An aligned access of one, two, four or eight bytes. -/
structure Fits (addr len : Nat) : Prop where
  address : addr < 2 ^ 64
  size : len = 1 ∨ len = 2 ∨ len = 4 ∨ len = 8
  aligned : len ∣ addr

/-- The translation in force between two flushes. -/
abbrev Translation := AccessType → (addr len : Nat) → Except Trap Nat

/-- What is asked of the translation in force: it moves whole pages, all accesses to a page
reach the same physical page, and in a homogeneous page they are all permitted or all not.
A trigger fires only where the port checks triggers. -/
structure Uniform (mmu : Mmu δ) (frozen : Translation) : Prop where
  paged : mmu.bus.Paged
  offset : ∀ {type addr len paddr}, frozen type addr len = .ok paddr →
    paddr % pgsize = addr % pgsize
  samePage : ∀ {type addr len paddr type' addr' len' paddr'}, addr / pgsize = addr' / pgsize →
    frozen type addr len = .ok paddr → frozen type' addr' len' = .ok paddr' →
      paddr / pgsize = paddr' / pgsize
  permitted : ∀ {type addr len paddr}, frozen type addr len = .ok paddr → Fits addr len →
    mmu.pmpHomogeneous (paddr / pgsize * pgsize) = true →
      ∀ {addr' len'}, addr' / pgsize = addr / pgsize → Fits addr' len' →
        ∃ paddr', frozen type addr' len' = .ok paddr'
  quiet : ∀ {type}, mmu.checkTriggers type = false → ∀ addr data, mmu.triggerMatch type addr data = none

/-- The translation in force is that of the contents of the memories. -/
def Settled (mmu : Mmu δ) (frozen : Translation) (contents : Contents) : Prop :=
  ∀ type addr len, mmu.translate type addr len contents = frozen type addr len

theorem Fits.inPage {addr len : Nat} (fits : Fits addr len) :
    addr % pgsize + len ≤ pgsize := by
  obtain ⟨_, rfl | rfl | rfl | rfl, blocks, rfl⟩ := fits
  all_goals
    rw [pgsize]
    omega

theorem shiftRight_pgshift (addr : Nat) : addr >>> pgshift = addr / pgsize := by
  rw [Nat.shiftRight_eq_div_pow, pgsize, pgshift]

theorem vpn_lt {addr : Nat} (address : addr < 2 ^ 64) : addr / pgsize < 2 ^ 52 := by
  rw [Nat.div_lt_iff_lt_mul (by decide), pgsize]
  omega

/-! ## Tags -/

section Tags

variable {vpn : Nat}

theorem ldiff_check (small : vpn < 2 ^ 52) : Nat.ldiff vpn tlbCheckTriggers = vpn := by
  apply Nat.eq_of_testBit_eq
  intro i
  rw [Nat.testBit_ldiff, tlbCheckTriggers, Nat.testBit_two_pow]
  by_cases top : 63 = i
  · subst top
    rw [Nat.testBit_lt_two_pow (small.trans (by decide)), Bool.false_and]
  · simp [top]

theorem ldiff_or_check (small : vpn < 2 ^ 52) :
    Nat.ldiff (vpn ||| tlbCheckTriggers) tlbCheckTriggers = vpn := by
  apply Nat.eq_of_testBit_eq
  intro i
  rw [Nat.testBit_ldiff, Nat.testBit_or, tlbCheckTriggers, Nat.testBit_two_pow]
  by_cases top : 63 = i
  · subst top
    rw [Nat.testBit_lt_two_pow (small.trans (by decide))]
    simp
  · simp [top]

theorem or_check_ne (small : vpn < 2 ^ 52) : vpn ||| tlbCheckTriggers ≠ vpn := by
  intro same
  have top : (vpn ||| tlbCheckTriggers).testBit 63 = vpn.testBit 63 := by rw [same]
  rw [Nat.testBit_or, tlbCheckTriggers, Nat.testBit_two_pow_self, Bool.or_true,
    Nat.testBit_lt_two_pow (small.trans (show 2 ^ 52 < 2 ^ 63 by decide))] at top
  cases top

/-- A flushed tag belongs to no page. -/
theorem ldiff_allOnes_ne (small : vpn < 2 ^ 52) : Nat.ldiff allOnes tlbCheckTriggers ≠ vpn := by
  intro same
  have bit := congrArg (fun tag => tag.testBit 52) same
  simp only [Nat.testBit_ldiff, allOnes, Nat.testBit_two_pow_sub_one, tlbCheckTriggers,
    Nat.testBit_two_pow, Nat.testBit_lt_two_pow small] at bit
  simp at bit

theorem ldiff_expectedTag (mmu : Mmu δ) (type : AccessType) (small : vpn < 2 ^ 52) :
    Nat.ldiff (mmu.expectedTag type vpn) tlbCheckTriggers = vpn := by
  rw [expectedTag]
  split
  · exact ldiff_or_check small
  · exact ldiff_check small

end Tags

/-! ## Coherence -/

/-- The tag of this type for this page is set. -/
def Held (tlb : Tlb) (type : AccessType) (vpn : Nat) : Prop :=
  Nat.ldiff (tlb.tag type (vpn % tlbEntries)) tlbCheckTriggers = vpn

/-- The page translates to a physical page in a memory, and the entry leads there. -/
structure Cached (mmu : Mmu δ) (frozen : Translation) (type : AccessType) (vpn page : Nat)
    (host : HostAddr) (entry : TlbEntry) : Prop where
  translated : ∀ {addr len}, addr / pgsize = vpn → Fits addr len →
    frozen type addr len = .ok (page * pgsize + addr % pgsize)
  inMemory : ∀ {low}, low < pgsize →
    mmu.bus.addrToMem (page * pgsize + low) = some (host.1, host.2 + low)
  leads : entry = refillEntry (vpn * pgsize) (page * pgsize) host
  homogeneous : mmu.pmpHomogeneous (page * pgsize) = true

/-- Every tag that is set keeps its promise. -/
def Coherent (mmu : Mmu δ) (frozen : Translation) (tlb : Tlb) : Prop :=
  ∀ type vpn, vpn < 2 ^ 52 → Held tlb type vpn →
    tlb.tag type (vpn % tlbEntries) = mmu.expectedTag type vpn ∧
      ∃ page host, Cached mmu frozen type vpn page host (tlb.data (vpn % tlbEntries))

theorem coherent_flush (mmu : Mmu δ) (frozen : Translation) (tlb : Tlb) :
    Coherent mmu frozen tlb.flush :=
  fun _ _ small held => absurd held (ldiff_allOnes_ne small)

/-- The entry does not depend on the address in the page that was accessed. -/
theorem refillEntry_page {vaddr paddr number offset : Nat} (low : vaddr % pgsize ≤ offset)
    (same : paddr % pgsize = vaddr % pgsize) :
    refillEntry vaddr paddr (number, offset) =
      refillEntry (vaddr / pgsize * pgsize) (paddr / pgsize * pgsize)
        (number, offset - vaddr % pgsize) := by
  have vsplit := Nat.div_add_mod' vaddr pgsize
  have psplit := Nat.div_add_mod' paddr pgsize
  rw [refillEntry, refillEntry, TlbEntry.mk.injEq]
  refine ⟨rfl, ?_, ?_⟩
  · dsimp only
    omega
  · omega

/-- The TLB after `refill_tlb`. -/
def refilledTlb (mmu : Mmu δ) (vaddr paddr : Nat) (host : HostAddr) (type : AccessType)
    (tlb : Tlb) : Tlb where
  tag := fun other i =>
    if i = (vaddr >>> pgshift) % tlbEntries then mmu.refillTag vaddr paddr type tlb other
    else tlb.tag other i
  data := fun i =>
    if i = (vaddr >>> pgshift) % tlbEntries then refillEntry vaddr paddr host else tlb.data i

/-- Refilling keeps the promises of all types. -/
theorem Coherent.refill {mmu : Mmu δ} {frozen : Translation} (uniform : Uniform mmu frozen)
    {tlb : Tlb} (coherent : Coherent mmu frozen tlb) {type : AccessType} {addr len paddr : Nat}
    {host : HostAddr} (fits : Fits addr len) (translated : frozen type addr len = .ok paddr)
    (found : mmu.bus.addrToMem paddr = some host) :
    Coherent mmu frozen (refilledTlb mmu addr paddr host type tlb) := by
  obtain ⟨number, offset⟩ := host
  have small := vpn_lt fits.address
  have sameLow := uniform.offset translated
  obtain ⟨lowLe, page⟩ := uniform.paged.addrToMem_page found
  rw [sameLow] at lowLe
  have inMemory : ∀ low, low < pgsize → mmu.bus.addrToMem (paddr / pgsize * pgsize + low) =
      some (number, offset - addr % pgsize + low) := by
    intro low below
    have inPage : (paddr / pgsize * pgsize + low) / pgsize = paddr / pgsize := by
      rw [Nat.mul_comm, Nat.mul_add_div (by decide), Nat.div_eq_of_lt below, Nat.add_zero]
    have lowPart : (paddr / pgsize * pgsize + low) % pgsize = low := by
      rw [Nat.mul_comm, Nat.mul_add_mod, Nat.mod_eq_of_lt below]
    have there := page _ inPage
    rwa [lowPart, sameLow] at there
  have leads := @refillEntry_page addr paddr number offset lowLe sameLow
  intro other vpn vpnSmall held
  by_cases index : vpn % tlbEntries = (addr >>> pgshift) % tlbEntries
  · simp only [Held, refilledTlb, if_pos index] at held ⊢
    rw [refillTag, shiftRight_pgshift] at *
    by_cases fresh : other = type ∧ mmu.pmpHomogeneous (paddr / pgsize * pgsize) = true
    · obtain ⟨rfl, homogeneous⟩ := fresh
      simp only [homogeneous, and_self, if_true] at held ⊢
      rw [ldiff_expectedTag mmu other small] at held
      subst held
      refine ⟨rfl, paddr / pgsize, (number, offset - addr % pgsize), ?_, inMemory _, leads,
        homogeneous⟩
      intro addr' len' samePage fits'
      obtain ⟨paddr', translated'⟩ := uniform.permitted translated fits homogeneous samePage fits'
      have sameTarget := uniform.samePage samePage translated' translated
      have sameOffset := uniform.offset translated'
      rw [translated', ← sameTarget, ← sameOffset, Nat.div_add_mod']
    · simp only [if_neg fresh] at held ⊢
      by_cases kept : Nat.ldiff (tlb.tag other (addr / pgsize % tlbEntries)) tlbCheckTriggers =
          addr / pgsize
      · simp only [kept, ne_eq, not_true_eq_false, if_false] at held ⊢
        subst held
        obtain ⟨tag, oldPage, oldHost, cached⟩ := coherent other (addr / pgsize) small kept
        have aligned : Fits addr 1 := ⟨fits.address, Or.inl rfl, one_dvd addr⟩
        have sameTarget := uniform.samePage rfl (cached.translated rfl aligned) translated
        rw [Nat.mul_comm, Nat.mul_add_div (by decide),
          Nat.div_eq_of_lt (Nat.mod_lt _ (by decide)), Nat.add_zero] at sameTarget
        subst sameTarget
        exact ⟨tag, paddr / pgsize, (number, offset - addr % pgsize), cached.translated,
          inMemory _, leads, cached.homogeneous⟩
      · simp only [kept, ne_eq, not_false_eq_true, if_true] at held
        exact absurd held (ldiff_allOnes_ne vpnSmall)
  · simp only [Held, refilledTlb, if_neg index] at held ⊢
    exact coherent other vpn vpnSmall held

end Mmu

end Difftest.Spike
