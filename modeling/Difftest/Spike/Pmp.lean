import Difftest.Data.Masks
import Difftest.Spike.Tlb

/-!
# Physical memory protection

An access is decided by the first active entry that matches one of its sectors.  A page is
homogeneous when every active entry provably matches all of it or nothing of it, which is
tested without going through its sectors; then all accesses to the page that are of one
type and mode are decided alike.
-/

namespace Difftest.Spike

/-- `PRV_U`, `PRV_S` and `PRV_M`. -/
inductive Privilege
  | user
  | supervisor
  | machine
deriving DecidableEq, Repr

/-- `pmpcfg[i]` and `pmpaddr[i]`. -/
structure PmpEntry where
  cfg : Nat
  addr : Nat
deriving DecidableEq, Repr

/-- `lg_pmp_granularity` and the first `n_pmp` entries. -/
structure Pmp where
  lgGranularity : Nat
  entries : List PmpEntry
deriving DecidableEq, Repr

namespace Pmp

/-- `PMP_R`. -/
def pmpR : Nat := 0x01

/-- `PMP_W`. -/
def pmpW : Nat := 0x02

/-- `PMP_X`. -/
def pmpX : Nat := 0x04

/-- `PMP_A`. -/
def pmpA : Nat := 0x18

/-- `PMP_L`. -/
def pmpL : Nat := 0x80

/-- `PMP_TOR`. -/
def pmpTor : Nat := 0x08

/-- `PMP_NA4`. -/
def pmpNa4 : Nat := 0x10

/-- `PMP_SHIFT`. -/
def pmpShift : Nat := 2

/-- `processor_t::pmp_tor_mask`. -/
def pmpTorMask (pmp : Pmp) : Nat :=
  (2 ^ 64 - (1 <<< (pmp.lgGranularity - pmpShift)) % 2 ^ 64) % 2 ^ 64

/-- `tor`: the top of the range of an entry, or its address. -/
def tor (pmp : Pmp) (entry : PmpEntry) : Nat :=
  ((entry.addr &&& pmp.pmpTorMask) <<< pmpShift) % 2 ^ 64

/-- `mask`, from the trailing ones of the address. -/
def napotMask (pmp : Pmp) (entry : PmpEntry) : Nat :=
  let isNa4 := entry.cfg &&& pmpA = pmpNa4
  let mask := (entry.addr <<< 1) % 2 ^ 64 ||| (if isNa4 then 0 else 1) ||| not64 pmp.pmpTorMask
  (not64 (mask &&& not64 ((mask + 1) % 2 ^ 64)) <<< pmpShift) % 2 ^ 64

/-- Does the entry match the sector at an address? -/
def matchesAt (pmp : Pmp) (entry : PmpEntry) (base curAddr : Nat) : Bool :=
  if entry.cfg &&& pmpA = pmpTor then decide (base ≤ curAddr ∧ curAddr < pmp.tor entry)
  else (curAddr ^^^ pmp.tor entry) &&& pmp.napotMask entry == 0

/-- What an entry that matches allows. -/
def allows (entry : PmpEntry) (type : AccessType) (mode : Privilege) : Bool :=
  (mode = .machine && entry.cfg &&& pmpL == 0) ||
    (type = .load && entry.cfg &&& pmpR != 0) ||
    (type = .store && entry.cfg &&& pmpW != 0) ||
    (type = .fetch && entry.cfg &&& pmpX != 0)

/-- The addresses of the sectors of an access. -/
def sectors (addr len : Nat) : List Nat :=
  (List.range ((len + 3) / 4)).map fun i => (addr + 4 * i) % 2 ^ 64

/-- The loop of `pmp_ok`, from the top of the entry before. -/
def okFrom (pmp : Pmp) (addr len : Nat) (type : AccessType) (mode : Privilege) :
    (base : Nat) → List PmpEntry → Bool
  | _, [] => mode = .machine
  | base, entry :: rest =>
      if entry.cfg &&& pmpA ≠ 0 then
        let anyMatch := (sectors addr len).any (pmp.matchesAt entry base)
        let allMatch := (sectors addr len).all (pmp.matchesAt entry base)
        if anyMatch then
          if !allMatch then false else allows entry type mode
        else okFrom pmp addr len type mode (pmp.tor entry) rest
      else okFrom pmp addr len type mode (pmp.tor entry) rest

/-- `mmu_t::pmp_ok`. -/
def pmpOk (pmp : Pmp) (addr len : Nat) (type : AccessType) (mode : Privilege) : Bool :=
  if pmp.entries.length = 0 then true else pmp.okFrom addr len type mode 0 pmp.entries

/-- `x & -len`, for a power of two. -/
def floorTo (len x : Nat) : Nat := x &&& (2 ^ 64 - len)

/-- Is the range provably inside or outside of an entry? -/
def entryHomogeneous (pmp : Pmp) (addr len base : Nat) (entry : PmpEntry) : Bool :=
  let tor := pmp.tor entry
  let beginsAfterLower := decide (addr ≥ base)
  let beginsAfterUpper := decide (addr ≥ tor)
  let endsBeforeLower := decide (floorTo len addr < floorTo len base)
  let endsBeforeUpper := decide (floorTo len addr < floorTo len tor)
  let torHomogeneous := endsBeforeLower || beginsAfterUpper || (beginsAfterLower && endsBeforeUpper)
  let maskHomogeneous := not64 ((pmp.napotMask entry <<< 1) % 2 ^ 64) &&& len != 0
  let napotHomogeneous := maskHomogeneous || (addr ^^^ tor) / len != 0
  if entry.cfg &&& pmpA = pmpTor then torHomogeneous else napotHomogeneous

/-- The loop of `pmp_homogeneous`, from the top of the entry before. -/
def homogeneousFrom (pmp : Pmp) (addr len : Nat) : (base : Nat) → List PmpEntry → Bool
  | _, [] => true
  | base, entry :: rest =>
      if entry.cfg &&& pmpA ≠ 0 ∧ pmp.entryHomogeneous addr len base entry = false then false
      else homogeneousFrom pmp addr len (pmp.tor entry) rest

/-- `mmu_t::pmp_homogeneous`. -/
def pmpHomogeneous (pmp : Pmp) (addr len : Nat) : Bool := pmp.homogeneousFrom addr len 0 pmp.entries

/-! ## Homogeneous pages -/

variable {pmp : Pmp} {entry : PmpEntry} {page base addr : Nat}

theorem tor_lt (pmp : Pmp) (entry : PmpEntry) : pmp.tor entry < 2 ^ 64 := Nat.mod_lt _ (by decide)

/-- The mask selects the bits from some position on. -/
theorem exists_napotMask (pmp : Pmp) (entry : PmpEntry) :
    ∃ k, ∀ i < 64, (pmp.napotMask entry).testBit i = decide (k ≤ i) := by
  rw [napotMask]
  generalize isMask : (entry.addr <<< 1) % 2 ^ 64 |||
    (if entry.cfg &&& pmpA = pmpNa4 then 0 else 1) ||| not64 pmp.pmpTorMask = mask
  have fits : mask < 2 ^ 64 := by
    rw [← isMask]
    apply Nat.or_lt_two_pow
    · apply Nat.or_lt_two_pow (Nat.mod_lt _ (by decide))
      split
      · decide
      · decide
    · rw [not64]
      omega
  obtain ⟨k, ones⟩ := exists_trailing_ones fits
  have onesFit : mask &&& not64 ((mask + 1) % 2 ^ 64) < 2 ^ 64 := Nat.and_le_left.trans_lt fits
  refine ⟨k + 2, ?_⟩
  intro i inside
  rw [Nat.testBit_mod_two_pow, Nat.testBit_shiftLeft, testBit_not64 onesFit, ones, pmpShift]
  by_cases low : 2 ≤ i
  · have shifted : i - 2 < 64 := by omega
    simp only [inside, low, shifted, decide_true, Bool.true_and, ← decide_not]
    apply decide_eq_decide.mpr
    omega
  · simp only [low, decide_false, Bool.false_and, Bool.and_false]
    symm
    apply decide_eq_false
    omega

theorem floorTo_pgsize {x : Nat} (fits : x < 2 ^ 64) : floorTo pgsize x = x / pgsize * pgsize := by
  have ones : 2 ^ 64 - pgsize = not64 (2 ^ 12 - 1) := by decide
  rw [floorTo, ones, pgsize, ← ldiff_two_pow_sub_one x 12]
  apply Nat.eq_of_testBit_eq
  intro i
  rw [Nat.testBit_and, Nat.testBit_ldiff, testBit_not64 (by decide)]
  by_cases inside : i < 64
  · simp [inside]
  · have outside : x.testBit i = false :=
      Nat.testBit_lt_two_pow (fits.trans_le (Nat.pow_le_pow_right (by decide) (Nat.not_lt.mp inside)))
    simp [outside]

/-- A homogeneous page is matched as a whole or not at all. -/
theorem matchesAt_page (fits : page < 2 ^ 64) (aligned : pgsize ∣ page) (baseFits : base < 2 ^ 64)
    (homogeneous : pmp.entryHomogeneous page pgsize base entry = true) (inside : addr < 2 ^ 64)
    (inPage : addr / pgsize * pgsize = page) :
    pmp.matchesAt entry base addr = pmp.matchesAt entry base page := by
  have torFits := tor_lt pmp entry
  have pageEq : page / pgsize = addr / pgsize := by
    rw [← inPage, Nat.mul_div_cancel _ (by decide)]
  rw [entryHomogeneous] at homogeneous
  by_cases isTor : entry.cfg &&& pmpA = pmpTor
  · simp only [isTor, if_true, floorTo_pgsize fits, floorTo_pgsize baseFits, floorTo_pgsize torFits,
      Bool.or_eq_true, Bool.and_eq_true, decide_eq_true_eq] at homogeneous
    rw [matchesAt, matchesAt, if_pos isTor, if_pos isTor]
    apply decide_eq_decide.mpr
    rw [pgsize] at *
    omega
  · simp only [isTor, if_false, Bool.or_eq_true, bne_iff_ne, ne_eq] at homogeneous
    rw [matchesAt, matchesAt, if_neg isTor, if_neg isTor]
    obtain ⟨k, bits⟩ := exists_napotMask pmp entry
    rw [Bool.eq_iff_iff, beq_iff_eq, beq_iff_eq]
    by_cases large : 12 ≤ k
    · apply @and_xor_eq_zero_congr _ _ _ _ 12
      · intro i low
        rw [bits i (by omega)]
        exact decide_eq_false (by omega)
      · exact pageEq.symm
    · -- the region is smaller than a page and lies in another one
      have small : ¬ ¬ not64 (pmp.napotMask entry <<< 1 % 2 ^ 64) &&& pgsize = 0 := by
        rw [not_not]
        apply Nat.eq_of_testBit_eq
        intro i
        rw [Nat.testBit_and, pgsize, Nat.testBit_two_pow, Nat.zero_testBit,
          testBit_not64 (Nat.mod_lt _ (by decide)), Nat.testBit_mod_two_pow, Nat.testBit_shiftLeft]
        by_cases top : 12 = i
        · subst top
          have eleven : (pmp.napotMask entry).testBit 11 = true := by
            rw [bits 11 (by decide)]
            exact decide_eq_true (by omega)
          simp [eleven]
        · simp [top]
      have apart := homogeneous.resolve_left small
      have different : ∀ x, x / pgsize = page / pgsize → x < 2 ^ 64 →
          (x ^^^ pmp.tor entry) &&& pmp.napotMask entry ≠ 0 := by
        intro x same xFits
        apply @and_xor_ne_zero _ _ _ 12 64 _ xFits torFits
        · intro equal
          apply apart
          have pages : page / 2 ^ 12 = pmp.tor entry / 2 ^ 12 := same.symm.trans equal
          rw [pgsize, Nat.xor_div_two_pow, pages, Nat.xor_self]
        · intro i low high
          rw [bits i high]
          exact decide_eq_true (by omega)
      have addrNe := different addr pageEq.symm inside
      have pageNe := different page rfl fits
      exact ⟨fun zero => absurd zero addrNe, fun zero => absurd zero pageNe⟩

/-- The sectors of an aligned access lie in its page. -/
theorem sectors_inPage {len sector : Nat} (fits : Mmu.Fits addr len)
    (mem : sector ∈ sectors addr len) :
    sector < 2 ^ 64 ∧ sector / pgsize * pgsize = addr / pgsize * pgsize := by
  obtain ⟨i, below, rfl⟩ := List.mem_map.mp mem
  have address := fits.address
  have split := Nat.div_add_mod addr pgsize
  have low : addr % pgsize + 4 * i < pgsize := by
    have inPage := fits.inPage
    rw [List.mem_range] at below
    rw [pgsize] at *
    rcases fits.size with rfl | rfl | rfl | rfl
    all_goals omega
  have quotient : (addr + 4 * i) / pgsize = addr / pgsize := by
    rw [← split, Nat.add_assoc, Nat.mul_add_div (by decide), Nat.div_eq_of_lt low, Nat.add_zero,
      split]
  have noWrap : addr + 4 * i < 2 ^ 64 := by
    have pages := Mmu.vpn_lt address
    rw [pgsize] at *
    omega
  rw [Nat.mod_eq_of_lt noWrap, quotient]
  exact ⟨noWrap, rfl⟩

theorem sectors_ne_nil {len : Nat} (fits : Mmu.Fits addr len) : sectors addr len ≠ [] := by
  have counted : (sectors addr len).length = (len + 3) / 4 := by
    rw [sectors, List.length_map, List.length_range]
  intro none
  rw [none, List.length_nil] at counted
  rcases fits.size with rfl | rfl | rfl | rfl
  all_goals omega

/-- On a homogeneous page an entry matches all sectors of an access or none. -/
theorem any_all_matchesAt {len : Nat} (fits : Mmu.Fits addr len) (baseFits : base < 2 ^ 64)
    (homogeneous : pmp.entryHomogeneous (addr / pgsize * pgsize) pgsize base entry = true) :
    (sectors addr len).any (pmp.matchesAt entry base) =
        pmp.matchesAt entry base (addr / pgsize * pgsize) ∧
      (sectors addr len).all (pmp.matchesAt entry base) =
        pmp.matchesAt entry base (addr / pgsize * pgsize) := by
  have pageFits : addr / pgsize * pgsize < 2 ^ 64 :=
    (Nat.div_mul_le_self addr pgsize).trans_lt fits.address
  have alike : ∀ sector ∈ sectors addr len, pmp.matchesAt entry base sector =
      pmp.matchesAt entry base (addr / pgsize * pgsize) := by
    intro sector mem
    obtain ⟨inside, inPage⟩ := sectors_inPage fits mem
    exact matchesAt_page pageFits (Nat.dvd_mul_left _ _) baseFits homogeneous inside inPage
  obtain ⟨first, rest, split⟩ := List.exists_cons_of_ne_nil (sectors_ne_nil fits)
  cases decided : pmp.matchesAt entry base (addr / pgsize * pgsize) with
  | true =>
      rw [decided] at alike
      refine ⟨?_, List.all_eq_true.mpr alike⟩
      exact List.any_eq_true.mpr ⟨first, by rw [split]; exact List.mem_cons_self,
        alike first (by rw [split]; exact List.mem_cons_self)⟩
  | false =>
      rw [decided] at alike
      constructor
      · exact List.any_eq_false.mpr fun sector mem matched => by
          rw [alike sector mem] at matched
          cases matched
      · rw [split, List.all_cons, alike first (by rw [split]; exact List.mem_cons_self),
          Bool.false_and]

theorem okFrom_page {addr' len len' : Nat} {type : AccessType} {mode : Privilege}
    (fits : Mmu.Fits addr len) (fits' : Mmu.Fits addr' len')
    (samePage : addr' / pgsize = addr / pgsize) {entries : List PmpEntry} (baseFits : base < 2 ^ 64)
    (homogeneous : pmp.homogeneousFrom (addr / pgsize * pgsize) pgsize base entries = true) :
    pmp.okFrom addr' len' type mode base entries = pmp.okFrom addr len type mode base entries := by
  induction entries generalizing base with
  | nil => rfl
  | cons entry rest inductionHypothesis =>
      rw [homogeneousFrom] at homogeneous
      by_cases active : entry.cfg &&& pmpA ≠ 0
      · cases whole : pmp.entryHomogeneous (addr / pgsize * pgsize) pgsize base entry with
        | false =>
            rw [if_pos ⟨active, whole⟩] at homogeneous
            cases homogeneous
        | true =>
            rw [if_neg (by simp [whole])] at homogeneous
            have rest := inductionHypothesis (tor_lt pmp entry) homogeneous
            obtain ⟨any, all⟩ := any_all_matchesAt fits baseFits whole
            obtain ⟨any', all'⟩ := any_all_matchesAt fits' baseFits (samePage ▸ whole)
            rw [okFrom, okFrom, if_pos active, if_pos active]
            simp only [any, all, any', all', samePage, rest]
      · rw [if_neg fun both => active both.1] at homogeneous
        rw [okFrom, okFrom, if_neg active, if_neg active]
        exact inductionHypothesis (tor_lt pmp entry) homogeneous

/-- All aligned accesses to a homogeneous page that are of one type and mode are decided alike. -/
theorem pmpOk_page {addr' len len' : Nat} (type : AccessType) (mode : Privilege)
    (fits : Mmu.Fits addr len) (fits' : Mmu.Fits addr' len')
    (samePage : addr' / pgsize = addr / pgsize)
    (homogeneous : pmp.pmpHomogeneous (addr / pgsize * pgsize) pgsize = true) :
    pmp.pmpOk addr' len' type mode = pmp.pmpOk addr len type mode := by
  rw [pmpOk, pmpOk, okFrom_page fits fits' samePage (by decide) homogeneous]

/-- A homogeneous page is either allowed or refused as a whole to a type and mode, whatever
entries overlap it and in whatever order they come. -/
theorem pmpOk_all_or_none {index : Nat} (type : AccessType) (mode : Privilege)
    (homogeneous : pmp.pmpHomogeneous (index * pgsize) pgsize = true) :
    ∃ allowed, ∀ addr len, Mmu.Fits addr len → addr / pgsize = index →
      pmp.pmpOk addr len type mode = allowed := by
  refine ⟨pmp.pmpOk (index * pgsize) 1 type mode, ?_⟩
  intro addr len fits inPage
  have start : index * pgsize / pgsize = index := Nat.mul_div_cancel _ (by decide)
  have below : index * pgsize ≤ addr := inPage ▸ Nat.div_mul_le_self addr pgsize
  have first : Mmu.Fits (index * pgsize) 1 :=
    ⟨below.trans_lt fits.address, Or.inl rfl, Nat.one_dvd _⟩
  apply pmpOk_page type mode first fits (inPage.trans start.symm)
  rw [start]
  exact homogeneous

/-- Two pages that one entry covers, with an entry for an earlier page before it. -/
theorem pmpOk_all_or_none_napot :
    ∃ allowed, ∀ addr len, Mmu.Fits addr len → addr / pgsize = 0x80001 →
      pmpOk { lgGranularity := 2, entries := [⟨0x0f, 0x20000000⟩, ⟨0x19, 0x200003ff⟩] } addr len
        .store .user = allowed :=
  pmpOk_all_or_none .store .user (by decide)

end Pmp

end Difftest.Spike
