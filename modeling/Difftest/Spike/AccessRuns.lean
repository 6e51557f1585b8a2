import Difftest.Spike.Transparent
import Difftest.Spike.Walk

/-!
# Runs of accesses

A run is divided into the stretches between changes of the processor state that accesses
depend on; every such change flushes the TLB.  In runs of aligned accesses further flushes
can not be observed.  Misaligned accesses are different: they are checked after the TLB was
consulted, so a load that hits returns data where one that misses traps.
-/

namespace Difftest.Spike

/-- What a processor asks of its port. -/
inductive Access
  | load (size addr : Nat)
  | store (size addr value : Nat)
  | fetch (addr : Nat)
  | acquire (addr : Nat)
  | check (addr size : Nat)
  | yield
  /-- The instruction that a trigger stopped has run; `matched_trigger` is reset. -/
  | resume
deriving DecidableEq, Repr

/-- The access is aligned and its value fits. -/
def Access.Aligned : Access → Prop
  | .load size addr => Mmu.Fits addr size
  | .store size addr value => Mmu.Fits addr size ∧ value < 256 ^ size
  | .fetch addr => Mmu.Fits addr 2
  | .acquire addr => Mmu.Fits addr 1
  | .check addr _ => Mmu.Fits addr 1
  | .yield => True
  | .resume => True

section Runs

variable {δ : Type}

/-- Perform an access; the answer is the value loaded or fetched, or whether the reservation
holds. -/
def Access.perform (mmu : Mmu δ) : Access → SimM δ Nat
  | .load size addr => mmu.load size addr
  | .store size addr value => do
      mmu.store size addr value
      return 0
  | .fetch addr => mmu.fetchParcel addr
  | .acquire addr => do
      mmu.acquireLoadReservation addr
      return 0
  | .check addr size => do
      return if ← mmu.checkLoadReservation addr size then 1 else 0
  | .yield => do
      Mmu.yieldLoadReservation
      return 0
  | .resume => do
      modify fun machine => { machine with matchedTrigger := none }
      return 0

/-- The value or the trap of a result. -/
def answer : EStateM.Result Trap (Machine δ) Nat → Except Trap Nat
  | .ok value _ => .ok value
  | .error trap _ => .error trap

/-- The machine that a result leaves. -/
def machineOf : EStateM.Result Trap (Machine δ) Nat → Machine δ
  | .ok _ machine => machine
  | .error _ machine => machine

/-- The machine with a flushed TLB. -/
def Machine.flushed (machine : Machine δ) : Machine δ := { machine with tlb := machine.tlb.flush }

/-- One step of a run: an access, after a flush when it is marked with one. -/
def stepAccess (mmu : Mmu δ) (step : Bool × Access) (machine : Machine δ) :
    EStateM.Result Trap (Machine δ) Nat :=
  step.2.perform mmu (if step.1 then machine.flushed else machine)

/-- The answers of a run and the machine that it leaves. -/
def runAccesses (mmu : Mmu δ) : List (Bool × Access) → Machine δ → List (Except Trap Nat) × Machine δ
  | [], machine => ([], machine)
  | step :: rest, machine =>
      let result := stepAccess mmu step machine
      let later := runAccesses mmu rest (machineOf result)
      (answer result :: later.1, later.2)

/-- A stretch of a run: the state of the processor, and its accesses. -/
abbrev Stretch := Processor × List (Bool × Access)

/-- A run through several states of the processor; every change flushes the TLB. -/
def runStretches (bus : Bus δ) : List Stretch → Machine δ → List (List (Except Trap Nat)) × Machine δ
  | [], machine => ([], machine)
  | (proc, accesses) :: rest, machine =>
      let stretch := runAccesses (proc.mmu bus) accesses machine.flushed
      let later := runStretches bus rest stretch.2
      (stretch.1 :: later.1, later.2)

/-- No access of the run changes the translation in force. -/
def Steady (mmu : Mmu δ) (frozen : Mmu.Translation) : List (Bool × Access) → Machine δ → Prop
  | [], _ => True
  | step :: rest, machine =>
      let after := machineOf (stepAccess mmu step machine)
      mmu.Settled frozen after.contents ∧ Steady mmu frozen rest after

/-- No stretch of the run changes its page tables. -/
def SteadyStretches (bus : Bus δ) : List Stretch → Machine δ → Prop
  | [], _ => True
  | (proc, accesses) :: rest, machine =>
      Steady (proc.mmu bus)
          (fun type addr len => proc.translate bus type addr len machine.contents) accesses
          machine.flushed ∧
        SteadyStretches bus rest (runAccesses (proc.mmu bus) accesses machine.flushed).2

/-! ## Aligned accesses -/

open Mmu

section Stretch

variable {mmu : Mmu δ} {frozen : Translation} {m d : Machine δ}

/-- Aligned accesses do not show the TLB. -/
theorem same_perform (uniform : Uniform mmu frozen) (settled : Settled mmu frozen m.contents)
    (related : Related mmu frozen m d) {access : Access} (aligned : access.Aligned) :
    Same mmu frozen (access.perform mmu m) (access.perform mmu d) := by
  have swapped := settled.of_core related.core
  cases access with
  | load size addr =>
      have self : Related mmu frozen d d := related.symm.trans related
      exact (same_load_slow uniform settled related aligned).trans
        (same_load_slow uniform swapped self aligned).symm
  | store size addr value =>
      obtain ⟨fits, small⟩ := aligned
      have self : Related mmu frozen d d := related.symm.trans related
      have stored := (same_store_slow uniform settled related fits small).trans
        (same_store_slow uniform swapped self fits small).symm
      exact Agree.bind stored fun _ _ _ _ _ related => .ok related
  | fetch addr =>
      have self : Related mmu frozen d d := related.symm.trans related
      exact (same_fetch_slow uniform settled related aligned).trans
        (same_fetch_slow uniform swapped self aligned).symm
  | acquire addr =>
      exact Agree.bind (same_acquire uniform settled related aligned)
        fun _ _ _ _ _ related => .ok related
  | check addr size =>
      exact Agree.bind (same_check uniform settled related aligned)
        fun _ _ _ _ _ related => .ok related
  | yield =>
      exact .ok ⟨⟨related.core.contents, related.core.peripherals, related.core.matchedTrigger, rfl⟩,
        related.left, related.right⟩
  | resume =>
      exact .ok ⟨⟨related.core.contents, related.core.peripherals, rfl,
        related.core.loadReservation⟩, related.left, related.right⟩

/-- A flush keeps the machines related. -/
theorem Mmu.Related.flushed (related : Related mmu frozen m d) (first second : Bool) :
    Related mmu frozen (if first then m.flushed else m) (if second then d.flushed else d) := by
  have left := coherent_flush mmu frozen m.tlb
  have right := coherent_flush mmu frozen d.tlb
  cases first with
  | false =>
      cases second with
      | false => exact related
      | true => exact ⟨related.core.other, related.left, right⟩
  | true =>
      cases second with
      | false => exact ⟨related.core.other, left, related.right⟩
      | true => exact ⟨related.core.other, left, right⟩

theorem answer_eq {first second : EStateM.Result Trap (Machine δ) Nat}
    (same : Same mmu frozen first second) :
    answer first = answer second ∧ Related mmu frozen (machineOf first) (machineOf second) := by
  cases same with
  | ok related => exact ⟨rfl, related⟩
  | error related => exact ⟨rfl, related⟩

/-- The run lemma: with the same accesses, the flushes do not show. -/
theorem runAccesses_related (uniform : Uniform mmu frozen) {steps : List (Bool × Access)} :
    ∀ {steps' : List (Bool × Access)} {m d : Machine δ},
      steps.map Prod.snd = steps'.map Prod.snd → (∀ step ∈ steps, step.2.Aligned) →
        Settled mmu frozen m.contents → Related mmu frozen m d → Steady mmu frozen steps m →
          (runAccesses mmu steps m).1 = (runAccesses mmu steps' d).1 ∧
            Related mmu frozen (runAccesses mmu steps m).2 (runAccesses mmu steps' d).2 := by
  induction steps with
  | nil =>
      intro steps' m d same _ _ related _
      have none : steps' = [] := List.map_eq_nil_iff.mp same.symm
      subst none
      exact ⟨rfl, related⟩
  | cons step rest inductionHypothesis =>
      intro steps' m d same aligned settled related steady
      obtain ⟨step', rest', rfl⟩ : ∃ step' rest', steps' = step' :: rest' := by
        cases steps' with
        | nil => cases same
        | cons step' rest' => exact ⟨step', rest', rfl⟩
      obtain ⟨sameAccess, sameRest⟩ := List.cons.inj same
      have start := related.flushed step.1 step'.1
      have unchanged : Settled mmu frozen (if step.1 then m.flushed else m).contents := by
        cases step.1 with
        | false => exact settled
        | true => exact settled
      have performed := same_perform uniform unchanged start (aligned step List.mem_cons_self)
      have stepped : Same mmu frozen (stepAccess mmu step m) (stepAccess mmu step' d) := by
        rw [stepAccess, stepAccess, ← sameAccess]
        exact performed
      obtain ⟨sameAnswer, after⟩ := answer_eq stepped
      obtain ⟨answers, final⟩ := inductionHypothesis sameRest
        (fun later mem => aligned later (List.mem_cons_of_mem step mem)) steady.1 after steady.2
      exact ⟨by rw [runAccesses, runAccesses, sameAnswer, answers], final⟩

end Stretch

variable {bus : Bus δ}

/-- The machines of two runs start a stretch with coherent TLBs. -/
theorem related_flushed {mmu : Mmu δ} (frozen : Translation) {m d : Machine δ} (core : SameCore m d) :
    Related mmu frozen m.flushed d.flushed :=
  ⟨core.other, coherent_flush mmu frozen m.tlb, coherent_flush mmu frozen d.tlb⟩

/-- A processor in machine mode without translation, protection and triggers. -/
def bareProcessor : Processor where
  xlen := 64
  maxXlen := 64
  prv := .machine
  debugMode := false
  mprv := false
  mpp := .user
  sum := false
  mxr := false
  satp := 0
  pmp := { lgGranularity := 2, entries := [] }
  mcontrol := []
  isXlen := Or.inr rfl

/-- In machine mode the memories do not matter to the translation. -/
theorem bareProcessor_translate {bus : Bus δ} (type : AccessType) (addr len : Nat)
    (contents contents' : Contents) :
    bareProcessor.translate bus type addr len contents =
      bareProcessor.translate bus type addr len contents' := by
  have oneMode : bareProcessor.OneMode := Or.inr (Or.inl rfl)
  have walked : ∀ contents, bareProcessor.walk bus contents type .machine addr =
      .ok (addr % 2 ^ 64 / pgsize * pgsize) := fun _ => rfl
  have machine : bareProcessor.prv = .machine := rfl
  rw [Processor.translate, Processor.translate, oneMode.accessMode_eq, machine, walked, walked]

theorem steady_bare {bus : Bus δ} (contents : Contents) (steps : List (Bool × Access)) :
    ∀ m, Steady (bareProcessor.mmu bus)
      (fun type addr len => bareProcessor.translate bus type addr len contents) steps m := by
  induction steps with
  | nil => exact fun _ => trivial
  | cons step rest inductionHypothesis =>
      intro m
      exact ⟨fun type addr len => bareProcessor_translate type addr len _ _, inductionHypothesis _⟩

/-- A store, and a load and a fetch of its bytes, which are marked with a flush or not. -/
def storeLoadFetch (flush : Bool) : Stretch :=
  (bareProcessor, [(false, .store 8 0x80000008 5), (flush, .load 4 0x80000008),
    (flush, .fetch 0x8000000a)])

section Misaligned

variable {proc : Processor} {m : Machine δ} {addr near size len paddr : Nat} {host : HostAddr}

/-- After a flush every load takes the slow path. -/
theorem load_flushed (mmu : Mmu δ) (m : Machine δ) (size : Nat) (address : addr < 2 ^ 64) :
    mmu.load size addr m.flushed = mmu.slowLoad size addr m.flushed := by
  have small := vpn_lt address
  have plain : allOnes ≠ addr / pgsize := by
    intro same
    apply ldiff_allOnes_ne small
    rw [same, ldiff_check small]
  have checked : allOnes ≠ addr / pgsize ||| tlbCheckTriggers := by
    intro same
    apply ldiff_allOnes_ne small
    rw [same, ldiff_or_check small]
  rw [load_apply]
  exact (if_neg plain).trans (if_neg checked)

/-- The slow path traps on a misaligned address. -/
theorem slowLoad_misaligned (mmu : Mmu δ) (m : Machine δ) (misaligned : addr % size ≠ 0) :
    ∃ trap s, mmu.slowLoad size addr m = .error trap s := by
  simp only [slowLoad, bind, EStateM.bind, if_pos misaligned]
  cases mmu.loadSlowPath addr size m with
  | ok bytes s => exact ⟨_, s, rfl⟩
  | error trap s => exact ⟨trap, s, rfl⟩

end Misaligned

end Runs

end Difftest.Spike
