import Difftest.Spike.Mmu

/-!
# The loop that executes instructions

A processor executes in one of two ways.  On the slow path, which the instruction log and the
debugger need, it fetches every instruction anew.  On the fast path it takes decoded
instructions from a cache, and goes on from one to the next inside a switch over the places of
the cache, as long as the cache has the next instruction.  What an instruction does, and what
the interrupts, the traps and the debugger do, is given by the processor.
-/

namespace Difftest.Spike

/-! ## Instructions -/

/-- `insn_length`. -/
def insnLength (bits : BitVec 64) : Nat :=
  if bits &&& 0x03 < 0x03 then 2
  else if bits &&& 0x1f < 0x1f then 4
  else if bits &&& 0x3f < 0x3f then 6
  else 8

/-- `insn_fetch_t`. -/
structure InsnFetch (φ : Type) where
  func : φ
  insn : BitVec 64
deriving DecidableEq, Repr

/-- `icache_entry_t`; `next` is the place that the pointer leads to. -/
structure IcacheEntry (φ : Type) where
  tag : Nat
  next : Nat
  data : InsnFetch φ
deriving DecidableEq, Repr

/-- `ICACHE_ENTRIES`. -/
def icacheEntries : Nat := 1024

/-- `PC_ALIGN`. -/
def pcAlign : Nat := 2

/-- `mmu_t::icache_index`. -/
def icacheIndex (addr : Nat) : Nat :=
  addr / pcAlign % icacheEntries

/-- The instruction cache. -/
abbrev Icache (φ : Type) := Nat → IcacheEntry φ

/-- `mmu_t::flush_icache`; the tag of an entry that holds nothing is `-1`. -/
def flushIcache {φ : Type} (icache : Icache φ) : Icache φ :=
  fun slot => { icache slot with tag := allOnes }

/-! ## The processor -/

/-- `single_step`. -/
inductive SingleStep
  | none
  | stepping
  | stepped
deriving DecidableEq, Repr

/-- `halt_request`. -/
inductive HaltRequest
  | none
  | regular
  | group
deriving DecidableEq, Repr

/-- Why a processor enters the debug mode. -/
inductive DebugCause
  | hardwareBreakpoint
  | debugInterrupt
  | step
  | halt
  | group
deriving DecidableEq, Repr

/-- `action` of a trigger. -/
inductive TriggerAction
  | debugException
  | debugMode
  | other
deriving DecidableEq, Repr

/-- What the parts of a turn throw. -/
inductive Thrown (τ : Type)
  | trap (trap : τ)
  | triggerMatched (index address : Nat)
  | waitForInterrupt
  /-- `abort`. -/
  | aborted
  /-- No part of the processor throws this; see `Hart.fenced`. -/
  | stale
deriving DecidableEq, Repr

/-- What the loop uses of `state_t`, and the rest of the processor and of its port. -/
structure HartState (ρ : Type) where
  pc : Nat
  serialized : Bool
  singleStep : SingleStep
  minstret : Nat
  other : ρ
deriving DecidableEq, Repr

/-- What a part of the processor returns or throws, the state it leaves, and whether it has
flushed the instruction cache. -/
structure Done (τ ρ α : Type) where
  outcome : Except (Thrown τ) α
  state : HartState ρ
  flushed : Bool

/-- A part of the processor. -/
abbrev Op (τ ρ α : Type) := HartState ρ → Done τ ρ α

/-- The parts of the processor that the loop calls. -/
structure Hart (ρ φ τ : Type) where
  debugMode : ρ → Bool
  haltRequest : ρ → HaltRequest
  dcsrHalt : ρ → Bool
  takePendingInterrupt : Op τ ρ Unit
  /-- `psint->assert_int`. -/
  assertInt : Nat → Op τ ρ Unit
  /-- `load_insn`: translate, read and decode. -/
  loadInsn : Nat → ρ → Except (Thrown τ) (InsnFetch φ) × ρ
  /-- The call of `fetch.func` in `execute_insn`. -/
  execute : InsnFetch φ → Nat → Op τ ρ Nat
  takeTrap : τ → Nat → Op τ ρ Unit
  enterDebugMode : DebugCause → Op τ ρ Unit
  /-- `matched_trigger` is set. -/
  matchedTrigger : ρ → Bool
  forgetTrigger : ρ → ρ
  /-- `state.mcontrol[index].action`. -/
  action : ρ → Nat → TriggerAction
  /-- `insn_trap_t(CAUSE_BREAKPOINT, address)`. -/
  breakpoint : Nat → τ

/-- The state, the instruction cache and the variables of `step`. -/
structure Locals (ρ φ : Type) where
  state : HartState ρ
  icache : Icache φ
  pc : Nat
  instret : Nat
  n : Nat

/-- A throw keeps the variables. -/
abbrev StepM (ρ φ τ α : Type) := EStateM (Thrown τ) (Locals ρ φ) α

variable {ρ φ τ α : Type}

/-- Call a part of the processor. -/
def Op.call (op : Op τ ρ α) : StepM ρ φ τ α := fun locals =>
  let done := op locals.state
  let locals' := { locals with
    state := done.state
    icache := if done.flushed then flushIcache locals.icache else locals.icache }
  match done.outcome with
  | .ok value => .ok value locals'
  | .error thrown => .error thrown locals'

/-! ## Fetching -/

/-- `mmu_t::load_insn`: the entry it fills is not one of the cache. -/
def Hart.load (hart : Hart ρ φ τ) (addr : Nat) : StepM ρ φ τ (InsnFetch φ) := fun locals =>
  let (outcome, other) := hart.loadInsn addr locals.state.other
  let locals' := { locals with state := { locals.state with other } }
  match outcome with
  | .ok fetch => .ok fetch locals'
  | .error thrown => .error thrown locals'

/-- `mmu_t::refill_icache`: the entry is written when the instruction has been decoded. -/
def Hart.refillIcache (hart : Hart ρ φ τ) (addr slot : Nat) : StepM ρ φ τ Unit := do
  let fetch ← hart.load addr
  modify fun locals =>
    { locals with
      icache := Function.update locals.icache slot
        { tag := addr
          next := icacheIndex ((addr + insnLength fetch.insn) % 2 ^ 64)
          data := fetch } }

/-- `mmu_t::access_icache`: the place of the entry. -/
def Hart.accessIcache (hart : Hart ρ φ τ) (addr : Nat) : StepM ρ φ τ Nat := do
  let slot := icacheIndex addr
  if ((← get).icache slot).tag = addr then
    return slot
  else
    hart.refillIcache addr slot
    return slot

/-! ## The two paths -/

/-- `advance_pc`: whether the loop goes on. -/
def advancePc : StepM ρ φ τ Bool := do
  let locals ← get
  if locals.pc % 2 = 1 then
    -- the sentinels `PC_SERIALIZE_BEFORE`, `PC_SERIALIZE_AFTER` and `PC_SERIALIZE_WFI`
    if locals.pc = 3 then
      set { locals with state := { locals.state with serialized := true }, pc := locals.state.pc }
    else if locals.pc = 5 then
      set { locals with instret := locals.instret + 1, pc := locals.state.pc }
    else if locals.pc = 7 then
      set { locals with
        instret := locals.instret + 1, n := locals.instret + 1, pc := locals.state.pc }
    else throw .aborted
    return false
  else
    set { locals with
      state := { locals.state with pc := locals.pc }, instret := locals.instret + 1 }
    return true

/-- Raise the interrupt that is due, get the instruction and execute it. -/
def Hart.runInsn (hart : Hart ρ φ τ) (fetch : StepM ρ φ τ (InsnFetch φ)) : StepM ρ φ τ Unit := do
  (hart.assertInt (← get).pc).call
  let insn ← fetch
  let npc ← (hart.execute insn (← get).pc).call
  modify fun locals => { locals with pc := npc }

/-- The end of a single step: whether the debug mode was entered. -/
def Hart.endStep (hart : Hart ρ φ τ) : StepM ρ φ τ Bool := do
  let locals ← get
  if locals.state.serialized = false ∧ locals.state.singleStep = .stepped then
    set { locals with state := { locals.state with singleStep := .none } }
    if hart.debugMode locals.state.other then
      return false
    else
      (hart.enterDebugMode .step).call
      return true
  else
    return false

/-- A single step that has begun. -/
def markStep (locals : Locals ρ φ) : Locals ρ φ :=
  if locals.state.singleStep = .stepping then
    { locals with state := { locals.state with singleStep := .stepped } }
  else locals

/-- A turn of the loop on the slow path: whether the loop goes on. -/
def Hart.slowTurn (hart : Hart ρ φ τ) : StepM ρ φ τ Bool := do
  if ← hart.endStep then
    return false
  else
    modify markStep
    hart.runInsn (do hart.load (← get).pc)
    advancePc

/-- The cases of the switch from one on, of which so many are left; `ICACHE_ACCESS` is one of
them. -/
def Hart.switchFrom (hart : Hart ρ φ τ) : Nat → Nat → StepM ρ φ τ Unit
  | 0, _ => pure ()
  | cases + 1, slot => do
      hart.runInsn (do return ((← get).icache slot).data)
      let locals ← get
      let next := (locals.icache slot).next
      if cases ≠ 0 ∧ (locals.icache next).tag = locals.pc ∧ locals.instret + 1 ≠ locals.n then
        set { locals with
          instret := locals.instret + 1, state := { locals.state with pc := locals.pc } }
        hart.switchFrom cases next

/-- A turn of the loop on the fast path: whether the loop goes on. -/
def Hart.fastTurn (hart : Hart ρ φ τ) : StepM ρ φ τ Bool := do
  let pc := (← get).pc
  let slot ← hart.accessIcache pc
  hart.switchFrom (icacheEntries - icacheIndex pc) slot
  advancePc

/-- `while (instret < n)`; every turn that goes on increments `instret`. -/
def insnLoop (turn : StepM ρ φ τ Bool) : Nat → StepM ρ φ τ Unit
  | 0 => pure ()
  | fuel + 1 => do
      let locals ← get
      if locals.instret < locals.n then
        if ← turn then insnLoop turn fuel

/-- `processor_t::slow_path`. -/
def Hart.slowPath (hart : Hart ρ φ τ) (debug : Bool) (state : HartState ρ) : Bool :=
  debug || state.singleStep ≠ .none || hart.debugMode state.other

/-! ## `step` -/

/-- The action of a trigger that matched. -/
def Hart.act (hart : Hart ρ φ τ) (index address : Nat) : StepM ρ φ τ Unit := do
  match hart.action (← get).state.other index with
  | .debugMode => (hart.enterDebugMode .hardwareBreakpoint).call
  | .debugException => (hart.takeTrap (hart.breakpoint address) (← get).pc).call
  | .other => throw .aborted

/-- Execute the instruction that a trigger has stopped; `matched_trigger` keeps it from being
stopped again. -/
def Hart.restart (hart : Hart ρ φ τ) : StepM ρ φ τ Bool := do
  let fetch ← hart.load (← get).pc
  let npc ← (hart.execute fetch (← get).pc).call
  modify fun locals => { locals with pc := npc }
  advancePc

/-- The end of a single step whose instruction has thrown a trap. -/
def Hart.enterStepped (hart : Hart ρ φ τ) : StepM ρ φ τ Unit := do
  if (← get).state.singleStep = .stepped then
    modify fun locals => { locals with state := { locals.state with singleStep := .none } }
    (hart.enterDebugMode .step).call

/-- What `step` does with what a turn throws: whether it goes on.  The `break` in `advance_pc`
leaves the outer loop here. -/
def Hart.handle (hart : Hart ρ φ τ) : Thrown τ → StepM ρ φ τ Bool
  | .trap trap => do
      (hart.takeTrap trap (← get).pc).call
      modify fun locals => { locals with n := locals.instret }
      hart.enterStepped
      return true
  | .triggerMatched index address => do
      if hart.matchedTrigger (← get).state.other then
        if ← hart.restart then
          modify fun locals =>
            { locals with
              state := { locals.state with other := hart.forgetTrigger locals.state.other } }
          hart.act index address
          return true
        else
          return false
      else
        hart.act index address
        return true
  | .waitForInterrupt => do
      modify fun locals => { locals with n := locals.instret }
      return true
  | .aborted => throw .aborted
  | .stale => throw .stale

/-- `try` and `catch`: whether the outer loop goes on. -/
def attempt (body : StepM ρ φ τ Unit) (handler : Thrown τ → StepM ρ φ τ Bool) :
    StepM ρ φ τ Bool := fun locals =>
  match body locals with
  | .ok _ locals' => .ok true locals'
  | .error thrown locals' => handler thrown locals'

/-- The interrupts that are pending, and the instructions on one of the two paths. -/
def Hart.body (debug : Bool) (hart : Hart ρ φ τ) : StepM ρ φ τ Unit := do
  hart.takePendingInterrupt.call
  let locals ← get
  if hart.slowPath debug locals.state then insnLoop hart.slowTurn locals.n
  else insnLoop hart.fastTurn locals.n

/-- A turn of the outer loop of `step`: whether it goes on. -/
def Hart.stepTurn (debug : Bool) (hart : Hart ρ φ τ) : StepM ρ φ τ Bool := do
  modify fun locals => { locals with instret := 0, pc := locals.state.pc }
  let goesOn ← attempt (hart.body debug) hart.handle
  if goesOn then
    modify fun locals =>
      { locals with
        state := { locals.state with
          minstret := (locals.state.minstret + locals.instret) % 2 ^ 64 }
        n := locals.n - locals.instret }
  return goesOn

/-- `while (n > 0)`, so many turns at most: whether the loop has ended. -/
def Hart.turns (debug : Bool) (hart : Hart ρ φ τ) : Nat → StepM ρ φ τ Bool
  | 0 => return decide ((← get).n = 0)
  | fuel + 1 => do
      if 0 < (← get).n then
        if ← hart.stepTurn debug then hart.turns debug fuel
        else return true
      else return true

/-- Why the debug mode is to be entered before the first turn. -/
def Hart.haltCause (hart : Hart ρ φ τ) (other : ρ) : Option DebugCause :=
  if hart.debugMode other then none
  else
    match hart.haltRequest other with
    | .regular => some .debugInterrupt
    | .group => some .group
    | .none => if hart.dcsrHalt other then some .halt else none

/-- The debug mode that was asked for is entered. -/
def Hart.enterHalted (hart : Hart ρ φ τ) : StepM ρ φ τ Unit := do
  match hart.haltCause (← get).state.other with
  | some cause => (hart.enterDebugMode cause).call
  | none => pure ()

/-- `processor_t::step`, with a bound on the turns of its outer loop. -/
def Hart.step (debug : Bool) (hart : Hart ρ φ τ) (fuel n : Nat) : StepM ρ φ τ Bool := do
  modify fun locals => { locals with n }
  hart.enterHalted
  hart.turns debug fuel

end Difftest.Spike
