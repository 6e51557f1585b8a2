import Mathlib
import Difftest.Data.Lockstep
import Difftest.Spike.StepLoop

/-!
# The fast path

A program that executes no instruction that has changed since the last flush of the instruction
cache can not tell the fast path from the slow one: the cache holds what would be fetched.  The
processor may keep other caches, which a fetch changes and an instruction does not see.
-/

namespace Difftest.Spike

variable {ρ φ τ α : Type}

/-! ## What the paths rely on -/

/-- Two states of a processor that differ at most in its caches. -/
structure Twin (rel : ρ → ρ → Prop) (a b : HartState ρ) : Prop where
  pc : a.pc = b.pc
  serialized : a.serialized = b.serialized
  singleStep : a.singleStep = b.singleStep
  minstret : a.minstret = b.minstret
  other : rel a.other b.other

/-- The instructions that are current in the second state were so in the first, and are the
same. -/
def KeepsFetch (hart : Hart ρ φ τ) (current : ρ → Nat → Bool) (a b : ρ) : Prop :=
  ∀ addr, current b addr = true →
    current a addr = true ∧ (hart.loadInsn addr b).1 = (hart.loadInsn addr a).1

/-- A part of the processor does not see its caches, leaves an even program counter, and
flushes the instruction cache unless the current instructions stay. -/
structure Op.Sound (hart : Hart ρ φ τ) (rel : ρ → ρ → Prop) (current : ρ → Nat → Bool)
    (op : Op τ ρ α) : Prop where
  outcome : ∀ {a b}, Twin rel a b → (op a).outcome = (op b).outcome
  flushed : ∀ {a b}, Twin rel a b → (op a).flushed = (op b).flushed
  twin : ∀ {a b}, Twin rel a b → Twin rel (op a).state (op b).state
  even : ∀ {a}, a.pc % 2 = 0 → (op a).state.pc % 2 = 0
  keeps : ∀ {a}, (op a).flushed = false → KeepsFetch hart current a.other (op a).state.other

/-- What holds of a processor whose caches, up to which `rel` compares, can not be seen, and
which forgets that an instruction is `current` when it changes. -/
structure Hart.Sound (hart : Hart ρ φ τ) (rel : ρ → ρ → Prop) (current : ρ → Nat → Bool) :
    Prop where
  equivalence : Equivalence rel
  debugMode : ∀ {a b}, rel a b → hart.debugMode a = hart.debugMode b
  haltRequest : ∀ {a b}, rel a b → hart.haltRequest a = hart.haltRequest b
  dcsrHalt : ∀ {a b}, rel a b → hart.dcsrHalt a = hart.dcsrHalt b
  matchedTrigger : ∀ {a b}, rel a b → hart.matchedTrigger a = hart.matchedTrigger b
  action : ∀ {a b}, rel a b → hart.action a = hart.action b
  sameCurrent : ∀ {a b}, rel a b → current a = current b
  forgetTrigger : ∀ {a b}, rel a b → rel (hart.forgetTrigger a) (hart.forgetTrigger b)
  forgetKeeps : ∀ a, KeepsFetch hart current a (hart.forgetTrigger a)
  loadInsn : ∀ {a b}, rel a b → ∀ addr, (hart.loadInsn addr a).1 = (hart.loadInsn addr b).1 ∧
    rel (hart.loadInsn addr a).2 (hart.loadInsn addr b).2
  loadKeeps : ∀ a addr, KeepsFetch hart current a (hart.loadInsn addr a).2
  /-- A fetch that succeeds changes caches only. -/
  loadQuiet : ∀ {a addr fetch}, (hart.loadInsn addr a).1 = .ok fetch →
    rel a (hart.loadInsn addr a).2
  takePendingInterrupt : Op.Sound hart rel current hart.takePendingInterrupt
  takeTrap : ∀ trap pc, Op.Sound hart rel current (hart.takeTrap trap pc)
  enterDebugMode : ∀ cause, Op.Sound hart rel current (hart.enterDebugMode cause)
  assertInt : ∀ pc, Op.Sound hart rel current (hart.assertInt pc)
  /-- An interrupt that is asserted sets pending bits only. -/
  assertFrame : ∀ pc a, (hart.assertInt pc a).flushed = false ∧
    (hart.assertInt pc a).state.singleStep = a.singleStep
  /-- No interrupt is scheduled at an address that can not be fetched. -/
  assertFault : ∀ {pc a thrown}, (hart.loadInsn pc a.other).1 = .error thrown →
    hart.assertInt pc a = { outcome := .ok (), state := a, flushed := false }
  execute : ∀ fetch pc, Op.Sound hart rel current (hart.execute fetch pc)
  /-- An instruction gives the address to go on with, which `dret` does not, or a sentinel. -/
  executeNpc : ∀ {fetch pc a npc}, (hart.execute fetch pc a).outcome = .ok npc →
    npc % 2 = 0 ∧ (hart.execute fetch pc a).state.singleStep = a.singleStep ∨
      npc = 3 ∨ npc = 5 ∨ npc = 7

/-- The processor on which it is an error to fetch an instruction that is not current. -/
def Hart.fenced (current : ρ → Nat → Bool) (hart : Hart ρ φ τ) : Hart ρ φ τ :=
  { hart with
    loadInsn := fun addr other =>
      if current other addr then hart.loadInsn addr other else (.error .stale, other) }

@[simp]
theorem fenced_debugMode (current : ρ → Nat → Bool) (hart : Hart ρ φ τ) :
    (hart.fenced current).debugMode = hart.debugMode := rfl

@[simp]
theorem fenced_enterDebugMode (current : ρ → Nat → Bool) (hart : Hart ρ φ τ) :
    (hart.fenced current).enterDebugMode = hart.enterDebugMode := rfl

@[simp]
theorem fenced_matchedTrigger (current : ρ → Nat → Bool) (hart : Hart ρ φ τ) :
    (hart.fenced current).matchedTrigger = hart.matchedTrigger := rfl

@[simp]
theorem fenced_action (current : ρ → Nat → Bool) (hart : Hart ρ φ τ) :
    (hart.fenced current).action = hart.action := rfl

@[simp]
theorem fenced_haltCause (current : ρ → Nat → Bool) (hart : Hart ρ φ τ) :
    (hart.fenced current).haltCause = hart.haltCause := rfl

/-- What the instruction cache holds of current instructions is what would be fetched. -/
def IcacheCoherent (hart : Hart ρ φ τ) (current : ρ → Nat → Bool) (other : ρ) (icache : Icache φ) :
    Prop :=
  ∀ slot, (icache slot).tag ≠ allOnes → (icache slot).tag % 2 = 0 ∧
    (current other (icache slot).tag = true →
      (hart.loadInsn (icache slot).tag other).1 = .ok (icache slot).data)

/-- Runs of two processors at the same point, the second of which has a coherent cache. -/
structure InStep (hart : Hart ρ φ τ) (rel : ρ → ρ → Prop) (current : ρ → Nat → Bool)
    (left right : Locals ρ φ) : Prop where
  twin : Twin rel left.state right.state
  pc : left.pc = right.pc
  instret : left.instret = right.instret
  n : left.n = right.n
  even : left.state.pc % 2 = 0
  coherent : IcacheCoherent hart current left.state.other right.icache

section

variable {hart : Hart ρ φ τ} {rel : ρ → ρ → Prop} {current : ρ → Nat → Bool}
variable {left right : Locals ρ φ}

theorem icacheCoherent_flush (other : ρ) (icache : Icache φ) :
    IcacheCoherent hart current other (flushIcache icache) :=
  fun _ tagged => absurd rfl tagged

theorem IcacheCoherent.kept {a b : ρ} {icache : Icache φ}
    (coherent : IcacheCoherent hart current a icache)
    (keeps : KeepsFetch hart current a b) : IcacheCoherent hart current b icache := by
  intro slot tagged
  obtain ⟨even, holds⟩ := coherent slot tagged
  refine ⟨even, fun isCurrent => ?_⟩
  obtain ⟨before, same⟩ := keeps _ isCurrent
  exact same.trans (holds before)

theorem IcacheCoherent.update {other : ρ} {icache : Icache φ}
    (coherent : IcacheCoherent hart current other icache) {slot : Nat} {entry : IcacheEntry φ}
    (even : entry.tag % 2 = 0) (holds : (hart.loadInsn entry.tag other).1 = .ok entry.data) :
    IcacheCoherent hart current other (Function.update icache slot entry) := by
  intro place tagged
  by_cases here : place = slot
  · subst here
    rw [Function.update_self]
    exact ⟨even, fun _ => holds⟩
  · rw [Function.update_of_ne here] at tagged ⊢
    exact coherent place tagged

/-- What a call leaves of the variables. -/
theorem Op.call_eq (op : Op τ ρ α) (locals : Locals ρ φ) :
    op.call locals =
      match (op locals.state).outcome with
      | .ok value => .ok value { locals with
          state := (op locals.state).state
          icache := if (op locals.state).flushed then flushIcache locals.icache
            else locals.icache }
      | .error thrown => .error thrown { locals with
          state := (op locals.state).state
          icache := if (op locals.state).flushed then flushIcache locals.icache
            else locals.icache } := rfl

theorem Op.call_ok {op : Op τ ρ α} {locals locals' : Locals ρ φ} {value : α}
    (called : op.call locals = .ok value locals') :
    (op locals.state).outcome = .ok value ∧
      locals' = { locals with
        state := (op locals.state).state
        icache := if (op locals.state).flushed then flushIcache locals.icache
          else locals.icache } := by
  rw [Op.call_eq] at called
  cases outcome : (op locals.state).outcome with
  | ok value' =>
      rw [outcome] at called
      cases called
      exact ⟨rfl, rfl⟩
  | error thrown =>
      rw [outcome] at called
      cases called

/-- Runs in step stay so when they call a sound part. -/
theorem Op.Sound.call {op : Op τ ρ α} (sound : Op.Sound hart rel current op)
    (related : InStep hart rel current left right) :
    Agree (InStep hart rel current) (op.call left) (op.call right) := by
  have after : InStep hart rel current
      { left with
        state := (op left.state).state
        icache := if (op left.state).flushed then flushIcache left.icache else left.icache }
      { right with
        state := (op right.state).state
        icache := if (op right.state).flushed then flushIcache right.icache
          else right.icache } := by
    refine ⟨sound.twin related.twin, related.pc, related.instret, related.n,
      sound.even related.even, ?_⟩
    dsimp only
    rw [← sound.flushed related.twin]
    by_cases flushed : (op left.state).flushed = true
    · rw [if_pos flushed]
      exact icacheCoherent_flush _ _
    · rw [if_neg flushed]
      exact related.coherent.kept (sound.keeps (Bool.not_eq_true _ ▸ flushed))
  rw [Op.call_eq, Op.call_eq, sound.outcome related.twin]
  cases (op right.state).outcome with
  | ok value => exact .ok after
  | error thrown => exact .error after

/-- A part that is called with the current address. -/
theorem InStep.callAt {op : Nat → Op τ ρ α}
    (related : InStep hart rel current left right)
    (sound : ∀ pc, Op.Sound hart rel current (op pc)) :
    Agree (InStep hart rel current) ((op left.pc).call left) ((op right.pc).call right) := by
  rw [← related.pc]
  exact (sound left.pc).call related

theorem InStep.jump (related : InStep hart rel current left right) (npc : Nat) :
    InStep hart rel current { left with pc := npc } { right with pc := npc } := by
  obtain ⟨twin, pc, instret, n, even, coherent⟩ := related
  exact ⟨twin, rfl, instret, n, even, coherent⟩

/-! ## Fetching -/

theorem Hart.load_eq (hart : Hart ρ φ τ) (addr : Nat) (locals : Locals ρ φ) :
    hart.load addr locals =
      match (hart.loadInsn addr locals.state.other).1 with
      | .ok fetch => .ok fetch { locals with
          state := { locals.state with other := (hart.loadInsn addr locals.state.other).2 } }
      | .error thrown => .error thrown { locals with
          state := { locals.state with other := (hart.loadInsn addr locals.state.other).2 } } := rfl

/-- Runs in step stay so when they both fetch. -/
theorem InStep.loaded (sound : hart.Sound rel current)
    (related : InStep hart rel current left right) (addr : Nat) :
    InStep hart rel current
      { left with
        state := { left.state with other := (hart.loadInsn addr left.state.other).2 } }
      { right with
        state := { right.state with other := (hart.loadInsn addr right.state.other).2 } } := by
  obtain ⟨twin, pc, instret, n, even, coherent⟩ := related
  exact ⟨⟨twin.pc, twin.serialized, twin.singleStep, twin.minstret,
    (sound.loadInsn twin.other addr).2⟩, pc, instret, n, even,
    coherent.kept (sound.loadKeeps left.state.other addr)⟩

/-- A fetch that succeeds is not seen by the other run. -/
theorem InStep.quiet (sound : hart.Sound rel current)
    (related : InStep hart rel current left right) {addr : Nat} {fetch : InsnFetch φ}
    (loads : (hart.loadInsn addr left.state.other).1 = .ok fetch) :
    InStep hart rel current
      { left with
        state := { left.state with other := (hart.loadInsn addr left.state.other).2 } } right := by
  obtain ⟨twin, pc, instret, n, even, coherent⟩ := related
  exact ⟨⟨twin.pc, twin.serialized, twin.singleStep, twin.minstret,
    sound.equivalence.trans (sound.equivalence.symm (sound.loadQuiet loads)) twin.other⟩,
    pc, instret, n, even, coherent.kept (sound.loadKeeps left.state.other addr)⟩

theorem load_ok {addr : Nat} {fetch : InsnFetch φ} {left' : Locals ρ φ}
    (loads : hart.load addr left = .ok fetch left') :
    left' = { left with
      state := { left.state with other := (hart.loadInsn addr left.state.other).2 } } := by
  rw [Hart.load_eq] at loads
  cases outcome : (hart.loadInsn addr left.state.other).1 with
  | ok fetch' =>
      rw [outcome] at loads
      cases loads
      rfl
  | error thrown =>
      rw [outcome] at loads
      cases loads

theorem fenced_load_current {addr : Nat} (isCurrent : current left.state.other addr = true) :
    (hart.fenced current).load addr left = hart.load addr left := by
  rw [Hart.load_eq, Hart.load_eq, Hart.fenced]
  simp only [if_pos isCurrent]

theorem fenced_load_stale {addr : Nat} (isStale : ¬ current left.state.other addr = true) :
    ∃ locals, (hart.fenced current).load addr left = .error .stale locals := by
  refine ⟨left, ?_⟩
  rw [Hart.load_eq, Hart.fenced]
  simp only [if_neg isStale]

/-- Both runs fetch, the first one only what is current. -/
theorem load_related (sound : hart.Sound rel current)
    (related : InStep hart rel current left right) (addr : Nat) :
    AgreeUnless .stale (InStep hart rel current) ((hart.fenced current).load addr left)
      (hart.load addr right) := by
  by_cases isCurrent : current left.state.other addr = true
  · right
    rw [fenced_load_current isCurrent, Hart.load_eq, Hart.load_eq,
      (sound.loadInsn related.twin.other addr).1]
    cases (hart.loadInsn addr right.state.other).1 with
    | ok fetch => exact .ok (related.loaded sound addr)
    | error thrown => exact .error (related.loaded sound addr)
  · exact Or.inl (fenced_load_stale isCurrent)

/-- Both runs fetch at the current address. -/
theorem loadAt_related (sound : hart.Sound rel current)
    (related : InStep hart rel current left right) :
    AgreeUnless .stale (InStep hart rel current) ((hart.fenced current).load left.pc left)
      (hart.load right.pc right) := by
  rw [← related.pc]
  exact load_related sound related left.pc

/-- The first run fetches what the second one has in its cache. -/
theorem load_cached (sound : hart.Sound rel current)
    (related : InStep hart rel current left right) {slot addr : Nat} (even : addr % 2 = 0)
    (tagged : (right.icache slot).tag = addr) :
    AgreeUnless .stale (InStep hart rel current) ((hart.fenced current).load addr left)
      (.ok (right.icache slot).data right) := by
  by_cases isCurrent : current left.state.other addr = true
  · right
    have some : (right.icache slot).tag ≠ allOnes := by
      intro nothing
      rw [← tagged, nothing] at even
      cases even
    have loads := (related.coherent slot some).2
    rw [tagged] at loads
    rw [fenced_load_current isCurrent, Hart.load_eq, loads isCurrent]
    exact .ok (related.quiet sound (loads isCurrent))
  · exact Or.inl (fenced_load_stale isCurrent)

/-- What is fetched into the cache, or is there already, is at the place of its address; the
other run does not see it. -/
theorem accessIcache_related (sound : hart.Sound rel current)
    (related : InStep hart rel current left right) (even : left.pc % 2 = 0) :
    (∃ slot right', hart.accessIcache right.pc right = .ok slot right' ∧
        (right'.icache slot).tag = right.pc ∧ InStep hart rel current left right') ∨
      ∃ thrown right', (hart.loadInsn left.pc left.state.other).1 = .error thrown ∧
        hart.accessIcache right.pc right = .error thrown right' ∧
          hart.load right.pc right = .error thrown right' := by
  have access : hart.accessIcache right.pc right =
      if (right.icache (icacheIndex right.pc)).tag = right.pc then
        .ok (icacheIndex right.pc) right
      else ((hart.refillIcache right.pc (icacheIndex right.pc) >>= fun _ =>
        pure (icacheIndex right.pc)) : StepM ρ φ τ Nat) right := by
    show ((if (right.icache (icacheIndex right.pc)).tag = right.pc then
      pure (icacheIndex right.pc) else _) : StepM ρ φ τ Nat) right = _
    split <;> rfl
  by_cases hit : (right.icache (icacheIndex right.pc)).tag = right.pc
  · left
    rw [if_pos hit] at access
    exact ⟨icacheIndex right.pc, right, access, hit, related⟩
  · rw [if_neg hit] at access
    have same := (sound.loadInsn related.twin.other left.pc).1
    have otherRel := (sound.loadInsn related.twin.other left.pc).2
    rw [related.pc] at same otherRel ⊢
    simp only [access, Hart.refillIcache, bind, EStateM.bind, Hart.load_eq]
    cases loads : (hart.loadInsn right.pc right.state.other).1 with
    | error thrown =>
        right
        exact ⟨thrown, _, same.trans loads, rfl, rfl⟩
    | ok fetch =>
        left
        have leftLoads : (hart.loadInsn right.pc left.state.other).1 = .ok fetch :=
          same.trans loads
        refine ⟨_, _, rfl, ?_, ?_⟩
        · show
            (Function.update right.icache (icacheIndex right.pc) _ (icacheIndex right.pc)).tag = _
          rw [Function.update_self]
        · obtain ⟨twin, pc, instret, n, evenState, coherent⟩ := related
          refine ⟨⟨twin.pc, twin.serialized, twin.singleStep, twin.minstret, ?_⟩, pc, instret, n,
            evenState, ?_⟩
          · exact sound.equivalence.trans (sound.loadQuiet leftLoads) otherRel
          · exact coherent.update (pc ▸ even) leftLoads

/-! ## One instruction -/

/-- Both runs raise an interrupt, get an instruction and execute it. -/
theorem runInsn_related (sound : hart.Sound rel current)
    (related : InStep hart rel current left right) {f g : StepM ρ φ τ (InsnFetch φ)}
    (fetches : ∀ left' right', (hart.assertInt left.pc).call left = .ok () left' →
      (hart.assertInt right.pc).call right = .ok () right' →
        InStep hart rel current left' right' →
          AgreeUnless .stale (InStep hart rel current) (f left') (g right')) :
    AgreeUnless .stale (InStep hart rel current) ((hart.fenced current).runInsn f left)
      (hart.runInsn g right) := by
  apply AgreeUnless.bind (AgreeUnless.of_agree (related.callAt sound.assertInt))
  intro _ left' right' leftAsserted rightAsserted asserted
  apply AgreeUnless.bind (fetches left' right' leftAsserted rightAsserted asserted)
  intro insn left'' right'' _ _ fetched
  apply AgreeUnless.bind (AgreeUnless.of_agree (fetched.callAt (sound.execute insn)))
  intro npc leftDone rightDone _ _ executed
  exact Or.inr (.ok (executed.jump npc))

/-- An instruction that was executed leaves the counters, and if it gives an address to go on
with, the single step. -/
theorem runInsn_ok (sound : hart.Sound rel current) {left' : Locals ρ φ}
    (ran : (hart.fenced current).runInsn (do (hart.fenced current).load (← get).pc) left =
      .ok () left') :
    left'.instret = left.instret ∧ left'.n = left.n ∧
      (left'.pc % 2 = 0 ∧ left'.state.singleStep = left.state.singleStep ∨
        left'.pc = 3 ∨ left'.pc = 5 ∨ left'.pc = 7) := by
  obtain ⟨_, _, got, ran⟩ := returns_of_bind ran
  cases got
  obtain ⟨_, asserted, asserts, ran⟩ := returns_of_bind ran
  obtain ⟨insn, fetched, fetches, ran⟩ := returns_of_bind ran
  obtain ⟨_, _, got, fetches⟩ := returns_of_bind fetches
  cases got
  obtain ⟨_, _, got, ran⟩ := returns_of_bind ran
  cases got
  obtain ⟨npc, executed, executes, ran⟩ := returns_of_bind ran
  have isAsserted := (Op.call_ok asserts).2
  have isFetched := load_ok fetches
  obtain ⟨returned, isExecuted⟩ := Op.call_ok executes
  have frame := (sound.assertFrame left.pc left.state).2
  cases ran
  subst isExecuted isFetched isAsserted
  refine ⟨rfl, rfl, ?_⟩
  rcases sound.executeNpc returned with ⟨even, kept⟩ | sentinel
  · exact Or.inl ⟨even, kept.trans frame⟩
  · exact Or.inr sentinel

/-- The first run fetches and the second one executes what it has in its cache. -/
theorem runInsn_cached (sound : hart.Sound rel current)
    (related : InStep hart rel current left right) {slot : Nat} (even : left.pc % 2 = 0)
    (tagged : (right.icache slot).tag = left.pc) :
    AgreeUnless .stale (InStep hart rel current)
      ((hart.fenced current).runInsn (do (hart.fenced current).load (← get).pc) left)
      (hart.runInsn (do return ((← get).icache slot).data) right) := by
  apply runInsn_related sound related
  intro left' right' leftAsserts rightAsserts asserted
  have isLeft := (Op.call_ok leftAsserts).2
  have isRight := (Op.call_ok rightAsserts).2
  have unflushed := (sound.assertFrame right.pc right.state).1
  apply load_cached sound asserted
  · rw [isLeft]
    exact even
  · rw [isLeft, isRight, unflushed]
    exact tagged

/-- Both runs fetch and execute. -/
theorem runInsn_fetched (sound : hart.Sound rel current)
    (related : InStep hart rel current left right) :
    AgreeUnless .stale (InStep hart rel current)
      ((hart.fenced current).runInsn (do (hart.fenced current).load (← get).pc) left)
      (hart.runInsn (do hart.load (← get).pc) right) := by
  apply runInsn_related sound related
  intro left' right' _ _ asserted
  exact loadAt_related sound asserted

theorem advancePc_eq (locals : Locals ρ φ) :
    (advancePc : StepM ρ φ τ Bool) locals =
      if locals.pc % 2 = 1 then
        if locals.pc = 3 then
          .ok false { locals with
            state := { locals.state with serialized := true }, pc := locals.state.pc }
        else if locals.pc = 5 then
          .ok false { locals with instret := locals.instret + 1, pc := locals.state.pc }
        else if locals.pc = 7 then
          .ok false { locals with
            instret := locals.instret + 1, n := locals.instret + 1, pc := locals.state.pc }
        else .error .aborted locals
      else
        .ok true { locals with
          state := { locals.state with pc := locals.pc }, instret := locals.instret + 1 } := by
  simp only [advancePc, bind, EStateM.bind, get, getThe, MonadStateOf.get, EStateM.get]
  split_ifs <;> rfl

/-- The loop goes on at an even address only. -/
theorem advancePc_true {left' : Locals ρ φ}
    (advanced : (advancePc : StepM ρ φ τ Bool) left = .ok true left') :
    left.pc % 2 = 0 ∧ left' = { left with
      state := { left.state with pc := left.pc }, instret := left.instret + 1 } := by
  rw [advancePc_eq] at advanced
  by_cases odd : left.pc % 2 = 1
  · rw [if_pos odd] at advanced
    split_ifs at advanced <;> cases advanced
  · rw [if_neg odd] at advanced
    cases advanced
    exact ⟨by omega, rfl⟩

/-- Both runs advance. -/
theorem advancePc_related (related : InStep hart rel current left right) :
    Agree (InStep hart rel current) ((advancePc : StepM ρ φ τ Bool) left) (advancePc right) := by
  obtain ⟨⟨statePc, serialized, singleStep, minstret, other⟩, pc, instret, n, even, coherent⟩ :=
    related
  rw [advancePc_eq, advancePc_eq, ← pc, ← instret, ← statePc]
  split_ifs with odd
  · exact .ok ⟨⟨statePc, rfl, singleStep, minstret, other⟩, rfl, rfl, n, even, coherent⟩
  · exact .ok ⟨⟨statePc, serialized, singleStep, minstret, other⟩, rfl, rfl, n, even, coherent⟩
  · exact .ok ⟨⟨statePc, serialized, singleStep, minstret, other⟩, rfl, rfl, rfl, even, coherent⟩
  · exact
      .error ⟨⟨statePc, serialized, singleStep, minstret, other⟩, pc, instret, n, even, coherent⟩
  · have evenPc : left.pc % 2 = 0 := by omega
    exact .ok ⟨⟨rfl, serialized, singleStep, minstret, other⟩, rfl, rfl, n, evenPc, coherent⟩

/-! ## The loops -/

theorem endStep_eq (hart : Hart ρ φ τ) (locals : Locals ρ φ) :
    hart.endStep locals =
      if locals.state.serialized = false ∧ locals.state.singleStep = .stepped then
        if hart.debugMode locals.state.other then
          .ok false { locals with state := { locals.state with singleStep := .none } }
        else (((hart.enterDebugMode .step).call >>= fun _ => pure true) : StepM ρ φ τ Bool)
          { locals with state := { locals.state with singleStep := .none } }
      else .ok false locals := by
  simp only [Hart.endStep, bind, EStateM.bind, get, getThe, MonadStateOf.get, EStateM.get]
  split_ifs <;> rfl

theorem InStep.unstepped (related : InStep hart rel current left right) :
    InStep hart rel current
      { left with state := { left.state with singleStep := .none } }
      { right with state := { right.state with singleStep := .none } } := by
  obtain ⟨twin, pc, instret, n, even, coherent⟩ := related
  exact ⟨⟨twin.pc, twin.serialized, rfl, twin.minstret, twin.other⟩, pc, instret, n, even,
    coherent⟩

/-- Both runs end a single step. -/
theorem endStep_related (sound : hart.Sound rel current)
    (related : InStep hart rel current left right) :
    Agree (InStep hart rel current) ((hart.fenced current).endStep left) (hart.endStep right) := by
  rw [endStep_eq, endStep_eq, fenced_debugMode, fenced_enterDebugMode,
    ← related.twin.serialized, ← related.twin.singleStep, ← sound.debugMode related.twin.other]
  split
  · split
    · exact .ok related.unstepped
    · apply Agree.bind ((sound.enterDebugMode .step).call related.unstepped)
      intro _ left' right' _ _ related'
      exact .ok related'
  · exact .ok related

theorem InStep.marked (related : InStep hart rel current left right) :
    InStep hart rel current (markStep left) (markStep right) := by
  unfold markStep
  rw [← related.twin.singleStep]
  split
  · obtain ⟨twin, pc, instret, n, even, coherent⟩ := related
    exact ⟨⟨twin.pc, twin.serialized, rfl, twin.minstret, twin.other⟩, pc, instret, n, even,
      coherent⟩
  · exact related

theorem slowTurn_eq (hart : Hart ρ φ τ) :
    hart.slowTurn = (hart.endStep >>= fun ended locals =>
      if ended then .ok false locals
      else ((hart.runInsn (do hart.load (← get).pc) >>= fun _ => advancePc) : StepM ρ φ τ Bool)
        (markStep locals)) := by
  funext locals
  simp only [Hart.slowTurn, bind, EStateM.bind]
  cases hart.endStep locals with
  | ok ended after => cases ended <;> rfl
  | error thrown after => rfl

/-- Without a single step the slow path only executes. -/
theorem slowTurn_steady (hart : Hart ρ φ τ) {locals : Locals ρ φ}
    (steady : locals.state.singleStep = .none) :
    hart.slowTurn locals =
      ((hart.runInsn (do hart.load (← get).pc) >>= fun _ => advancePc) : StepM ρ φ τ Bool)
        locals := by
  have noEnd : hart.endStep locals = .ok false locals := by
    rw [endStep_eq, if_neg]
    rintro ⟨-, stepped⟩
    rw [steady] at stepped
    cases stepped
  have noMark : markStep locals = locals := by
    rw [markStep, if_neg]
    rw [steady]
    exact fun stepping => by cases stepping
  rw [slowTurn_eq]
  simp only [bind, EStateM.bind, noEnd, Bool.false_eq_true, if_false, noMark]

/-- Both runs take a turn on the slow path. -/
theorem slowTurn_related (sound : hart.Sound rel current)
    (related : InStep hart rel current left right) :
    AgreeUnless .stale (InStep hart rel current) ((hart.fenced current).slowTurn left)
      (hart.slowTurn right) := by
  rw [slowTurn_eq, slowTurn_eq]
  apply AgreeUnless.bind (AgreeUnless.of_agree (endStep_related sound related))
  intro ended left' right' _ _ related'
  cases ended with
  | true => exact Or.inr (.ok related')
  | false =>
      apply AgreeUnless.bind (runInsn_fetched sound (related'.marked))
      intro _ left'' right'' _ _ related''
      exact Or.inr (advancePc_related related'')

/-- What follows a turn of the loop. -/
def goOn (turn : StepM ρ φ τ Bool) (fuel : Nat) : Bool → StepM ρ φ τ Unit
  | true => insnLoop turn fuel
  | false => pure ()

theorem insnLoop_succ (turn : StepM ρ φ τ Bool) (fuel : Nat) (locals : Locals ρ φ) :
    insnLoop turn (fuel + 1) locals =
      if locals.instret < locals.n then (turn >>= goOn turn fuel) locals else .ok () locals := by
  simp only [insnLoop, bind, EStateM.bind, get, getThe, MonadStateOf.get, EStateM.get]
  split_ifs
  · simp only [EStateM.bind]
    cases turn locals with
    | ok goesOn after => cases goesOn <;> rfl
    | error thrown after => rfl
  · rfl

/-- Both runs are on the slow path. -/
theorem slowLoop_related (sound : hart.Sound rel current) (fuel : Nat) :
    ∀ {left right : Locals ρ φ}, InStep hart rel current left right →
      AgreeUnless .stale (InStep hart rel current)
        (insnLoop (hart.fenced current).slowTurn fuel left)
        (insnLoop hart.slowTurn fuel right) := by
  induction fuel with
  | zero =>
      intro left right related
      exact Or.inr (.ok related)
  | succ fuel inductionHypothesis =>
      intro left right related
      rw [insnLoop_succ, insnLoop_succ, ← related.instret, ← related.n]
      split
      · apply AgreeUnless.bind (slowTurn_related sound related)
        intro goesOn left' right' _ _ related'
        cases goesOn with
        | true => exact inductionHypothesis related'
        | false => exact Or.inr (.ok related')
      · exact Or.inr (.ok related)

/-! ## The switch -/

/-- The loops agree for runs in step, when the first one may take so many turns. -/
def LoopsAgree (hart : Hart ρ φ τ) (rel : ρ → ρ → Prop) (current : ρ → Nat → Bool)
    (fuel : Nat) : Prop :=
  ∀ {left right : Locals ρ φ} {fastFuel : Nat}, InStep hart rel current left right →
    left.pc % 2 = 0 → left.state.singleStep = .none → left.n ≤ left.instret + fuel →
      left.n ≤ left.instret + fastFuel →
        AgreeUnless .stale (InStep hart rel current)
          (insnLoop (hart.fenced current).slowTurn fuel left)
          (insnLoop hart.fastTurn fastFuel right)

/-- A turn of the first loop and all that follow agree with the rest of a switch whose entry is
the next instruction, and with what follows the switch. -/
def SwitchAgrees (hart : Hart ρ φ τ) (rel : ρ → ρ → Prop) (current : ρ → Nat → Bool)
    (fuel : Nat) : Prop :=
  ∀ {left right : Locals ρ φ} {fastFuel cases slot : Nat}, InStep hart rel current left right →
    left.pc % 2 = 0 → left.state.singleStep = .none → left.instret < left.n →
      left.n ≤ left.instret + (fuel + 1) → left.n ≤ left.instret + (fastFuel + 1) →
        (right.icache slot).tag = left.pc →
          AgreeUnless .stale (InStep hart rel current)
            (((hart.fenced current).slowTurn >>= goOn (hart.fenced current).slowTurn fuel) left)
            ((hart.switchFrom (cases + 1) slot >>= fun _ =>
              advancePc >>= goOn hart.fastTurn fastFuel) right)

/-- The next case of the switch, when the next entry is that of the next instruction and more
than one instruction is left. -/
def Hart.nextCase (hart : Hart ρ φ τ) (cases slot : Nat) : StepM ρ φ τ Unit := fun locals =>
  if cases ≠ 0 ∧ (locals.icache (locals.icache slot).next).tag = locals.pc ∧
      locals.instret + 1 ≠ locals.n then
    hart.switchFrom cases (locals.icache slot).next { locals with
      instret := locals.instret + 1, state := { locals.state with pc := locals.pc } }
  else .ok () locals

theorem switchFrom_succ (hart : Hart ρ φ τ) (cases slot : Nat) :
    hart.switchFrom (cases + 1) slot =
      (hart.runInsn (do return ((← get).icache slot).data) >>= fun _ =>
        hart.nextCase cases slot) := by
  funext locals
  simp only [Hart.switchFrom, bind, EStateM.bind]
  split
  · simp only [Hart.nextCase, get, getThe, MonadStateOf.get, EStateM.get]
    split_ifs <;> rfl
  · rfl

theorem bind_congr_at {α β : Type} {x y : StepM ρ φ τ α} {locals locals' : Locals ρ φ}
    (same : x locals = y locals') (f : α → StepM ρ φ τ β) :
    (x >>= f) locals = (y >>= f) locals' := by
  show EStateM.bind x f locals = EStateM.bind y f locals'
  rw [EStateM.bind, EStateM.bind, same]

theorem switch_related (sound : hart.Sound rel current) {fuel : Nat}
    (loops : LoopsAgree hart rel current fuel)
    (chain : ∀ less, fuel = less + 1 → SwitchAgrees hart rel current less) :
    SwitchAgrees hart rel current fuel := by
  intro left right fastFuel cases slot related even steady running enough fastEnough tagged
  have steadyFenced := slowTurn_steady (hart.fenced current) steady
  rw [bind_congr_at steadyFenced, switchFrom_succ, bind_assoc, bind_assoc]
  apply AgreeUnless.bind (runInsn_cached sound related even tagged)
  intro _ left' right' ran _ related'
  obtain ⟨instret, n, shape⟩ := runInsn_ok sound ran
  show AgreeUnless _ _ ((advancePc >>= goOn (hart.fenced current).slowTurn fuel) left')
    ((hart.nextCase cases slot >>= fun _ => advancePc >>= goOn hart.fastTurn fastFuel) right')
  by_cases follows : cases ≠ 0 ∧
      (right'.icache (right'.icache slot).next).tag = right'.pc ∧ right'.instret + 1 ≠ right'.n
  · obtain ⟨more, next, several⟩ := follows
    rw [← related'.instret, ← related'.n] at several
    have evenPc : left'.pc % 2 = 0 ∧ left'.state.singleStep = left.state.singleStep := by
      rcases shape with kept | sentinel
      · exact kept
      · have entry := related'.coherent (right'.icache slot).next
        rw [next, ← related'.pc] at entry
        have real : left'.pc ≠ allOnes := by
          unfold allOnes
          omega
        have evenTag := (entry real).1
        omega
    obtain ⟨even', steady'⟩ := evenPc
    obtain ⟨less, rfl⟩ : ∃ less, fuel = less + 1 := ⟨fuel - 1, by omega⟩
    obtain ⟨cases, rfl⟩ : ∃ others, cases = others + 1 := ⟨cases - 1, by omega⟩
    have advanced : (advancePc : StepM ρ φ τ Bool) left' = .ok true { left' with
        state := { left'.state with pc := left'.pc }, instret := left'.instret + 1 } := by
      rw [advancePc_eq, if_neg (by omega)]
    have chained : hart.nextCase (cases + 1) slot right' =
        hart.switchFrom (cases + 1) (right'.icache slot).next { right' with
          instret := right'.instret + 1, state := { right'.state with pc := right'.pc } } := by
      rw [Hart.nextCase, if_pos]
      exact ⟨more, next, by rwa [← related'.instret, ← related'.n]⟩
    have running' : left'.instret + 1 < left'.n := by omega
    have before : (advancePc >>= goOn (hart.fenced current).slowTurn (less + 1)) left' =
        ((hart.fenced current).slowTurn >>= goOn (hart.fenced current).slowTurn less) { left' with
          state := { left'.state with pc := left'.pc }, instret := left'.instret + 1 } := by
      simp only [bind, EStateM.bind, advanced, goOn]
      exact (insnLoop_succ _ _ _).trans (if_pos running')
    rw [before, bind_congr_at chained]
    apply chain less rfl
    · obtain ⟨twin, pc, instret, n, evenState, coherent⟩ := related'
      exact ⟨⟨pc, twin.serialized, twin.singleStep, twin.minstret, twin.other⟩, pc,
        congrArg (· + 1) instret, n, even', coherent⟩
    · exact even'
    · exact steady'.trans steady
    · exact running'
    · show left'.n ≤ left'.instret + 1 + (less + 1)
      omega
    · show left'.n ≤ left'.instret + 1 + (fastFuel + 1)
      omega
    · exact next.trans related'.pc.symm
  · have left : hart.nextCase cases slot right' = (pure () : StepM ρ φ τ Unit) right' := by
      rw [Hart.nextCase, if_neg follows]
      rfl
    rw [bind_congr_at left, pure_bind]
    apply AgreeUnless.bind (AgreeUnless.of_agree (advancePc_related related'))
    intro goesOn left'' right'' advanced _ related''
    cases goesOn with
    | false => exact Or.inr (.ok related'')
    | true =>
        obtain ⟨even', rfl⟩ := advancePc_true advanced
        have steady' : left'.state.singleStep = .none := by
          rcases shape with kept | sentinel
          · exact kept.2.trans steady
          · omega
        apply loops related'' even' steady'
        · show left'.n ≤ left'.instret + 1 + fuel
          omega
        · show left'.n ≤ left'.instret + 1 + fastFuel
          omega

/-- A turn on the slow path that has no interrupt to raise and can not fetch. -/
theorem slowTurn_fault {β : Type} (hart : Hart ρ φ τ) {thrown : Thrown τ} {left' : Locals ρ φ}
    (steady : left.state.singleStep = .none)
    (silent : hart.assertInt left.pc left.state =
      { outcome := .ok (), state := left.state, flushed := false })
    (fails : hart.load left.pc left = .error thrown left') (f : Bool → StepM ρ φ τ β) :
    (hart.slowTurn >>= f) left = .error thrown left' := by
  have asserted : (hart.assertInt left.pc).call left = .ok () left := by
    rw [Op.call_eq, silent]
    rfl
  have steadyTurn := slowTurn_steady hart steady
  rw [bind_congr_at steadyTurn]
  simp only [bind, EStateM.bind, Hart.runInsn, get, getThe, MonadStateOf.get, EStateM.get, asserted,
    fails]

/-- A turn of the fast path is some turns of the slow one. -/
theorem loops_related (sound : hart.Sound rel current) {fuel : Nat}
    (switch : SwitchAgrees hart rel current fuel) : LoopsAgree hart rel current (fuel + 1) := by
  intro left right fastFuel related even steady enough fastEnough
  rw [insnLoop_succ]
  by_cases running : left.instret < left.n
  · rw [if_pos running]
    obtain ⟨fastFuel, rfl⟩ : ∃ less, fastFuel = less + 1 := ⟨fastFuel - 1, by omega⟩
    rw [insnLoop_succ, if_pos (by rwa [← related.instret, ← related.n])]
    rcases accessIcache_related sound related even with
      ⟨slot, right', accessed, tagged, related'⟩ | ⟨thrown, right', fails, accessed, loaded⟩
    · obtain ⟨cases, left_⟩ : ∃ cases, icacheEntries - icacheIndex right.pc = cases + 1 := by
        have below : icacheIndex right.pc < icacheEntries := Nat.mod_lt _ (by decide)
        exact ⟨icacheEntries - icacheIndex right.pc - 1, by omega⟩
      have turn : hart.fastTurn right =
          ((hart.switchFrom (cases + 1) slot >>= fun _ => advancePc) : StepM ρ φ τ Bool)
            right' := by
        simp only [Hart.fastTurn, bind, EStateM.bind, get, getThe, MonadStateOf.get, EStateM.get,
          accessed, left_]
      rw [bind_congr_at turn, bind_assoc]
      exact switch related' even steady running (by omega) (by omega)
        (tagged.trans related.pc.symm)
    · have turn : hart.fastTurn right = .error thrown right' := by
        simp only [Hart.fastTurn, bind, EStateM.bind, get, getThe, MonadStateOf.get, EStateM.get,
          accessed]
      have throws : (hart.fastTurn >>= goOn hart.fastTurn fastFuel) right =
          .error thrown right' := by
        simp only [bind, EStateM.bind, turn]
      have silent := sound.assertFault fails
      rw [throws]
      rcases load_related sound related left.pc with ⟨stuck, stale⟩ | both
      · exact Or.inl ⟨stuck, slowTurn_fault (hart.fenced current) steady silent stale _⟩
      · rw [related.pc, loaded, ← related.pc] at both
        cases fenced : (hart.fenced current).load left.pc left with
        | ok fetch left' =>
            rw [fenced] at both
            cases both
        | error thrown' left' =>
            rw [fenced] at both
            cases both with
            | error related' =>
                rw [slowTurn_fault (hart.fenced current) steady silent fenced]
                exact Or.inr (.error related')
  · rw [if_neg running]
    cases fastFuel with
    | zero => exact Or.inr (.ok related)
    | succ fastFuel =>
        rw [insnLoop_succ, if_neg (by rwa [← related.instret, ← related.n])]
        exact Or.inr (.ok related)

/-- The slow path and the fast path agree, as long as the first executes what is current. -/
theorem paths_related (sound : hart.Sound rel current) (fuel : Nat) :
    LoopsAgree hart rel current fuel ∧ SwitchAgrees hart rel current fuel := by
  induction fuel with
  | zero =>
      have loops : LoopsAgree hart rel current 0 := by
        intro left right fastFuel related _ _ enough _
        have ended : ¬ right.instret < right.n := by
          rw [← related.instret, ← related.n]
          omega
        cases fastFuel with
        | zero => exact Or.inr (.ok related)
        | succ fastFuel =>
            rw [insnLoop_succ, if_neg ended]
            exact Or.inr (.ok related)
      refine ⟨loops, switch_related sound loops ?_⟩
      intro less impossible
      cases impossible
  | succ fuel inductionHypothesis =>
      have loops : LoopsAgree hart rel current (fuel + 1) :=
        loops_related sound inductionHypothesis.2
      refine ⟨loops, switch_related sound loops ?_⟩
      intro less same
      cases same
      exact inductionHypothesis.2

/-! ## `step` -/

theorem enterStepped_eq (hart : Hart ρ φ τ) (locals : Locals ρ φ) :
    hart.enterStepped locals =
      if locals.state.singleStep = .stepped then
        (hart.enterDebugMode .step).call
          { locals with state := { locals.state with singleStep := .none } }
      else .ok () locals := by
  simp only [Hart.enterStepped, bind, EStateM.bind, get, getThe, MonadStateOf.get, EStateM.get]
  split_ifs <;> rfl

/-- Both runs end a single step whose instruction threw. -/
theorem enterStepped_related (sound : hart.Sound rel current)
    (related : InStep hart rel current left right) :
    Agree (InStep hart rel current) ((hart.fenced current).enterStepped left)
      (hart.enterStepped right) := by
  rw [enterStepped_eq, enterStepped_eq, fenced_enterDebugMode, ← related.twin.singleStep]
  split
  · exact (sound.enterDebugMode .step).call related.unstepped
  · exact .ok related

/-- The end of a turn that threw a trap. -/
theorem trap_related (sound : hart.Sound rel current)
    (related : InStep hart rel current left right) (trap : τ) :
    Agree (InStep hart rel current) ((hart.fenced current).handle (.trap trap) left)
      (hart.handle (.trap trap) right) := by
  apply Agree.bind (related.callAt (sound.takeTrap trap))
  intro _ left' right' _ _ related'
  have stopped : InStep hart rel current { left' with n := left'.instret }
      { right' with n := right'.instret } := by
    obtain ⟨twin, pc, instret, n, even, coherent⟩ := related'
    exact ⟨twin, pc, instret, instret, even, coherent⟩
  apply Agree.bind (enterStepped_related sound stopped)
  intro _ left'' right'' _ _ related''
  exact .ok related''

/-- The action of a trigger. -/
theorem act_related (sound : hart.Sound rel current)
    (related : InStep hart rel current left right) (index address : Nat) :
    Agree (InStep hart rel current) ((hart.fenced current).act index address left)
      (hart.act index address right) := by
  rw [Hart.act, Hart.act]
  dsimp only [bind, EStateM.bind, get, getThe, MonadStateOf.get, EStateM.get, fenced_action]
  rw [← sound.action related.twin.other]
  cases hart.action left.state.other index with
  | debugMode => exact (sound.enterDebugMode .hardwareBreakpoint).call related
  | debugException => exact related.callAt (sound.takeTrap (hart.breakpoint address))
  | other => exact .error related

/-- Both runs execute the instruction that a trigger stopped. -/
theorem restart_related (sound : hart.Sound rel current)
    (related : InStep hart rel current left right) :
    AgreeUnless .stale (InStep hart rel current) ((hart.fenced current).restart left)
      (hart.restart right) := by
  apply AgreeUnless.bind (loadAt_related sound related)
  intro insn left' right' _ _ fetched
  apply AgreeUnless.bind (AgreeUnless.of_agree (fetched.callAt (sound.execute insn)))
  intro npc left'' right'' _ _ executed
  exact Or.inr (advancePc_related (executed.jump npc))

theorem InStep.forgotten (sound : hart.Sound rel current)
    (related : InStep hart rel current left right) :
    InStep hart rel current
      { left with state := { left.state with other := hart.forgetTrigger left.state.other } }
      { right with
        state := { right.state with other := hart.forgetTrigger right.state.other } } := by
  obtain ⟨twin, pc, instret, n, even, coherent⟩ := related
  exact ⟨⟨twin.pc, twin.serialized, twin.singleStep, twin.minstret,
    sound.forgetTrigger twin.other⟩, pc, instret, n, even,
    coherent.kept (sound.forgetKeeps left.state.other)⟩

theorem handle_trigger (hart : Hart ρ φ τ) (index address : Nat) (locals : Locals ρ φ) :
    hart.handle (.triggerMatched index address) locals =
      if hart.matchedTrigger locals.state.other then
        ((hart.restart >>= fun goesOn locals' =>
          if goesOn then
            ((hart.act index address >>= fun _ => pure true) : StepM ρ φ τ Bool)
              { locals' with
                state := { locals'.state with
                  other := hart.forgetTrigger locals'.state.other } }
          else .ok false locals') : StepM ρ φ τ Bool) locals
      else ((hart.act index address >>= fun _ => pure true) : StepM ρ φ τ Bool) locals := by
  simp only [Hart.handle, bind, EStateM.bind, get, getThe, MonadStateOf.get, EStateM.get]
  split_ifs
  · simp only [EStateM.bind]
    cases hart.restart locals with
    | ok goesOn after => cases goesOn <;> rfl
    | error thrown after => rfl
  · rfl

/-- The instruction that a trigger stopped is executed, and the trigger acts. -/
theorem trigger_related (sound : hart.Sound rel current)
    (related : InStep hart rel current left right) (index address : Nat) :
    AgreeUnless .stale (InStep hart rel current)
      ((hart.fenced current).handle (.triggerMatched index address) left)
      (hart.handle (.triggerMatched index address) right) := by
  have acted : ∀ {left' right' : Locals ρ φ}, InStep hart rel current left' right' →
      AgreeUnless .stale (InStep hart rel current)
        (((hart.fenced current).act index address >>= fun _ => pure true) left')
        ((hart.act index address >>= fun _ => pure true) right') := by
    intro left' right' related'
    apply AgreeUnless.bind (AgreeUnless.of_agree (act_related sound related' index address))
    intro _ left'' right'' _ _ related''
    exact Or.inr (.ok related'')
  rw [handle_trigger, handle_trigger, fenced_matchedTrigger,
    ← sound.matchedTrigger related.twin.other]
  split
  · apply AgreeUnless.bind (restart_related sound related)
    intro goesOn left' right' _ _ related'
    cases goesOn with
    | false => exact Or.inr (.ok related')
    | true => exact acted (related'.forgotten sound)
  · exact acted related

/-- Whatever a turn throws is handled alike. -/
theorem handle_related (sound : hart.Sound rel current)
    (related : InStep hart rel current left right) (thrown : Thrown τ) :
    AgreeUnless .stale (InStep hart rel current) ((hart.fenced current).handle thrown left)
      (hart.handle thrown right) := by
  cases thrown with
  | trap trap => exact Or.inr (trap_related sound related trap)
  | triggerMatched index address => exact trigger_related sound related index address
  | waitForInterrupt =>
      obtain ⟨twin, pc, instret, n, even, coherent⟩ := related
      exact Or.inr (.ok ⟨twin, pc, instret, instret, even, coherent⟩)
  | aborted => exact Or.inr (.error related)
  | stale => exact Or.inr (.error related)

/-- Both runs catch what is thrown. -/
theorem attempt_related (sound : hart.Sound rel current) {body body' : StepM ρ φ τ Unit}
    (agree : AgreeUnless .stale (InStep hart rel current) (body left) (body' right)) :
    AgreeUnless .stale (InStep hart rel current)
      (attempt body (hart.fenced current).handle left) (attempt body' hart.handle right) := by
  simp only [attempt]
  rcases agree with ⟨stuck, stale⟩ | agree
  · rw [stale]
    exact Or.inl ⟨stuck, rfl⟩
  · cases first : body left with
    | ok _ left' =>
        rw [first] at agree
        cases second : body' right with
        | ok _ right' =>
            rw [second] at agree
            cases agree with
            | ok related => exact Or.inr (.ok related)
        | error thrown right' =>
            rw [second] at agree
            cases agree
    | error thrown left' =>
        rw [first] at agree
        cases second : body' right with
        | ok _ right' =>
            rw [second] at agree
            cases agree
        | error thrown' right' =>
            rw [second] at agree
            cases agree with
            | error related => exact handle_related sound related thrown

/-- The first run takes the slow path, and the other either path. -/
theorem body_related (sound : hart.Sound rel current) (debug : Bool)
    (related : InStep hart rel current left right) (even : left.pc % 2 = 0) :
    AgreeUnless .stale (InStep hart rel current) ((hart.fenced current).body true left)
      (hart.body debug right) := by
  apply AgreeUnless.bind (AgreeUnless.of_agree (sound.takePendingInterrupt.call related))
  intro _ left' right' taken _ related'
  have samePc : left'.pc = left.pc := by
    rw [(Op.call_ok taken).2]
  show AgreeUnless _ _ (insnLoop (hart.fenced current).slowTurn left'.n left')
    ((if hart.slowPath debug right'.state then insnLoop hart.slowTurn right'.n
      else insnLoop hart.fastTurn right'.n) right')
  rw [← related'.n]
  by_cases slow : hart.slowPath debug right'.state = true
  · rw [if_pos slow]
    exact slowLoop_related sound left'.n related'
  · rw [if_neg slow]
    have steady : left'.state.singleStep = .none := by
      rw [related'.twin.singleStep]
      by_contra stepping
      simp [Hart.slowPath, stepping] at slow
    exact (paths_related sound left'.n).1 related' (samePc ▸ even) steady (by omega) (by omega)

/-- A turn of the outer loop. -/
theorem stepTurn_related (sound : hart.Sound rel current) (debug : Bool)
    (related : InStep hart rel current left right) :
    AgreeUnless .stale (InStep hart rel current) ((hart.fenced current).stepTurn true left)
      (hart.stepTurn debug right) := by
  have begun : InStep hart rel current { left with instret := 0, pc := left.state.pc }
      { right with instret := 0, pc := right.state.pc } := by
    obtain ⟨twin, pc, instret, n, even, coherent⟩ := related
    exact ⟨twin, twin.pc, rfl, n, even, coherent⟩
  have tried := attempt_related sound (body_related sound debug begun related.even)
  apply AgreeUnless.bind (x := modify _) (y := modify _) (Or.inr (Agree.ok begun))
  intro _ left' right' started started' _
  cases started
  cases started'
  apply AgreeUnless.bind tried
  intro goesOn left' right' _ _ related'
  cases goesOn with
  | false => exact Or.inr (.ok related')
  | true =>
      obtain ⟨twin, pc, instret, n, even, coherent⟩ := related'
      refine Or.inr (.ok ⟨⟨twin.pc, twin.serialized, twin.singleStep, ?_, twin.other⟩, pc, instret,
        ?_, even, coherent⟩)
      · show (left'.state.minstret + left'.instret) % 2 ^ 64 = _
        rw [twin.minstret, instret]
      · show left'.n - left'.instret = right'.n - right'.instret
        rw [n, instret]

theorem turns_succ (debug : Bool) (hart : Hart ρ φ τ) (fuel : Nat) (locals : Locals ρ φ) :
    hart.turns debug (fuel + 1) locals =
      if 0 < locals.n then
        ((hart.stepTurn debug >>= fun goesOn =>
          if goesOn then hart.turns debug fuel else pure true) : StepM ρ φ τ Bool) locals
      else .ok true locals := by
  simp only [Hart.turns, bind, EStateM.bind, get, getThe, MonadStateOf.get, EStateM.get]
  split_ifs <;> rfl

/-- The outer loop. -/
theorem turns_related (sound : hart.Sound rel current) (debug : Bool) (fuel : Nat) :
    ∀ {left right : Locals ρ φ}, InStep hart rel current left right →
      AgreeUnless .stale (InStep hart rel current) ((hart.fenced current).turns true fuel left)
        (hart.turns debug fuel right) := by
  induction fuel with
  | zero =>
      intro left right related
      show AgreeUnless _ _ (.ok (decide (left.n = 0)) left) (.ok (decide (right.n = 0)) right)
      rw [related.n]
      exact Or.inr (.ok related)
  | succ fuel inductionHypothesis =>
      intro left right related
      rw [turns_succ, turns_succ, ← related.n]
      split
      · apply AgreeUnless.bind (stepTurn_related sound debug related)
        intro goesOn left' right' _ _ related'
        cases goesOn with
        | true => exact inductionHypothesis related'
        | false => exact Or.inr (.ok related')
      · exact Or.inr (.ok related)

/-- The debug mode that was asked for. -/
theorem enterHalted_related (sound : hart.Sound rel current)
    (related : InStep hart rel current left right) :
    Agree (InStep hart rel current) ((hart.fenced current).enterHalted left)
      (hart.enterHalted right) := by
  have sameCause : hart.haltCause left.state.other = hart.haltCause right.state.other := by
    rw [Hart.haltCause, Hart.haltCause, sound.debugMode related.twin.other,
      sound.haltRequest related.twin.other, sound.dcsrHalt related.twin.other]
  rw [Hart.enterHalted, Hart.enterHalted]
  dsimp only [bind, EStateM.bind, get, getThe, MonadStateOf.get, EStateM.get, fenced_haltCause]
  rw [sameCause]
  cases hart.haltCause right.state.other with
  | some cause => exact (sound.enterDebugMode cause).call related
  | none => exact .ok related

/-- A call of `step`. -/
theorem step_related (sound : hart.Sound rel current) (debug : Bool) (fuel n : Nat)
    (related : InStep hart rel current left right) :
    AgreeUnless .stale (InStep hart rel current) ((hart.fenced current).step true fuel n left)
      (hart.step debug fuel n right) := by
  have begun : InStep hart rel current { left with n } { right with n } := by
    obtain ⟨twin, pc, instret, -, even, coherent⟩ := related
    exact ⟨twin, pc, instret, rfl, even, coherent⟩
  have entered := AgreeUnless.bind
    (AgreeUnless.of_agree (enterHalted_related sound begun) : AgreeUnless Thrown.stale _ _ _)
    (f := fun _ => (hart.fenced current).turns true fuel) (g := fun _ => hart.turns debug fuel)
    (fun _ _ _ _ _ related' => turns_related sound debug fuel related')
  exact entered

/-! ## Agreement -/

/-- Two points of runs that differ at most in the caches, both of which are coherent. -/
structure Twins (hart : Hart ρ φ τ) (rel : ρ → ρ → Prop) (current : ρ → Nat → Bool)
    (slow fast : Locals ρ φ) : Prop where
  twin : Twin rel slow.state fast.state
  pc : slow.pc = fast.pc
  instret : slow.instret = fast.instret
  n : slow.n = fast.n
  even : slow.state.pc % 2 = 0
  coherentSlow : IcacheCoherent hart current slow.state.other slow.icache
  coherentFast : IcacheCoherent hart current fast.state.other fast.icache

theorem IcacheCoherent.of_rel (sound : hart.Sound rel current) {a b : ρ} (same : rel a b)
    {icache : Icache φ} (coherent : IcacheCoherent hart current a icache) :
    IcacheCoherent hart current b icache := by
  intro slot tagged
  rw [← sound.sameCurrent same, ← (sound.loadInsn same _).1]
  exact coherent slot tagged

theorem InStep.twins (sound : hart.Sound rel current) {slow fast : Locals ρ φ}
    (toSlow : InStep hart rel current left slow) (toFast : InStep hart rel current left fast) :
    Twins hart rel current slow fast := by
  constructor
  · constructor
    · exact toSlow.twin.pc.symm.trans toFast.twin.pc
    · exact toSlow.twin.serialized.symm.trans toFast.twin.serialized
    · exact toSlow.twin.singleStep.symm.trans toFast.twin.singleStep
    · exact toSlow.twin.minstret.symm.trans toFast.twin.minstret
    · exact sound.equivalence.trans (sound.equivalence.symm toSlow.twin.other) toFast.twin.other
  · exact toSlow.pc.symm.trans toFast.pc
  · exact toSlow.instret.symm.trans toFast.instret
  · exact toSlow.n.symm.trans toFast.n
  · rw [← toSlow.twin.pc]
    exact toSlow.even
  · exact toSlow.coherent.of_rel sound toSlow.twin.other
  · exact toFast.coherent.of_rel sound toFast.twin.other

end

/-! ## A program that changes itself -/

/-- Equal processors are twins of themselves only. -/
theorem eq_of_twin {a b : HartState ρ} (twin : Twin (· = ·) a b) : a = b := by
  obtain ⟨pc, serialized, singleStep, minstret, other⟩ := a
  obtain ⟨rfl, rfl, rfl, rfl, rfl⟩ := twin
  rfl

/-- A processor without caches of its own has nothing to hide. -/
theorem Op.sound_of_eq {hart : Hart ρ φ τ} {current : ρ → Nat → Bool} {op : Op τ ρ α}
    (even : ∀ {a}, a.pc % 2 = 0 → (op a).state.pc % 2 = 0)
    (keeps : ∀ {a}, (op a).flushed = false →
      KeepsFetch hart current a.other (op a).state.other) :
    Op.Sound hart (· = ·) current op where
  outcome twin := by rw [eq_of_twin twin]
  flushed twin := by rw [eq_of_twin twin]
  twin twin := by
    rw [eq_of_twin twin]
    exact ⟨rfl, rfl, rfl, rfl, rfl⟩
  even := even
  keeps := keeps

/-- The instructions of a small program. -/
inductive PatchFunc
  | patch
  | fence
  | add (value : Nat)
  | jump
deriving DecidableEq, Repr

/-- Whether the program has been changed, whether it has been since the last fence, and a sum. -/
structure PatchState where
  patched : Bool
  dirty : Bool
  sum : Nat
deriving DecidableEq, Repr

/-- The program changes the number that it adds, and executes a fence before it adds. -/
def patchFunc (patched : Bool) (addr : Nat) : PatchFunc :=
  if addr = 0 then .patch
  else if addr = 4 then .fence
  else if addr = 8 then .add (if patched then 2 else 1)
  else .jump

/-- What an instruction of the program does. -/
def patchExecute (func : PatchFunc) (pc : Nat) : Op Unit PatchState Nat := fun state =>
  match func with
  | .patch =>
      { outcome := .ok (pc / 2 * 2 + 4)
        state := { state with other := { state.other with patched := true, dirty := true } }
        flushed := false }
  | .fence =>
      { outcome := .ok (pc / 2 * 2 + 4)
        state := { state with other := { state.other with dirty := false } }
        flushed := true }
  | .add value =>
      { outcome := .ok (pc / 2 * 2 + 4)
        state := { state with other := { state.other with sum := state.other.sum + value } }
        flushed := false }
  | .jump => { outcome := .ok 0, state, flushed := false }

/-- A part that does nothing. -/
def idle : Op Unit PatchState Unit := fun state => { outcome := .ok (), state, flushed := false }

/-- A processor that executes the program. -/
def patchHart : Hart PatchState PatchFunc Unit where
  debugMode := fun _ => false
  haltRequest := fun _ => .none
  dcsrHalt := fun _ => false
  takePendingInterrupt := idle
  assertInt := fun _ => idle
  loadInsn := fun addr other => (.ok { func := patchFunc other.patched addr, insn := 0x13 }, other)
  execute := fun fetch pc => patchExecute fetch.func pc
  takeTrap := fun _ _ => idle
  enterDebugMode := fun _ => idle
  matchedTrigger := fun _ => false
  forgetTrigger := fun other => other
  action := fun _ _ => .other
  breakpoint := fun _ => ()

/-- Between the change and the fence the addition is not current. -/
def patchCurrent (other : PatchState) (addr : Nat) : Bool :=
  !other.dirty || addr ≠ 8

theorem patch_keepsFetch {a b : PatchState}
    (same : a.patched = b.patched ∧ a.dirty = b.dirty ∨ b.dirty = true) :
    KeepsFetch patchHart patchCurrent a b := by
  intro addr isCurrent
  rcases same with ⟨patched, dirty⟩ | dirty
  · simp only [patchCurrent, patchHart, patched, dirty] at isCurrent ⊢
    exact ⟨isCurrent, trivial⟩
  · have other : addr ≠ 8 := by simpa [patchCurrent, dirty] using isCurrent
    simp [patchCurrent, patchHart, patchFunc, other]

theorem idle_sound : Op.Sound patchHart (· = ·) patchCurrent idle :=
  Op.sound_of_eq id fun _ => patch_keepsFetch (Or.inl ⟨rfl, rfl⟩)

theorem patchExecute_sound (func : PatchFunc) (pc : Nat) :
    Op.Sound patchHart (· = ·) patchCurrent (patchExecute func pc) := by
  apply Op.sound_of_eq
  · intro a even
    cases func <;> exact even
  · intro a unflushed
    cases func with
    | patch => exact patch_keepsFetch (Or.inr rfl)
    | fence => cases unflushed
    | add value => exact patch_keepsFetch (Or.inl ⟨rfl, rfl⟩)
    | jump => exact patch_keepsFetch (Or.inl ⟨rfl, rfl⟩)

theorem patchHart_sound : patchHart.Sound (· = ·) patchCurrent where
  equivalence := eq_equivalence
  debugMode _ := rfl
  haltRequest _ := rfl
  dcsrHalt _ := rfl
  matchedTrigger _ := rfl
  action _ := rfl
  sameCurrent same := congrArg patchCurrent same
  forgetTrigger same := same
  forgetKeeps _ := patch_keepsFetch (Or.inl ⟨rfl, rfl⟩)
  loadInsn same addr := by
    subst same
    exact ⟨rfl, rfl⟩
  loadKeeps _ _ := patch_keepsFetch (Or.inl ⟨rfl, rfl⟩)
  loadQuiet _ := rfl
  takePendingInterrupt := idle_sound
  takeTrap _ _ := idle_sound
  enterDebugMode _ := idle_sound
  assertInt _ := idle_sound
  assertFrame _ _ := ⟨rfl, rfl⟩
  assertFault fails := by cases fails
  execute fetch pc := patchExecute_sound fetch.func pc
  executeNpc {fetch pc a npc} returned := by
    left
    obtain ⟨func, insn⟩ := fetch
    cases func <;> cases returned <;> exact ⟨by omega, rfl⟩

/-- The program is about to start, and the cache is empty. -/
def patchStart : Locals PatchState PatchFunc where
  state :=
    { pc := 0
      serialized := false
      singleStep := .none
      minstret := 0
      other := { patched := false, dirty := false, sum := 0 } }
  icache := fun _ => { tag := allOnes, next := 0, data := { func := .jump, insn := 0 } }
  pc := 0
  instret := 0
  n := 0

end Difftest.Spike
