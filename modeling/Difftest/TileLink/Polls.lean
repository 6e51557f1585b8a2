import Difftest.TileLink.Atomic
import Difftest.TileLink.Ledger
import Difftest.TileLink.Touched

/-!
# Polls of `tohost`

The host asks for the block of `tohost` again and again, and `host_interface` probes it unless
a grant of the block waits for its acknowledgement.  The guard compares the polled address
itself with the addresses of the granted blocks, which are rounded.  So it works exactly when
`tohost` is the address of a block.
-/

namespace Difftest.TileLink

variable (config : Config)

/-- The next turn of `host_interface` issues a probe. -/
def Issues (s : State) : Prop :=
  s.probeEn = true ∧ ∃ s', step config s .host = some s' ∧ s'.probeEn = false

/-- No sink is recorded for the block of an address. -/
def Acknowledged (s : State) (addr : Nat) : Prop :=
  config.blockAddr addr ∉ s.ongoingTlc.values

/-- The events of a run in which the host polls one address only. -/
def PollsOnly (tohost : Nat) (events : List Event) : Prop :=
  ∀ addr, .probeBlock addr ∈ events → addr = tohost

/-- In every run from the start of the adapter, in which the host polls `tohost` any number of
times, a probe is issued only when no grant of its block is unacknowledged. -/
def PollsGuarded (tohost : Nat) : Prop :=
  ∀ (memory : Dict Nat Nat) (draws : List Nat) (events : List Event) (s : State),
    PollsOnly tohost events → run config ((State.init draws).start config memory) events = some s →
      Issues config s → Acknowledged config s tohost

section Guard

variable {s s' : State} {tohost : Nat}

/-- A probe is issued only when the polled address is not recorded. -/
theorem Issues.guard (issues : Issues config s) :
    s.probe = true ∧ s.probeAddr ∉ s.ongoingTlc.values := by
  rcases issues with ⟨enabled, s', stepped, disabled⟩
  have unchanged : s' ≠ s := by
    rintro rfl
    rw [enabled] at disabled
    cases disabled
  rw [step] at stepped
  split at stepped
  · rw [hostInterface] at stepped
    split at stepped
    · rename_i guard
      exact ⟨guard.1, guard.2.2⟩
    · exact absurd (Option.some.inj stepped).symm unchanged
  · exact absurd (Option.some.inj stepped).symm unchanged

/-- The requested address is that of the polls. -/
def Requests (tohost : Nat) (s : State) : Prop := s.probe = true → s.probeAddr = tohost

theorem step_requests {event : Event} (coherent : config.protocol = tlC)
    (stepped : step config s event = some s') (only : PollsOnly tohost [event])
    (requests : Requests tohost s) : Requests tohost s' := by
  by_cases asked : ∃ addr, event = .probeBlock addr
  · rcases asked with ⟨addr, rfl⟩
    cases stepped
    exact fun _ => only addr List.mem_cons_self
  · rcases step_extends config coherent stepped fun addr isAsked => asked ⟨addr, isAsked⟩
      with ⟨added, _, _, extends'⟩
    intro polled
    rcases extends'.polling polled with ⟨before, same⟩
    exact same.trans (requests before)

theorem run_requests {events : List Event} (coherent : config.protocol = tlC)
    (ran : run config s events = some s') (only : PollsOnly tohost events)
    (requests : Requests tohost s) : Requests tohost s' := by
  induction events generalizing s with
  | nil =>
      cases ran
      exact requests
  | cons event events inductionHypothesis =>
      rcases Option.bind_eq_some_iff.mp ran with ⟨next, stepped, rest⟩
      have first : PollsOnly tohost [event] := by
        intro addr mem
        rw [List.mem_singleton] at mem
        exact only addr (mem ▸ List.mem_cons_self)
      exact inductionHypothesis rest (fun addr mem => only addr (List.mem_cons_of_mem event mem))
        (step_requests config coherent stepped first requests)

end Guard

/-! ## An unguarded poll -/

/-- The core acquires the trunk of the block of an address. -/
def acquireTrunk (addr : Nat) : AMessage where
  opcode := .acquireBlock
  param := nToT
  size := config.probeSize
  source := 0
  address := config.blockAddr addr
  mask := config.probeMask
  data := 0

/-- The block is granted and polled before the grant is acknowledged. -/
def earlyPoll (addr : Nat) : List Event :=
  [.aFire (acquireTrunk config addr), .dPop, .probeBlock addr]

/-- All lanes are contiguous. -/
theorem contiguous_probeMask : contiguous config.probeMask = true := by
  rw [Config.probeMask, contiguous, decide_eq_true_eq]
  rcases Nat.eq_zero_or_pos config.bDataBytes with none | some
  · rw [none, Nat.pow_zero, Nat.sub_self, Nat.zero_and]
  · have lowest := @lowestBit_laneMask 0 _ some
    rw [laneMask_eq, Nat.pow_zero, Nat.mul_one] at lowest
    have one : 1 ≤ 2 ^ config.bDataBytes := Nat.one_le_two_pow
    rw [lowest, Nat.sub_add_cancel one]
    apply Nat.eq_of_testBit_eq
    intro i
    rw [Nat.testBit_and, Nat.testBit_two_pow_sub_one, Nat.testBit_two_pow, Nat.zero_testBit]
    by_cases low : i < config.bDataBytes
    · simp [low.ne']
    · simp [low]

theorem aAssertions_acquireTrunk (blocks : config.PowerOfTwoBlocks) (addr : Nat) :
    aAssertions config.debug (acquireTrunk config addr) = true := by
  rcases blocks with ⟨_, m, _, _, size⟩
  have aligned : alignedTo (config.blockAddr addr) config.probeSize = true := by
    rw [alignedTo, decide_eq_true_eq, Config.blockAddr, Config.probeSize, size,
      ldiff_two_pow_sub_one, Nat.log2_two_pow, Nat.mul_mod_left]
  rw [aAssertions]
  cases config.debug with
  | false => rfl
  | true =>
      simp only [if_true, acquireTrunk, aligned, contiguous_probeMask]
      rfl

section EarlyPoll

variable (addr : Nat)

/-- The adapter after the block was granted and the poll was asked for. -/
def polledState (memory : Dict Nat Nat) (message : DMessage) (rest : List DEntry) : State :=
  { (State.init []).start config Dict.empty with
    memory
    blockPerm := (Dict.empty.set (config.blockAddr addr) tip).set (config.blockAddr addr) trunk
    dQueue := rest
    dDriving := some message
    dSinks := ⟨List.range 4, [1, 2, 3], []⟩
    ongoingTlc := Dict.empty.set 0 (config.blockAddr addr)
    probe := true
    probeAddr := addr }

theorem run_earlyPoll (coherent : config.protocol = tlC) (blocks : config.PowerOfTwoBlocks) :
    ∃ memory message rest,
      run config ((State.init []).start config Dict.empty) (earlyPoll config addr) =
        some (polledState config addr memory message rest) := by
  let started := (State.init []).start config Dict.empty
  let block := config.blockAddr addr
  let sinks : FreeList Empty := ⟨List.range 4, [1, 2, 3], []⟩
  let entered := { started.enterBlock block with
    draws := []
    dSinks := sinks
    ongoingTlc := Dict.empty.set 0 block }
  rcases State.pushWords_eq config (grantData toT config.probeSize 0 0)
    (some (.updatePerm block toT)) (config.burstLen config.probeSize)
    (config.addrAligned block) entered with ⟨memory, _, pushed⟩
  rcases Nat.exists_eq_succ_of_ne_zero (@burstLen_pos config config.probeSize).ne'
    with ⟨more, several⟩
  have fired : step config started (.aFire (acquireTrunk config addr)) =
      some ((entered.setMemory memory).pushD
        (wordEntries config (grantData toT config.probeSize 0 0) (some (.updatePerm block toT))
          (config.burstLen config.probeSize) (config.addrAligned block) entered.word)) := by
    have drive : started.drive = true := rfl
    have alone : notInterleaved started.aOngoings (acquireTrunk config addr).source = true := rfl
    have isTip : ¬ (started.enterBlock block).perm block ≠ tip := by
      rw [State.perm_enterBlock]
      exact not_not.mpr rfl
    rw [← pushed, step, if_pos drive, aPortMonitor,
      if_pos ⟨aAssertions_acquireTrunk config blocks addr, alone⟩]
    change (if config.protocol = tlC then acquireBlock config (acquireTrunk config addr)
      (started.enterBlock (config.blockAddr block)) else _) = _
    rw [if_pos coherent, blockAddr_blockAddr]
    change (if (started.enterBlock block).perm (config.blockAddr block) ≠ tip then _ else
      some (({ started.enterBlock block with draws := [], dSinks := sinks } : State).pushGrantData
        config _ _ _ _ _ _ (config.blockAddr block))) = _
    rw [blockAddr_blockAddr, if_neg isTip]
    rfl
  have first : ∃ message rest, wordEntries config (grantData toT config.probeSize 0 0)
      (some (.updatePerm block toT)) (config.burstLen config.probeSize) (config.addrAligned block)
        entered.word = (some message, some (.updatePerm block toT)) :: rest := by
    rw [wordEntries_eq_map, several, List.range_succ_eq_map, List.map_cons, if_pos rfl]
    exact ⟨_, _, rfl⟩
  rcases first with ⟨message, rest, queue⟩
  refine ⟨memory, message, rest, ?_⟩
  rw [earlyPoll, run, fired, queue]
  rfl

theorem issues_polledState (unaligned : config.blockAddr addr ≠ addr) (memory : Dict Nat Nat)
    (message : DMessage) (rest : List DEntry) :
    Issues config (polledState config addr memory message rest) := by
  have guard : addr ∉ (Dict.empty.set 0 (config.blockAddr addr) : Dict Nat Nat).values := by
    rw [show (Dict.empty.set 0 (config.blockAddr addr) : Dict Nat Nat).values =
      [config.blockAddr addr] from rfl, List.mem_singleton]
    exact unaligned.symm
  have held : ((Dict.empty.set (config.blockAddr addr) tip).set (config.blockAddr addr) trunk).get?
      (config.blockAddr addr) = some trunk := Dict.get?_set_self _ _ _
  have drive : (polledState config addr memory message rest).drive = true := rfl
  refine ⟨rfl, ?_⟩
  rw [step, if_pos drive, hostInterface, if_pos ⟨rfl, rfl, guard⟩]
  simp only [polledState]
  rw [held]
  exact ⟨_, rfl, rfl⟩

theorem not_acknowledged_polledState (memory : Dict Nat Nat) (message : DMessage)
    (rest : List DEntry) : ¬ Acknowledged config (polledState config addr memory message rest) addr :=
  fun acknowledged => acknowledged List.mem_cons_self

end EarlyPoll

/-! ## The condition -/

/-- The polls are guarded exactly when `tohost` is the address of a block. -/
theorem pollsGuarded_iff (coherent : config.protocol = tlC) (blocks : config.PowerOfTwoBlocks)
    (tohost : Nat) : PollsGuarded config tohost ↔ config.blockAddr tohost = tohost := by
  constructor
  · intro guarded
    by_contra unaligned
    rcases run_earlyPoll config tohost coherent blocks with ⟨memory, message, rest, ran⟩
    have only : PollsOnly tohost (earlyPoll config tohost) := by
      intro addr mem
      simpa [earlyPoll] using mem
    have acknowledged := guarded Dict.empty [] _ _ only ran
      (issues_polledState config tohost unaligned memory message rest)
    exact not_acknowledged_polledState config tohost memory message rest acknowledged
  · intro aligned memory draws events s only ran issues
    rcases issues.guard with ⟨requested, absent⟩
    have initially : Requests tohost ((State.init draws).start config memory) := nofun
    have same := run_requests config coherent ran only initially requested
    rw [Acknowledged, aligned, ← same]
    exact absent

theorem pollsGuarded_iff_tile :
    PollsGuarded tileConfig 0x80001040 ↔ tileConfig.blockAddr 0x80001040 = 0x80001040 :=
  pollsGuarded_iff tileConfig rfl ⟨3, 6, by decide, rfl, rfl⟩ 0x80001040

/-- A poll of an address inside a block goes through while the grant is unacknowledged. -/
theorem unaligned_poll :
    ∃ s, run tileConfig ((State.init []).start tileConfig Dict.empty)
        (earlyPoll tileConfig 0x80001008) = some s ∧
      Issues tileConfig s ∧ ¬ Acknowledged tileConfig s 0x80001008 := by
  rcases run_earlyPoll tileConfig 0x80001008 rfl ⟨3, 6, by decide, rfl, rfl⟩
    with ⟨memory, message, rest, ran⟩
  have unaligned : tileConfig.blockAddr 0x80001008 ≠ 0x80001008 := by decide +kernel
  exact ⟨_, ran, issues_polledState tileConfig _ unaligned memory message rest,
    not_acknowledged_polledState tileConfig _ memory message rest⟩

end Difftest.TileLink
