import Difftest.TileLink.Sweep

/-!
# Stores reach memory

A word the core stored to is either in memory or dirty, and dirty words lie in
blocks the core holds.  A burst of data cleans its block word by word, so a block
is clean when it is given up.
-/

namespace Difftest.TileLink

variable {config : Config}

/-! ## What moves leave alone -/

/-- Memory and the channel C counters are the same. -/
def View.SameStore (v v' : View) : Prop := v'.word = v.word ∧ v'.cOngoings = v.cOngoings

section Frame

variable {v v' : View}

theorem View.Retrieves.sameStore {retrieval : Retrieval} (retrieved : v.Retrieves retrieval v') :
    v.SameStore v' := by
  cases retrieved with
  | waits => exact ⟨rfl, rfl⟩
  | sends => exact ⟨rfl, rfl⟩

theorem View.Calls.sameStore {callback : Callback} (called : View.Calls config callback v v') :
    v.SameStore v' := by
  cases called with
  | answers => exact ⟨rfl, rfl⟩
  | grants => exact ⟨rfl, rfl⟩
  | sweeps addr rest retrieved => exact retrieved.sameStore
  | stops => exact ⟨rfl, rfl⟩

theorem View.Answers.sameStore {src : Nat} (answered : View.Answers config src v v') :
    v.SameStore v' := by
  obtain ⟨called, taken, released⟩ := answered
  have takes : v.SameStore called := by
    cases taken with
    | empty => exact ⟨rfl, rfl⟩
    | runs found ran => exact ran.sameStore
  cases released with
  | rests => exact takes
  | serves => exact takes

theorem View.returns_sameStore (msg : CMessage) (v : View) : v.SameStore (v.returns config msg) := by
  rw [View.returns]
  split
  · exact ⟨rfl, rfl⟩
  · exact ⟨rfl, rfl⟩

theorem View.Pops.sameStore (popped : v.Pops v') : v.SameStore v' := by
  cases popped with
  | waits => exact ⟨rfl, rfl⟩
  | bubble => exact ⟨rfl, rfl⟩
  | plain => exact ⟨rfl, rfl⟩
  | grant =>
      split
      · exact ⟨rfl, rfl⟩
      · exact ⟨rfl, rfl⟩

theorem View.Accepts.cOngoings {msg : AMessage} (accepted : v.Accepts config msg v') :
    v'.cOngoings = v.cOngoings := by
  cases accepted with
  | answers => rfl
  | writes => rfl
  | retrieves retrieval plain retrieved => exact retrieved.sameStore.2
  | grants => rfl
  | grantsLater sink opcode retrieval callback retrieved => exact retrieved.sameStore.2
  | grantsPerm => rfl

/-- A beat of channel C with data is stored and counted; others leave memory
alone. -/
theorem View.Receives.store {msg : CMessage} (received : v.Receives config msg v') :
    if msg.opcode.carriesData then ((v.storeBeat config msg).countBeat config msg).SameStore v'
    else v.SameStore v' := by
  cases received with
  | reserved opcode =>
      rw [opcode]
      exact ⟨rfl, rfl⟩
  | probeAck opcode answered =>
      rw [opcode]
      have returned := @View.returns_sameStore config msg v
      exact ⟨answered.sameStore.1.trans returned.1, answered.sameStore.2.trans returned.2⟩
  | release opcode =>
      rw [opcode]
      exact View.returns_sameStore msg v
  | beat opcode more =>
      have data : msg.opcode.carriesData = true := by
        rcases opcode with answer | release
        · rw [answer]
          rfl
        · rw [release]
          rfl
      rw [if_pos data]
      exact ⟨rfl, rfl⟩
  | probeAckData opcode last answered =>
      rw [opcode]
      have returned := @View.returns_sameStore config msg (v.storeBeat config msg)
      have counts := answered.sameStore.2.trans returned.2
      exact ⟨answered.sameStore.1.trans returned.1,
        congrArg (TileLink.countBeat (config.burstLen msg.size) msg.source) counts⟩
  | releaseData opcode last =>
      rw [opcode]
      have returned := @View.returns_sameStore config msg (v.storeBeat config msg)
      exact ⟨returned.1,
        congrArg (TileLink.countBeat (config.burstLen msg.size) msg.source) returned.2⟩

end Frame

/-! ## Words of a block -/

/-- A word of a block is one of its `blockLen` words. -/
theorem exists_word_of_blockAddr (blocks : config.PowerOfTwoBlocks) {addr block : Nat}
    (aligned : config.dataBytes ∣ addr) (inside : config.blockAddr addr = block) :
    ∃ i < config.blockLen, addr = block + i * config.dataBytes := by
  rcases blocks with ⟨k, m, k_le, width, size⟩
  obtain ⟨index, rfl⟩ := aligned
  have words : 2 ^ m = 2 ^ k * 2 ^ (m - k) := by
    rw [← Nat.pow_add, Nat.add_sub_cancel' k_le]
  refine ⟨index % 2 ^ (m - k), ?_, ?_⟩
  · rw [Config.blockLen, size, width, Nat.pow_div k_le (by decide)]
    exact Nat.mod_lt index (by positivity)
  · rw [← inside, Config.blockAddr, size, width, ldiff_two_pow_sub_one, words,
      Nat.mul_div_mul_left index _ (by positivity)]
    calc 2 ^ k * index
        = 2 ^ k * (2 ^ (m - k) * (index / 2 ^ (m - k)) + index % 2 ^ (m - k)) := by
          rw [Nat.div_add_mod]
      _ = index / 2 ^ (m - k) * (2 ^ k * 2 ^ (m - k)) + index % 2 ^ (m - k) * 2 ^ k := by ring

/-! ## The invariant -/

/-- The core's stores are in memory or dirty in a block it holds. -/
structure WriteBack (config : Config) (v : View) (core : Core) : Prop where
  clean : ∀ addr value, core.stored addr = some value → core.dirty addr = false →
    v.word addr = value
  dirty : ∀ addr, core.dirty addr = true →
    config.dataBytes ∣ addr ∧ core.owns (config.blockAddr addr) = true
  counted : v.cOngoings = burstTable (core.cBurst.map fun burst => (burst.1.source, burst.2))
  started : ∀ header count, core.cBurst = some (header, count) →
    0 < count ∧ count < config.burstLen header.size
  cleaned : ∀ header count, core.cBurst = some (header, count) →
    2 ^ header.size = config.blockSize ∧ config.IsBlock header.address ∧
      ∀ i < count, core.dirty (header.address + i * config.dataBytes) = false

section WriteBack

variable {v v' : View} {core : Core}

theorem WriteBack.frame (wb : WriteBack config v core) (same : v.SameStore v') :
    WriteBack config v' core := by
  constructor
  · rw [same.1]
    exact wb.clean
  · exact wb.dirty
  · rw [same.2]
    exact wb.counted
  · exact wb.started
  · exact wb.cleaned

/-- The counter of the source of a legal beat. -/
theorem WriteBack.count (wb : WriteBack config v core) {msg : CMessage} {index : Nat}
    (next : beatIndex core.cBurst msg.header = some index) :
    v.cOngoings.getD msg.source 0 = index := by
  rw [wb.counted]
  exact (burstTable_of_beatIndex CMessage.source next).1

/-- The core stores to a word of a block it holds. -/
theorem WriteBack.store (blocks : config.PowerOfTwoBlocks) (wb : WriteBack config v core)
    {addr value : Nat} (rule : core.Obeys config v (.store addr value)) :
    WriteBack config v (core.store addr value) := by
  obtain ⟨aligned, owned, apart⟩ := rule
  constructor
  · intro other last found kept
    simp only [Core.store] at found kept
    split at kept
    · cases kept
    · rename_i away
      rw [if_neg away] at found
      exact wb.clean other last found kept
  · intro other dirty
    simp only [Core.store] at dirty
    split at dirty
    · rename_i same
      rw [same]
      exact ⟨aligned, owned⟩
    · exact wb.dirty other dirty
  · exact wb.counted
  · exact wb.started
  · intro header count opened
    obtain ⟨whole, isBlock, cleaned⟩ := wb.cleaned header count opened
    refine ⟨whole, isBlock, ?_⟩
    intro i below
    have away : header.address + i * config.dataBytes ≠ addr := by
      rintro rfl
      apply apart header count opened
      have inside : i < config.blockLen := by
        rw [← burstLen_wholeBlock blocks whole]
        exact Nat.lt_trans below (wb.started header count opened).2
      rw [blockAddr_add blocks isBlock inside, blockAddr_eq_self blocks isBlock]
    exact (if_neg away).trans (cleaned i below)

/-- An uncached write takes the words it changes away from the core. -/
theorem WriteBack.accepts (wb : WriteBack config v core) {msg : AMessage}
    (accepted : v.Accepts config msg v') : WriteBack config v' (core.request config msg v v') := by
  constructor
  · intro addr value found kept
    simp only [Core.request] at found
    split at found
    · rename_i same
      rw [same]
      exact wb.clean addr value found kept
    · cases found
  · exact wb.dirty
  · rw [accepted.cOngoings]
    exact wb.counted
  · exact wb.started
  · exact wb.cleaned

/-- Grants only add blocks. -/
theorem WriteBack.receive (wb : WriteBack config v core) (msg : DMessage) :
    WriteBack config v (core.receive msg) := by
  unfold Core.receive
  split
  · split
    · constructor
      · exact wb.clean
      · intro addr dirty
        obtain ⟨aligned, owned⟩ := wb.dirty addr dirty
        refine ⟨aligned, ?_⟩
        dsimp only
        split
        · rfl
        · exact owned
      · exact wb.counted
      · exact wb.started
      · exact wb.cleaned
    · exact wb
  · exact wb

/-- A message without data gives up clean blocks only. -/
theorem WriteBack.sendPlain (wb : WriteBack config v core) {msg : CMessage}
    (rule : core.MaySend config v msg) (plain : msg.opcode.carriesData = false) :
    WriteBack config v (core.send config msg) := by
  simp only [Core.send, plain]
  constructor
  · exact wb.clean
  · intro addr dirty
    obtain ⟨aligned, owned⟩ := wb.dirty addr dirty
    refine ⟨aligned, ?_⟩
    dsimp only
    split
    · rename_i gives
      dsimp only
      split
      · rename_i same
        have clean := rule.clean plain gives.2 addr same
        rw [show core.dirty addr = true from dirty] at clean
        cases clean
      · exact owned
    · exact owned
  · exact wb.counted
  · exact wb.started
  · exact wb.cleaned

/-- A beat with data writes its word back; the last one leaves the block clean. -/
theorem WriteBack.sendData (blocks : config.PowerOfTwoBlocks) (wb : WriteBack config v core)
    {msg : CMessage} (rule : core.MaySend config v msg) (data : msg.opcode.carriesData = true) :
    WriteBack config ((v.storeBeat config msg).countBeat config msg) (core.send config msg) := by
  obtain ⟨_, whole, isBlock, carries⟩ := rule.data data
  obtain ⟨index, next⟩ := Option.isSome_iff_exists.mp rule.inOrder
  have bounds : ∀ header count, core.cBurst = some (header, count) →
      0 < count ∧ count < config.burstLen header.size := wb.started
  have burstLen : config.burstLen msg.size = config.blockLen := burstLen_wholeBlock blocks whole
  have stored : beatAddr config v.cOngoings msg.source msg.address =
      msg.address + index * config.dataBytes := by
    rw [beatAddr, wb.count next, addrAligned_eq_self blocks isBlock]
  have before : ∀ i < index, core.dirty (msg.address + i * config.dataBytes) = false := by
    intro i below
    cases running : core.cBurst with
    | none =>
        rw [running] at next
        cases next
        cases below
    | some burst =>
        obtain ⟨header, count⟩ := burst
        rw [running, beatIndex] at next
        split at next
        · rename_i same
          cases next
          have cleaned := (wb.cleaned header index running).2.2 i below
          rw [same] at cleaned
          exact cleaned
        · cases next
  have dirtyAfter : (core.send config msg).dirty = fun other =>
      if other = msg.address + index * config.dataBytes then false else core.dirty other := by
    simp only [Core.send, data, next]
    rfl
  have burstAfter' : (core.send config msg).cBurst =
      burstAfter msg.header (config.burstLen msg.size) index := by
    simp only [Core.send, data, next]
    rfl
  have cleanSoFar : ∀ i < index + 1,
      (core.send config msg).dirty (msg.address + i * config.dataBytes) = false := by
    intro i below
    rw [dirtyAfter]
    dsimp only
    split
    · rfl
    · rename_i apart
      rcases Nat.lt_succ_iff_lt_or_eq.mp below with earlier | same
      · exact before i earlier
      · exact absurd (by rw [same]) apart
  constructor
  · intro addr value found kept
    rw [dirtyAfter] at kept
    have word : ((v.storeBeat config msg).countBeat config msg).word addr =
        if addr = msg.address + index * config.dataBytes then msg.data else v.word addr := by
      rw [← stored]
      rfl
    rw [word]
    dsimp only at kept
    split
    · rename_i same
      rw [same] at found
      exact carries index value next found
    · rename_i apart
      rw [if_neg apart] at kept
      exact wb.clean addr value found kept
  · intro addr dirty
    have dirtyBefore : core.dirty addr = true := by
      rw [dirtyAfter] at dirty
      dsimp only at dirty
      split at dirty
      · cases dirty
      · exact dirty
    obtain ⟨aligned, owned⟩ := wb.dirty addr dirtyBefore
    refine ⟨aligned, ?_⟩
    by_cases given : (msg.opcode.carriesData = true →
        (beatIndex core.cBurst msg.header).getD 0 + 1 = config.burstLen msg.size) ∧ msg.GivesUp
    · have owns : (core.send config msg).owns = fun other =>
          if other = config.blockAddr msg.address then false else core.owns other := if_pos given
      rw [owns]
      dsimp only
      split
      · rename_i same
        have last : index + 1 = config.blockLen := by
          have done := given.1 data
          rw [next, burstLen] at done
          exact done
        rw [blockAddr_eq_self blocks isBlock] at same
        obtain ⟨i, inside, rfl⟩ := exists_word_of_blockAddr blocks aligned same
        rw [cleanSoFar i (last ▸ inside)] at dirty
        cases dirty
      · exact owned
    · have owns : (core.send config msg).owns = core.owns := if_neg given
      rw [owns]
      exact owned
  · rw [burstAfter']
    have counted := countBeat_burstTable CMessage.source next
      (fun header count running => (bounds header count running).1) (config.burstLen msg.size)
    rw [← counted, ← wb.counted]
    rfl
  · intro header count running
    rw [burstAfter'] at running
    exact burstAfter_bounds next (fun header => config.burstLen header.size)
      (burstLen_pos msg.size) bounds running
  · intro header count running
    rw [burstAfter', burstAfter] at running
    split at running
    · cases running
    · cases running
      exact ⟨whole, isBlock, cleanSoFar⟩

/-- A beat of channel C. -/
theorem WriteBack.receives (blocks : config.PowerOfTwoBlocks) (wb : WriteBack config v core)
    {msg : CMessage} (rule : core.MaySend config v msg) (received : v.Receives config msg v') :
    WriteBack config v' (core.send config msg) := by
  have store := received.store
  split at store
  · rename_i data
    exact (wb.sendData blocks rule data).frame store
  · rename_i plain
    exact (wb.sendPlain rule (Bool.not_eq_true _ ▸ plain)).frame store

end WriteBack

end Difftest.TileLink
