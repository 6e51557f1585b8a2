import Difftest.TileLink.Moves

/-!
# The data of a grant when it is delivered

`GrantData` is queued with the words memory holds at that moment, but the block
becomes the core's only when the first beat is popped.  A write that is accepted
in between is missing from the copy the core receives.  When no such write is
accepted, every grant carries the words memory holds when it is delivered.
-/

namespace Difftest.TileLink

variable {config : Config}

/-! ## Blocks -/

/-- Words of a block. -/
def Config.blockLen (config : Config) : Nat := config.blockSize / config.dataBytes

/-- Words and blocks are powers of two, and a block is made of whole words. -/
def Config.PowerOfTwoBlocks (config : Config) : Prop :=
  ∃ k m, k ≤ m ∧ config.dataBytes = 2 ^ k ∧ config.blockSize = 2 ^ m

/-- The address of a block, not of a byte inside it. -/
def Config.IsBlock (config : Config) (blockAddr : Nat) : Prop :=
  config.blockSize ∣ blockAddr

theorem blockAddr_eq_self (blocks : config.PowerOfTwoBlocks) {addr : Nat}
    (block : config.IsBlock addr) : config.blockAddr addr = addr := by
  rcases blocks with ⟨_, m, _, _, size⟩
  rw [Config.blockAddr, size, ldiff_two_pow_sub_one]
  rw [Config.IsBlock, size] at block
  exact Nat.div_mul_cancel block

/-- Every word of a block lies in that block. -/
theorem blockAddr_add (blocks : config.PowerOfTwoBlocks) {block i : Nat}
    (isBlock : config.IsBlock block) (inside : i < config.blockLen) :
    config.blockAddr (block + i * config.dataBytes) = block := by
  rcases blocks with ⟨k, m, k_le, width, size⟩
  rw [Config.IsBlock, size] at isBlock
  obtain ⟨index, rfl⟩ := isBlock
  have below : i * 2 ^ k < 2 ^ m := by
    rw [Config.blockLen, size, width, Nat.pow_div k_le (by decide)] at inside
    calc i * 2 ^ k < 2 ^ (m - k) * 2 ^ k := (Nat.mul_lt_mul_right (by positivity)).mpr inside
      _ = 2 ^ m := by rw [← Nat.pow_add, Nat.sub_add_cancel k_le]
  rw [Config.blockAddr, size, width, ldiff_two_pow_sub_one, Nat.mul_add_div (by positivity),
    Nat.div_eq_of_lt below, Nat.add_zero, Nat.mul_comm]

/-- An acquire of a whole block. -/
def AMessage.WholeBlock (config : Config) (msg : AMessage) : Prop :=
  msg.opcode = .acquireBlock → 2 ^ msg.size = config.blockSize ∧ config.IsBlock msg.address

theorem burstLen_wholeBlock (blocks : config.PowerOfTwoBlocks) {size : Nat}
    (whole : 2 ^ size = config.blockSize) : config.burstLen size = config.blockLen := by
  rcases blocks with ⟨k, m, k_le, width, block⟩
  have one_le : 1 ≤ 2 ^ (m - k) := Nat.one_le_two_pow
  rw [Config.burstLen, Config.blockLen, whole, block, width, Nat.pow_div k_le (by decide)]
  exact Nat.max_eq_left one_le

theorem addrAligned_eq_self (blocks : config.PowerOfTwoBlocks) {addr : Nat}
    (block : config.IsBlock addr) : config.addrAligned addr = addr := by
  rcases blocks with ⟨k, m, k_le, width, size⟩
  rw [Config.addrAligned, width, Nat.log2_two_pow, ldiff_two_pow_sub_one]
  rw [Config.IsBlock, size] at block
  exact Nat.div_mul_cancel (Nat.dvd_trans (Nat.pow_dvd_pow 2 k_le) block)

/-! ## Fresh grants -/

/-- The beats of a grant of a block, the first one with its permission change. -/
def blockGrant (config : Config) (blockAddr sink size source : Nat) (word : Nat → Nat) :
    List DEntry :=
  grantEntries config config.blockLen blockAddr toT sink size source blockAddr word

/-- The first beat of a trunk grant of a block. -/
def IsFirstBeat (blockAddr : Nat) (entry : DEntry) : Prop :=
  entry.2 = some (.updatePerm blockAddr toT) ∧ ∃ msg, entry.1 = some msg ∧ msg.opcode = .grantData

/-- Wherever the first beat of a trunk grant stands in the queue, the whole grant
follows with the words memory holds now. -/
def Fresh (config : Config) (word : Nat → Nat) (queue : List DEntry) : Prop :=
  ∀ i entry blockAddr, queue[i]? = some entry → IsFirstBeat blockAddr entry →
    config.IsBlock blockAddr ∧ ∃ sink size source later,
      queue.drop i = blockGrant config blockAddr sink size source word ++ later

theorem Fresh.tail {word : Nat → Nat} {entry : DEntry} {queue : List DEntry}
    (fresh : Fresh config word (entry :: queue)) : Fresh config word queue := by
  intro i other blockAddr found first
  exact fresh (i + 1) other blockAddr found first

theorem Fresh.append {word : Nat → Nat} {queue entries : List DEntry}
    (fresh : Fresh config word queue) (added : Fresh config word entries) :
    Fresh config word (queue ++ entries) := by
  intro i entry blockAddr found first
  by_cases inside : i < queue.length
  · rw [List.getElem?_append_left inside] at found
    obtain ⟨block, sink, size, source, later, dropped⟩ := fresh i entry blockAddr found first
    refine ⟨block, sink, size, source, later ++ entries, ?_⟩
    rw [List.drop_append_of_le_length (Nat.le_of_lt inside), dropped, List.append_assoc]
  · have outside : queue.length ≤ i := Nat.not_lt.mp inside
    rw [List.getElem?_append_right outside] at found
    have dropped : (queue ++ entries).drop i = entries.drop (i - queue.length) := by
      rw [List.drop_append, List.drop_eq_nil_of_le outside, List.nil_append]
    rw [dropped]
    exact added _ entry blockAddr found first

theorem fresh_of_plain {word : Nat → Nat} {entries : List DEntry}
    (plain : ∀ entry ∈ entries, PlainEntry entry) : Fresh config word entries := by
  intro i entry blockAddr found first
  exact absurd first.1 ((plain entry (List.mem_of_getElem? found)).1 blockAddr toT)

/-- A grant that was just read carries the words memory holds. -/
theorem fresh_grantEntries {param sink size source blockAddr : Nat} {word : Nat → Nat}
    (block : config.IsBlock blockAddr) :
    Fresh config word
      (grantEntries config config.blockLen blockAddr param sink size source blockAddr word) := by
  intro i entry other found first
  rw [grantEntries, wordEntries_eq_map, List.getElem?_map] at found
  obtain ⟨j, ranged, rfl⟩ := Option.map_eq_some_iff.mp found
  obtain ⟨_, at_i⟩ := List.getElem?_eq_some_iff.mp ranged
  rw [List.getElem_range] at at_i
  subst at_i
  obtain ⟨change, _⟩ := first
  cases i with
  | zero =>
      rw [if_pos rfl] at change
      cases change
      exact ⟨block, sink, size, source, [], by rw [List.append_nil]; rfl⟩
  | succ i => cases change

/-- A write outside the blocks with a queued first beat keeps grants fresh. -/
theorem Fresh.store (blocks : config.PowerOfTwoBlocks) {word word' : Nat → Nat}
    {queue : List DEntry} (fresh : Fresh config word queue) {addr : Nat}
    (same : ∀ other, other ≠ addr → word' other = word other)
    (clear : ∀ entry ∈ queue, ¬ IsFirstBeat (config.blockAddr addr) entry) :
    Fresh config word' queue := by
  intro i entry blockAddr found first
  obtain ⟨block, sink, size, source, later, dropped⟩ := fresh i entry blockAddr found first
  refine ⟨block, sink, size, source, later, ?_⟩
  rw [dropped, blockGrant, blockGrant, grantEntries, grantEntries, wordEntries_eq_map,
    wordEntries_eq_map]
  congr 1
  apply List.map_congr_left
  intro j mem
  have apart : blockAddr + j * config.dataBytes ≠ addr := by
    rintro rfl
    rw [blockAddr_add blocks block (List.mem_range.mp mem)] at clear
    exact clear entry (List.mem_of_getElem? found) first
  rw [same _ apart]

/-! ## Deferred callbacks -/

/-- Every callback that a probe in flight or a waiting retrieval holds. -/
def View.Deferred (P : Callback → Prop) (v : View) : Prop :=
  (∀ src callback, v.pending src = some callback → P callback) ∧
    ∀ retrieval ∈ v.ids.eventQueue, P retrieval.callback

section Deferred

variable {P : Callback → Prop} {v v' : View}

theorem View.Deferred.issue (deferred : v.Deferred P) {retrieval : Retrieval}
    (holds : P retrieval.callback) (src : Nat) : (v.issue retrieval src).Deferred P := by
  constructor
  · intro other callback found
    rw [View.issue, View.setPending] at found
    dsimp only at found
    split at found
    · cases found
      exact holds
    · exact deferred.1 other callback found
  · exact deferred.2

theorem View.Deferred.retrieves (deferred : v.Deferred P) {retrieval : Retrieval}
    (holds : P retrieval.callback) (retrieved : v.Retrieves retrieval v') : v'.Deferred P := by
  cases retrieved with
  | waits busy =>
      constructor
      · exact deferred.1
      · intro other mem
        rcases List.mem_append.mp mem with old | new
        · exact deferred.2 other old
        · rw [List.mem_singleton.mp new]
          exact holds
  | sends src free unused => exact deferred.issue holds src

theorem View.Deferred.setPending (deferred : v.Deferred P) (src : Nat) :
    (v.setPending src none).Deferred P := by
  constructor
  · intro other callback kept
    rw [View.setPending] at kept
    dsimp only at kept
    split at kept
    · cases kept
    · exact deferred.1 other callback kept
  · exact deferred.2

theorem View.Deferred.calls (deferred : v.Deferred P) (sweeps : ∀ addrs, P (.probeBlocksRec addrs))
    {callback : Callback} (called : View.Calls config callback v v') : v'.Deferred P := by
  cases called with
  | answers => exact deferred
  | grants => exact deferred
  | sweeps addr rest retrieved => exact deferred.retrieves (sweeps rest) retrieved
  | stops => exact deferred

theorem View.Deferred.takes (deferred : v.Deferred P) (sweeps : ∀ addrs, P (.probeBlocksRec addrs))
    {src : Nat} (taken : View.Takes config src v v') : v'.Deferred P := by
  cases taken with
  | empty => exact deferred
  | runs found called =>
      exact (deferred.setPending src).calls sweeps called

theorem View.Deferred.freed (deferred : v.Deferred P) (src : Nat) : (v.freed src).Deferred P := by
  constructor
  · exact deferred.1
  · intro retrieval mem
    exact deferred.2 retrieval (List.mem_of_mem_tail mem)

theorem View.Deferred.releases (deferred : v.Deferred P) {src : Nat}
    (released : View.Releases src v v') : v'.Deferred P := by
  cases released with
  | rests => exact deferred.freed src
  | serves known used retrieval waiting next =>
      exact (deferred.freed src).issue (deferred.2 retrieval (List.mem_of_head? waiting)) next

theorem View.Deferred.answers (deferred : v.Deferred P)
    (sweeps : ∀ addrs, P (.probeBlocksRec addrs)) {src : Nat}
    (answered : View.Answers config src v v') : v'.Deferred P := by
  obtain ⟨called, taken, released⟩ := answered
  exact (deferred.takes sweeps taken).releases released

end Deferred

/-! ## The invariant -/

/-- A deferred grant will grant a whole block. -/
def GrantsWholeBlock (config : Config) : Callback → Prop
  | .grantData burstLen addrAligned _ _ _ _ blockAddr =>
      burstLen = config.blockLen ∧ addrAligned = blockAddr ∧ config.IsBlock blockAddr
  | _ => True

theorem grantsWholeBlock_of_plain {callback : Callback} (plain : PlainCallback callback) :
    GrantsWholeBlock config callback := by
  cases callback with
  | grantData => exact absurd plain id
  | _ => trivial

/-- Queued grants are fresh and deferred grants are of whole blocks. -/
structure GrantsFresh (config : Config) (v : View) : Prop where
  fresh : Fresh config v.word v.dQueue
  deferred : v.Deferred (GrantsWholeBlock config)

/-- The address of the word an event writes. -/
def writtenWord (config : Config) (v : View) : Event → Option Nat
  | .aFire msg =>
      if msg.opcode.writes ∧ v.perm (config.blockAddr msg.address) = tip then
        some (beatAddr config v.aOngoings msg.source msg.address)
      else none
  | .cFire msg =>
      if msg.opcode = .probeAckData ∨ msg.opcode = .releaseData then
        some (beatAddr config v.cOngoings msg.source msg.address)
      else none
  | _ => none

/-- The event does not write to a block while the first beat of a trunk grant of
that block is queued. -/
def NoWriteUnderGrant (config : Config) (v : View) (event : Event) : Prop :=
  ∀ addr, writtenWord config v event = some addr →
    ∀ entry ∈ v.dQueue, ¬ IsFirstBeat (config.blockAddr addr) entry

section Invariant

variable {v v' : View}

theorem GrantsFresh.push (inv : GrantsFresh config v) {entries : List DEntry}
    (added : Fresh config v.word entries) : GrantsFresh config (v.push entries) := by
  constructor
  · exact inv.fresh.append added
  · exact inv.deferred

theorem GrantsFresh.retrieves (inv : GrantsFresh config v) {retrieval : Retrieval}
    (whole : GrantsWholeBlock config retrieval.callback)
    (retrieved : v.Retrieves retrieval v') : GrantsFresh config v' := by
  constructor
  · cases retrieved with
    | waits => exact inv.fresh
    | sends => exact inv.fresh
  · exact inv.deferred.retrieves whole retrieved

theorem GrantsFresh.store (blocks : config.PowerOfTwoBlocks) (inv : GrantsFresh config v)
    {addr : Nat} (value : Nat)
    (clear : ∀ entry ∈ v.dQueue, ¬ IsFirstBeat (config.blockAddr addr) entry) :
    GrantsFresh config (v.store addr value) := by
  constructor
  · apply inv.fresh.store blocks _ clear
    intro other apart
    exact if_neg apart
  · exact inv.deferred

theorem GrantsFresh.accepts (blocks : config.PowerOfTwoBlocks) (inv : GrantsFresh config v)
    {msg : AMessage} (whole : msg.WholeBlock config)
    (guarded : NoWriteUnderGrant config v (.aFire msg))
    (accepted : v.Accepts config msg v') : GrantsFresh config v' := by
  cases accepted with
  | answers entries plain => exact inv.push (fresh_of_plain plain)
  | writes value entries aOngoings plain owned opcode =>
      have written : writtenWord config v (.aFire msg) =
          some (beatAddr config v.aOngoings msg.source msg.address) :=
        if_pos ⟨opcode, owned⟩
      have stored := (inv.store blocks value (guarded _ written)).push (fresh_of_plain plain)
      exact ⟨stored.fresh, stored.deferred⟩
  | retrieves retrieval plain retrieved =>
      exact inv.retrieves (grantsWholeBlock_of_plain plain) retrieved
  | grants sink opcode owned =>
      obtain ⟨size, block⟩ := whole opcode
      rw [burstLen_wholeBlock blocks size, addrAligned_eq_self blocks block,
        blockAddr_eq_self blocks block]
      exact inv.push (fresh_grantEntries block)
  | grantsLater sink opcode retrieval callback retrieved =>
      obtain ⟨size, block⟩ := whole opcode
      have wholeGrant : GrantsWholeBlock config retrieval.callback := by
        rw [callback, grantCallback, burstLen_wholeBlock blocks size,
          addrAligned_eq_self blocks block, blockAddr_eq_self blocks block]
        exact ⟨rfl, rfl, block⟩
      exact inv.retrieves wholeGrant retrieved
  | grantsPerm sink opcode owned =>
      apply inv.push
      intro i entry blockAddr found first
      obtain ⟨_, other, carried, data⟩ := first
      have only := List.mem_singleton.mp (List.mem_of_getElem? found)
      rw [only] at carried
      cases carried
      cases data

theorem GrantsFresh.calls (inv : GrantsFresh config v) {callback : Callback}
    (whole : GrantsWholeBlock config callback) (called : View.Calls config callback v v') :
    GrantsFresh config v' := by
  cases called with
  | answers plainCallback _ entries plain => exact inv.push (fresh_of_plain plain)
  | grants burstLen addrAligned param sink size source blockAddr =>
      obtain ⟨rfl, rfl, block⟩ := whole
      exact inv.push (fresh_grantEntries block)
  | sweeps addr rest retrieved =>
      have whole : GrantsWholeBlock config (sweepRetrieval config addr rest).callback := trivial
      exact inv.retrieves whole retrieved
  | stops => exact ⟨inv.fresh, inv.deferred⟩

theorem GrantsFresh.answers (inv : GrantsFresh config v) {src : Nat}
    (answered : View.Answers config src v v') : GrantsFresh config v' := by
  constructor
  · obtain ⟨called, taken, released⟩ := answered
    have calledFresh : Fresh config called.word called.dQueue := by
      cases taken with
      | empty => exact inv.fresh
      | runs found ran =>
          have remaining : GrantsFresh config (v.setPending src none) :=
            ⟨inv.fresh, inv.deferred.setPending src⟩
          exact (remaining.calls (inv.deferred.1 src _ found) ran).fresh
    cases released with
    | rests => exact calledFresh
    | serves => exact calledFresh
  · exact inv.deferred.answers (fun _ => trivial) answered

theorem GrantsFresh.returns (inv : GrantsFresh config v) (msg : CMessage) :
    GrantsFresh config (v.returns config msg) := by
  rw [View.returns]
  split
  · exact ⟨inv.fresh, inv.deferred⟩
  · exact inv

theorem GrantsFresh.receives (blocks : config.PowerOfTwoBlocks) (inv : GrantsFresh config v)
    {msg : CMessage} (guarded : NoWriteUnderGrant config v (.cFire msg))
    (received : v.Receives config msg v') : GrantsFresh config v' := by
  have stored : msg.opcode = .probeAckData ∨ msg.opcode = .releaseData →
      GrantsFresh config (v.storeBeat config msg) := by
    intro data
    exact inv.store blocks msg.data (guarded _ (if_pos data))
  have acked : ∀ entry ∈ [(some (releaseAck msg.size msg.source), (none : Option DCallback))],
      PlainEntry entry :=
    plain_singleton (by simp) (by simp [releaseAck])
  cases received with
  | reserved => exact inv
  | probeAck opcode answered => exact (inv.returns msg).answers answered
  | release opcode => exact (inv.returns msg).push (fresh_of_plain acked)
  | beat opcode more => exact ⟨(stored opcode).fresh, (stored opcode).deferred⟩
  | probeAckData opcode last answered =>
      have answeredFresh := ((stored (Or.inl opcode)).returns msg).answers answered
      exact ⟨answeredFresh.fresh, answeredFresh.deferred⟩
  | releaseData opcode last =>
      have released := ((stored (Or.inr opcode)).returns msg).push (fresh_of_plain acked)
      exact ⟨released.fresh, released.deferred⟩

theorem GrantsFresh.pops (inv : GrantsFresh config v) (popped : v.Pops v') :
    GrantsFresh config v' := by
  have tail : ∀ entry rest, v.dQueue = entry :: rest → Fresh config v.word rest := by
    intro entry rest head
    have fresh := inv.fresh
    rw [head] at fresh
    exact fresh.tail
  cases popped with
  | waits => exact inv
  | bubble callback rest head => exact ⟨tail _ rest head, inv.deferred⟩
  | plain msg callback rest head => exact ⟨tail _ rest head, inv.deferred⟩
  | grant msg blockAddr param rest head =>
      split
      · exact ⟨tail _ rest head, inv.deferred⟩
      · exact ⟨tail _ rest head, inv.deferred⟩

/-- A move that writes under no queued grant keeps grants fresh. -/
theorem GrantsFresh.moves (blocks : config.PowerOfTwoBlocks) (inv : GrantsFresh config v)
    {event : Event} (whole : ∀ msg, event = .aFire msg → msg.WholeBlock config)
    (guarded : NoWriteUnderGrant config v event) (moved : View.Moves config event v v') :
    GrantsFresh config v' := by
  cases moved with
  | aFire msg driving accepted => exact inv.accepts blocks (whole msg rfl) guarded accepted
  | cFire msg driving alone received => exact inv.receives blocks guarded received
  | eFire => exact inv
  | dWait => exact inv
  | dPop driving popped => exact inv.pops popped
  | dFire => exact ⟨inv.fresh, inv.deferred⟩
  | bWait => exact inv
  | bPop => exact ⟨inv.fresh, inv.deferred⟩
  | bFire => exact ⟨inv.fresh, inv.deferred⟩
  | hostWait => exact inv
  | host retrieval plain retrieved =>
      exact inv.retrieves (grantsWholeBlock_of_plain plain) retrieved
  | retrieverWait => exact inv
  | retriever addrs asked fresh cover called =>
      have begun : GrantsFresh config { v with retrieved := true } := ⟨inv.fresh, inv.deferred⟩
      have sweep : GrantsWholeBlock config (.probeBlocksRec addrs) := trivial
      exact begun.calls sweep called
  | probeBlock => exact inv
  | stop => exact ⟨inv.fresh, inv.deferred⟩

end Invariant

/-! ## Runs -/

/-- A condition on the state before each event of a run. -/
def Along (config : Config) (condition : State → Event → Prop) : State → List Event → Prop
  | _, [] => True
  | s, event :: events =>
      condition s event ∧ ∀ s', step config s event = some s' → Along config condition s' events

theorem grantsFresh_start (memory : Dict Nat Nat) (s : State) :
    GrantsFresh config (s.start config memory).view := by
  constructor
  · intro i entry blockAddr found
    cases found
  · constructor
    · intro src callback found
      rw [show (s.start config memory).view.pending src = none from
        SrcToCallback.pending_new _ src] at found
      cases found
    · intro retrieval mem
      cases mem

theorem GrantsFresh.run (blocks : config.PowerOfTwoBlocks) {s s' : State} {events : List Event}
    (inv : GrantsFresh config s.view)
    (whole : ∀ msg, Event.aFire msg ∈ events → msg.WholeBlock config)
    (guarded : Along config (fun s event => NoWriteUnderGrant config s.view event) s events)
    (ran : run config s events = some s') : GrantsFresh config s'.view := by
  induction events generalizing s with
  | nil =>
      cases ran
      exact inv
  | cons event events ih =>
      obtain ⟨next, stepped, ran⟩ := Option.bind_eq_some_iff.mp ran
      rcases guarded with ⟨now, later⟩
      have wholeNow : ∀ msg, event = .aFire msg → msg.WholeBlock config := by
        rintro msg rfl
        exact whole msg List.mem_cons_self
      exact ih (inv.moves blocks wholeNow now (step_view stepped))
        (fun msg mem => whole msg (List.mem_cons_of_mem event mem)) (later next stepped) ran

/-- Popping the first beat of a trunk grant gives the block to the core. -/
theorem step_dPop_grant {s : State} (idle : s.drive = true ∧ s.dDriving = none) {msg : DMessage}
    {blockAddr : Nat} {rest : List DEntry}
    (head : s.dQueue = (some msg, some (.updatePerm blockAddr toT)) :: rest) :
    step config s .dPop =
      some ({ s with dQueue := rest, dDriving := some msg }.setPerm blockAddr trunk) := by
  simp only [step]
  rw [if_pos idle, popD, head]
  rfl

/-- When no write is accepted under a queued trunk grant, the beats of a grant
carry the words memory holds at the moment the driver pops the first one and
the block becomes the core's. -/
theorem grantData_current (blocks : config.PowerOfTwoBlocks) (memory : Dict Nat Nat)
    (before : State) {events : List Event} {s s' : State}
    (whole : ∀ msg, Event.aFire msg ∈ events → msg.WholeBlock config)
    (guarded : Along config (fun s event => NoWriteUnderGrant config s.view event)
      (before.start config memory) events)
    (ran : run config (before.start config memory) events = some s)
    (idle : s.drive = true ∧ s.dDriving = none) {msg : DMessage} {blockAddr : Nat}
    {rest : List DEntry} (opcode : msg.opcode = .grantData)
    (head : s.dQueue = (some msg, some (.updatePerm blockAddr toT)) :: rest)
    (popped : step config s .dPop = some s') :
    s'.dDriving = some msg ∧ s'.perm blockAddr = trunk ∧ s'.word = s.word ∧
      ∃ sink size source later, s.dQueue =
        ((List.range config.blockLen).map fun i =>
          (some (grantData toT size source sink (s'.word (blockAddr + i * config.dataBytes))),
            if i = 0 then some (.updatePerm blockAddr toT) else none)) ++ later := by
  have inv := (grantsFresh_start memory before).run blocks whole guarded ran
  have delivered : s' = { s with dQueue := rest, dDriving := some msg }.setPerm blockAddr trunk := by
    rw [step_dPop_grant idle head] at popped
    exact (Option.some.inj popped).symm
  have first : IsFirstBeat blockAddr (some msg, some (.updatePerm blockAddr toT)) :=
    ⟨rfl, msg, rfl, opcode⟩
  obtain ⟨_, sink, size, source, later, dropped⟩ :=
    inv.fresh 0 _ blockAddr (by rw [show s.view.dQueue = _ from head]; rfl) first
  have same : s'.word = s.word := by
    rw [delivered]
    rfl
  refine ⟨?_, ?_, same, sink, size, source, later, ?_⟩
  · rw [delivered]
    rfl
  · rw [delivered, State.perm_setPerm]
    exact if_pos rfl
  · rw [List.drop_zero, blockGrant, grantEntries, wordEntries_eq_map] at dropped
    rw [same]
    exact dropped

/-- A load keeps the channel D driver busy while the core acquires a block. -/
def acquireUnderLoad : List Event :=
  let beat (opcode : AOpcode) (param size source address data : Nat) : Event :=
    .aFire { opcode, param, size, source, address, mask := 0xff, data }
  [beat .get 0 3 1 0x80000100 0, .dPop, beat .acquireBlock nToT 6 2 0x80000000 0]

/-- The same, with a store to the block before its grant is delivered. -/
def storeUnderGrant : List Event :=
  acquireUnderLoad ++
    [.aFire { opcode := .putFullData, param := 0, size := 3, source := 3, address := 0x80000000,
              mask := 0xff, data := 7 }, .dFire, .dPop]

theorem along_of_forall {condition : State → Event → Prop} {events : List Event}
    (always : ∀ event ∈ events, ∀ s, condition s event) (s : State) :
    Along config condition s events := by
  induction events generalizing s with
  | nil => trivial
  | cons event events ih =>
      constructor
      · exact always event List.mem_cons_self s
      · intro next _
        exact ih (fun other mem => always other (List.mem_cons_of_mem event mem)) next

theorem grantData_current_acquireUnderLoad : ∃ s s' : State,
    run tileConfig ((State.init []).start tileConfig Dict.empty) (acquireUnderLoad ++ [.dFire]) =
        some s ∧
      step tileConfig s .dPop = some s' ∧ s'.perm 0x80000000 = trunk := by
  have ran : (run tileConfig ((State.init []).start tileConfig Dict.empty)
      (acquireUnderLoad ++ [.dFire])).map
        (fun s => (s.drive, s.dDriving, s.dQueue.head?)) =
          some (true, none, some (some (grantData toT 6 2 0 0), some (.updatePerm 0x80000000 toT))) := by
    decide +kernel
  obtain ⟨s, ran, ends⟩ := Option.map_eq_some_iff.mp ran
  obtain ⟨drive, ends⟩ := Prod.mk.inj ends
  obtain ⟨driving, first⟩ := Prod.mk.inj ends
  obtain ⟨rest, head⟩ := List.head?_eq_some_iff.mp first
  have quiet : ∀ event ∈ acquireUnderLoad ++ [.dFire], ∀ s : State,
      NoWriteUnderGrant tileConfig s.view event := by
    intro event mem s addr written
    simp only [acquireUnderLoad, List.cons_append, List.nil_append, List.mem_cons,
      List.not_mem_nil, or_false] at mem
    rcases mem with rfl | rfl | rfl | rfl
    · cases written
    · cases written
    · cases written
    · cases written
  have whole : ∀ msg, Event.aFire msg ∈ acquireUnderLoad ++ [.dFire] →
      msg.WholeBlock tileConfig := by
    intro msg mem acquires
    simp only [acquireUnderLoad, List.cons_append, List.nil_append, List.mem_cons,
      List.not_mem_nil, or_false, Event.aFire.injEq, reduceCtorEq, false_or] at mem
    rcases mem with rfl | rfl
    · cases acquires
    · exact ⟨rfl, 0x2000000, rfl⟩
  have popped := @step_dPop_grant tileConfig s ⟨drive, driving⟩ _ _ _ head
  obtain ⟨_, perm, _⟩ := grantData_current ⟨3, 6, by decide, rfl, rfl⟩ Dict.empty (State.init [])
    whole (along_of_forall quiet _) ran ⟨drive, driving⟩ rfl head popped
  exact ⟨s, _, ran, popped, perm⟩

/-- A store accepted between the queueing of a grant and its delivery is missing
from the copy the core receives, while the block already belongs to the core. -/
theorem grantData_stale : ∃ s : State, ∃ msg,
    run tileConfig ((State.init []).start tileConfig Dict.empty) storeUnderGrant = some s ∧
      s.dDriving = some msg ∧ msg.opcode = .grantData ∧ msg.source = 2 ∧
      s.perm 0x80000000 = trunk ∧ s.word 0x80000000 = 7 ∧ msg.data = 0 := by
  have ran : (run tileConfig ((State.init []).start tileConfig Dict.empty) storeUnderGrant).map
      (fun s => (s.dDriving, s.perm 0x80000000, s.word 0x80000000)) =
        some (some (grantData toT 6 2 0 0), trunk, 7) := by
    decide +kernel
  obtain ⟨s, ran, ends⟩ := Option.map_eq_some_iff.mp ran
  obtain ⟨driving, held⟩ := Prod.mk.inj ends
  obtain ⟨perm, word⟩ := Prod.mk.inj held
  exact ⟨s, grantData toT 6 2 0 0, ran, driving, rfl, rfl, perm, word, rfl⟩

end Difftest.TileLink
