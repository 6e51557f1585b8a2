import Difftest.TileLink.Moves
import Difftest.TileLink.Turns

/-!
# The probing path against the direct path

A message of channel A to a block that the core holds is answered after a probe,
by callbacks of their own.  It should have the effect that it has on a block of the
adapter whose memory already holds the data that the core writes back.  This is
stated for one message in isolation and every order of the turns of the drivers;
here it is proved for `AcquireBlock`.
-/

namespace Difftest.TileLink

/-! ## One message in isolation -/

/-- Nothing is in flight, and the next probe and grant find identifiers. -/
structure AtRest (s : State) : Prop where
  drive : s.drive = true
  aOngoings : s.aOngoings = Dict.empty
  cOngoings : s.cOngoings = Dict.empty
  dQueue : s.dQueue = []
  dDriving : s.dDriving = none
  bQueue : s.bQueue = []
  bDriving : s.bDriving = none
  reserved : s.bSrcs.eventQueue = []
  source : s.bSrcs.freeList ≠ []
  distinct : s.bSrcs.freeList.Nodup
  known : ∀ src ∈ s.bSrcs.freeList, src ∈ s.bSrcs.initList ∧ src ∈ s.bCallback.srcs
  vacant : ∀ src ∈ s.bSrcs.freeList, s.bCallback.cMap.get? src = some none
  sink : s.dSinks.freeList ≠ []

/-- The opcodes with a probing path, `Get` apart. -/
def probingOpcodes : List AOpcode :=
  [.putFullData, .putPartialData, .arithmeticData, .logicalData, .acquireBlock, .acquirePerm]

/-- The beats `first :: others` are one message that passes the protocol assertions. -/
structure OneMessage (config : Config) (first : AMessage) (others : List AMessage) : Prop where
  opcode : first.opcode ∈ probingOpcodes
  header : ∀ beat ∈ others, beat.header = first.header
  length : others.length + 1 =
    if first.opcode ∈ [.putFullData, .putPartialData] then config.burstLen first.size else 1
  accepted : ∀ beat ∈ first :: others, aAssertions config.debug beat = true

/-- Beats of channel A or C, each with the turns that follow it. -/
abbrev Timed (α : Type) := List (α × List Event)

/-- Only the drivers act between the beats. -/
def OnlyTurns {α : Type} (timed : Timed α) : Prop :=
  ∀ entry ∈ timed, ∀ event ∈ entry.2, event.isTurn = true

/-- The events of a message of channel A. -/
def aEvents (timed : Timed AMessage) : List Event :=
  timed.flatMap fun entry => .aFire entry.1 :: entry.2

/-- The events of an answer on channel C. -/
def cEvents (timed : Timed CMessage) : List Event :=
  timed.flatMap fun entry => .cFire entry.1 :: entry.2

/-- The probe that the first beat of a message sends. -/
def firstProbe (config : Config) (s : State) (first : AMessage) : Option BMessage :=
  (step config s (.aFire first)).bind fun s => s.bQueue.head?

/-- The core answers a probe: it gives up the trunk, without data or with all the beats
of its data. -/
structure AnswersProbe (config : Config) (probe : BMessage) (beats : List CMessage) : Prop where
  source : ∀ beat ∈ beats, beat.source = probe.source
  block : ∀ beat ∈ beats, config.blockAddr beat.address = config.blockAddr probe.address
  gives : ∀ beat ∈ beats, beat.param = tToB ∨ beat.param = tToN
  accepted : ∀ beat ∈ beats, cAssertions config.debug beat = true
  shape : (∃ beat, beats = [beat] ∧ beat.opcode = .probeAck) ∨
    ∃ header : CMessage, header.opcode = .probeAckData ∧
      (∀ beat ∈ beats, beat.header = header.header) ∧ beats.length = config.burstLen header.size

/-- The memory after the data of an answer, from beat `index` on. -/
def writeBeats (config : Config) : Nat → List CMessage → Dict Nat Nat → Dict Nat Nat
  | _, [], memory => memory
  | index, beat :: beats, memory =>
      writeBeats config (index + 1) beats
        (if beat.opcode = .probeAckData then
          memory.set (config.addrAligned beat.address + index * config.dataBytes) beat.data
        else memory)

/-- The block is the adapter's and the memory holds the written-back data. -/
def State.writeBack (config : Config) (blockAddr : Nat) (beats : List CMessage) (s : State) :
    State :=
  { s with
    memory := writeBeats config 0 beats s.memory
    blockPerm := s.blockPerm.set blockAddr tip }

/-- Channel B is idle: the core has received every probe. -/
def Delivered (s : State) : Prop := s.bQueue = [] ∧ s.bDriving = none

/-- Channel D is idle: the core has received every response. -/
def Drained (s : State) : Prop := s.dQueue = [] ∧ s.dDriving = none

/-- The probing path agrees with the direct path: no step raises, and once everything
is sent, the memory, the permissions and the responses are the same. -/
def PathsAgree (config : Config) (s : State) (first : AMessage) (others : List AMessage) : Prop :=
  ∀ message : Timed AMessage, message.map Prod.fst = first :: others → OnlyTurns message →
    ∃ probed, run config s (aEvents message) = some probed ∧
      ∀ probe, firstProbe config s first = some probe → Delivered probed →
      ∀ answer : Timed CMessage, AnswersProbe config probe (answer.map Prod.fst) →
        OnlyTurns answer →
        ∃ answered, run config probed (cEvents answer) = some answered ∧
          ∀ direct : Timed AMessage, direct.map Prod.fst = first :: others → OnlyTurns direct →
            ∃ served, run config (s.writeBack config (config.blockAddr first.address)
                (answer.map Prod.fst)) (aEvents direct) = some served ∧
              (Drained answered → Drained served →
                answered.word = served.word ∧ answered.perm = served.perm ∧
                  sentBy config s (aEvents message ++ cEvents answer) =
                    sentBy config (s.writeBack config (config.blockAddr first.address)
                      (answer.map Prod.fst)) (aEvents direct))

/-! ## Grants -/

theorem permEntry_wordEntries {config : Config} {message : Nat → DMessage} {blockAddr param : Nat}
    {burstLen addrAligned : Nat} {word : Nat → Nat} :
    ∀ entry ∈ wordEntries config message (some (.updatePerm blockAddr param)) burstLen addrAligned
      word, PermEntry entry := by
  rw [wordEntries_eq_map]
  intro entry mem callback carried
  obtain ⟨i, _, rfl⟩ := List.mem_map.mp mem
  by_cases first : i = 0
  · rw [if_pos first] at carried
    cases carried
    exact ⟨_, _, rfl⟩
  · rw [if_neg first] at carried
    cases carried

/-- The entries that grant a block with the words of the memory. -/
def grantQueue (config : Config) (msg : AMessage) (sink : Nat) (word : Nat → Nat) : List DEntry :=
  grantEntries config (config.burstLen msg.size) (config.addrAligned msg.address)
    (grantParam msg.param) sink msg.size msg.source (config.blockAddr msg.address) word

section Acquire

variable {config : Config} {s : State} {msg : AMessage} {sink src : Nat}

/-- Granting queues the words and changes nothing else that is compared. -/
theorem pushGrantData_spec (config : Config) (msg : AMessage) (sink : Nat) (s : State) :
    ∃ memory ongoingTlc, ({ s with memory } : State).word = s.word ∧
      s.pushGrantData config (config.burstLen msg.size) (config.addrAligned msg.address)
          (grantParam msg.param) sink msg.size msg.source (config.blockAddr msg.address) =
        { s with memory, ongoingTlc, dQueue := s.dQueue ++ grantQueue config msg sink s.word } := by
  obtain ⟨memory, sameWord, pushed⟩ := State.pushWords_eq config
    (grantData (grantParam msg.param) msg.size msg.source sink)
    (some (.updatePerm (config.blockAddr msg.address) (grantParam msg.param)))
    (config.burstLen msg.size) (config.addrAligned msg.address)
    { s with ongoingTlc := s.ongoingTlc.set sink (config.blockAddr msg.address) }
  refine ⟨memory, s.ongoingTlc.set sink (config.blockAddr msg.address), sameWord, ?_⟩
  rw [State.pushGrantData, pushed]
  rfl

/-- The answer of the probe of an acquire grants the block and frees the source. -/
theorem answerProbe_grant
    (slot : s.bCallback.cMap.get? src = some (some (grantCallback config msg sink)))
    (known : src ∈ s.bSrcs.initList) (taken : src ∉ s.bSrcs.freeList)
    (reserved : s.bSrcs.eventQueue = []) :
    ∃ s', answerProbe config src s = some s' ∧ s'.word = s.word ∧ s'.perm = s.perm ∧
      s'.dQueue = s.dQueue ++ grantQueue config msg sink s.word ∧ s'.dDriving = s.dDriving := by
  have called : s.bCallback.call src = some (some (grantCallback config msg sink),
      { s.bCallback with cMap := s.bCallback.cMap.set src none }) :=
    SrcToCallback.call_eq_some_iff.mpr ⟨slot, rfl⟩
  obtain ⟨memory, ongoingTlc, sameWord, pushed⟩ := pushGrantData_spec config msg sink
    (s.setCallbacks { s.bCallback with cMap := s.bCallback.cMap.set src none })
  have released : s.bSrcs.release src = some (none, { s.bSrcs with
      freeList := s.bSrcs.freeList ++ [src]
      eventQueue := s.bSrcs.eventQueue.tail }) := by
    apply FreeList.release_eq_some_iff.mpr
    exact ⟨⟨known, taken⟩, by rw [reserved]; rfl, rfl⟩
  have ran : answerProbe config src s =
      (({ s.setCallbacks { s.bCallback with cMap := s.bCallback.cMap.set src none } with
        memory, ongoingTlc, dQueue := s.dQueue ++ grantQueue config msg sink s.word } : State).setSources
          { s.bSrcs with
            freeList := s.bSrcs.freeList ++ [src]
            eventQueue := s.bSrcs.eventQueue.tail } : State) := by
    rw [answerProbe, called, Option.bind_some]
    dsimp only [runTaken, runCallback, grantCallback]
    rw [pushed, Option.bind_some]
    dsimp only [State.setCallbacks]
    rw [released]
    rfl
  exact ⟨_, ran, sameWord, rfl, rfl, rfl⟩

/-- The adapter waits for the answer to the probe of an acquire. -/
structure Awaits (config : Config) (msg : AMessage) (sink src : Nat) (perm : Nat → Nat)
    (s : State) : Prop where
  drive : s.drive = true
  perms : s.perm = perm
  dQueue : s.dQueue = []
  dDriving : s.dDriving = none
  slot : s.bCallback.cMap.get? src = some (some (grantCallback config msg sink))
  known : src ∈ s.bSrcs.initList
  taken : src ∉ s.bSrcs.freeList
  reserved : s.bSrcs.eventQueue = []

/-- The grant of an acquire is queued and nothing of it has been sent. -/
structure Grants (config : Config) (msg : AMessage) (sink : Nat) (word perm : Nat → Nat)
    (s : State) : Prop where
  words : s.word = word
  perms : s.perm = perm
  dQueue : s.dQueue = grantQueue config msg sink word
  dDriving : s.dDriving = none

variable {perm word : Nat → Nat}

/-- Turns do not touch the probe that is waited for. -/
theorem Awaits.turns {turns : List Event} (awaits : Awaits config msg sink src perm s)
    (all : ∀ event ∈ turns, event.isTurn = true) :
    ∃ s', run config s turns = some s' ∧ sentBy config s turns = [] ∧ s'.memory = s.memory ∧
      s'.cOngoings = s.cOngoings ∧ Awaits config msg sink src perm s' := by
  have entries : ∀ entry ∈ s.dQueue, PermEntry entry := by
    intro entry mem
    rw [awaits.dQueue] at mem
    cases mem
  obtain ⟨s', ran, turned⟩ := @run_turnsTo config s turns all entries
  obtain ⟨sent, dQueue, dDriving, samePerm⟩ := turned.idle awaits.dQueue awaits.dDriving
  obtain ⟨_, _, _, _, _, rfl⟩ := turned.frame
  refine ⟨_, ran, sent, rfl, rfl, ?_⟩
  constructor
  · exact awaits.drive
  · exact samePerm.trans awaits.perms
  · exact dQueue
  · exact dDriving
  · exact awaits.slot
  · exact awaits.known
  · exact awaits.taken
  · exact awaits.reserved

/-- Turns after the grant is queued send it and apply its permission. -/
theorem Grants.turns {turns : List Event} (grants : Grants config msg sink word perm s)
    (all : ∀ event ∈ turns, event.isTurn = true) :
    ∃ s', run config s turns = some s' ∧ (Drained s' →
      s'.word = word ∧ s'.perm = drainedPerm (grantQueue config msg sink word) perm ∧
        sentBy config s turns = queuedMessages (grantQueue config msg sink word)) := by
  have entries : ∀ entry ∈ s.dQueue, PermEntry entry := by
    rw [grants.dQueue]
    exact permEntry_wordEntries
  obtain ⟨s', ran, turned⟩ := @run_turnsTo config s turns all entries
  refine ⟨s', ran, ?_⟩
  intro drained
  obtain ⟨messages, permissions⟩ := turned.drained drained.1 drained.2
  rw [grants.dQueue, grants.dDriving] at messages
  rw [grants.dQueue, grants.perms] at permissions
  obtain ⟨_, _, _, _, _, rfl⟩ := turned.frame
  exact ⟨grants.words, permissions, messages⟩

/-- Answering the probe returns the block and queues the grant. -/
theorem Awaits.answer {beat : CMessage} (awaits : Awaits config msg sink src perm s)
    (source : beat.source = src) (gives : beat.param = tToB ∨ beat.param = tToN)
    (block : config.blockAddr beat.address = config.blockAddr msg.address) :
    ∃ s', answerProbe config beat.source (returnPerm config beat s) = some s' ∧
      Grants config msg sink s.word
        (Function.update perm (config.blockAddr msg.address) tip) s' := by
  have returned : returnPerm config beat s = s.setPerm (config.blockAddr msg.address) tip := by
    rw [returnPerm, if_pos gives, block]
  have setTo : (s.setPerm (config.blockAddr msg.address) tip).perm =
      Function.update perm (config.blockAddr msg.address) tip := by
    rw [State.perm_setPerm, awaits.perms]
    funext other
    rw [Function.update_apply]
  obtain ⟨s', answered, sameWord, samePerm, queued, driving⟩ := @answerProbe_grant config
    (s.setPerm (config.blockAddr msg.address) tip) msg sink src awaits.slot awaits.known
    awaits.taken awaits.reserved
  refine ⟨s', ?_, sameWord, samePerm.trans setTo, ?_, driving.trans awaits.dDriving⟩
  · rw [source, returned, answered]
  · rw [queued, State.word_setPerm]
    change s.dQueue ++ _ = _
    rw [awaits.dQueue, List.nil_append]

/-- A retrieval finds a source and sends its probe. -/
theorem retrieveBlock_sends (free : s.bSrcs.freeList ≠ [])
    (known : ∀ src ∈ s.bSrcs.freeList, src ∈ s.bCallback.srcs)
    (vacant : ∀ src ∈ s.bSrcs.freeList, s.bCallback.cMap.get? src = some none)
    (retrieval : Retrieval) :
    ∃ src ∈ s.bSrcs.freeList, retrieveBlock retrieval s = some
      { s with
        draws := s.draws.tail
        bSrcs := { s.bSrcs with freeList := s.bSrcs.freeList.erase src }
        bCallback := { s.bCallback with
          cMap := s.bCallback.cMap.set src (some retrieval.callback) }
        bQueue := s.bQueue ++ [View.probe retrieval src] } := by
  obtain ⟨⟨src, bSrcs⟩, taken⟩ :=
    Option.isSome_iff_exists.mp (FreeList.get_isSome (s.draws.headD 0) free)
  have mem := FreeList.mem_of_get taken
  obtain ⟨_, rfl⟩ := FreeList.get_eq_some_iff.mp taken
  have recorded : s.bCallback.set src retrieval.callback = some
      { s.bCallback with cMap := s.bCallback.cMap.set src (some retrieval.callback) } :=
    SrcToCallback.set_eq_some_iff.mpr ⟨vacant src mem, known src mem, rfl⟩
  have busy : s.bSrcs.empty = false := List.isEmpty_eq_false_iff.mpr free
  refine ⟨src, mem, ?_⟩
  rw [retrieveBlock, busy, if_neg Bool.false_ne_true, retrieveBlockCb]
  dsimp only [State.nextDraw]
  rw [taken, Option.bind_some]
  dsimp only
  rw [recorded]
  rfl

/-- The retrieval of a block that the core acquires. -/
def acquireRetrieval (config : Config) (msg : AMessage) (sink : Nat) : Retrieval :=
  { opcode := .probeBlock, callback := grantCallback config msg sink,
    param := acquireProbeParam msg.param, size := msg.size, address := msg.address,
    mask := msg.mask }

/-- An acquire of a block that the core holds sends a probe and waits. -/
theorem acquireBlock_probes (atRest : AtRest s) (protocol : config.protocol = tlC)
    (opcode : msg.opcode = .acquireBlock) (asserted : aAssertions config.debug msg = true)
    (held : s.perm (config.blockAddr msg.address) ≠ tip) :
    ∃ sink dSinks src s', s.dSinks.get (s.draws.headD 0) = some (sink, dSinks) ∧
      step config s (.aFire msg) = some s' ∧
      s'.bQueue = [View.probe (acquireRetrieval config msg sink) src] ∧
      s'.memory = s.memory ∧ s'.cOngoings = Dict.empty ∧
      Awaits config msg sink src s.perm s' := by
  obtain ⟨⟨sink, dSinks⟩, drawn⟩ :=
    Option.isSome_iff_exists.mp (FreeList.get_isSome (s.draws.headD 0) atRest.sink)
  let entered := s.enterBlock (config.blockAddr msg.address)
  have heldStill : entered.perm (config.blockAddr msg.address) ≠ tip := by
    rw [State.perm_enterBlock]
    exact held
  obtain ⟨src, free, retrieved⟩ := @retrieveBlock_sends
    { entered with draws := s.draws.tail, dSinks } atRest.source
    (fun src mem => (atRest.known src mem).2) atRest.vacant (acquireRetrieval config msg sink)
  have passes : notInterleaved s.aOngoings msg.source = true := by
    rw [atRest.aOngoings]
    rfl
  have stepped : step config s (.aFire msg) =
      retrieveBlock (acquireRetrieval config msg sink)
        { entered with draws := s.draws.tail, dSinks } := by
    rw [step, if_pos atRest.drive, aPortMonitor, if_pos ⟨asserted, passes⟩, opcode]
    dsimp only
    rw [if_pos protocol, acquireBlock]
    dsimp only [State.nextDraw]
    change ((s.dSinks.get (s.draws.headD 0)).bind _) = _
    rw [drawn, Option.bind_some]
    dsimp only
    exact if_pos heldStill
  refine ⟨sink, dSinks, src, _, drawn, stepped.trans retrieved, ?_, rfl, atRest.cOngoings, ?_⟩
  · change s.bQueue ++ _ = _
    rw [atRest.bQueue, List.nil_append]
  constructor
  · exact atRest.drive
  · exact State.perm_enterBlock _ _
  · exact atRest.dQueue
  · exact atRest.dDriving
  · rw [Dict.get?_set, if_pos rfl]
    rfl
  · exact (atRest.known src free).1
  · exact atRest.distinct.not_mem_erase
  · exact atRest.reserved

/-- An acquire of a block of the adapter is granted at once. -/
theorem acquireBlock_serves {sink : Nat} {dSinks : FreeList Empty} (drive : s.drive = true)
    (aOngoings : s.aOngoings = Dict.empty) (dQueue : s.dQueue = []) (dDriving : s.dDriving = none)
    (protocol : config.protocol = tlC) (opcode : msg.opcode = .acquireBlock)
    (asserted : aAssertions config.debug msg = true)
    (owned : s.perm (config.blockAddr msg.address) = tip)
    (drawn : s.dSinks.get (s.draws.headD 0) = some (sink, dSinks)) :
    ∃ s', step config s (.aFire msg) = some s' ∧ Grants config msg sink s.word s.perm s' := by
  let entered := s.enterBlock (config.blockAddr msg.address)
  have ownedStill : entered.perm (config.blockAddr msg.address) = tip := by
    rw [State.perm_enterBlock]
    exact owned
  have passes : notInterleaved s.aOngoings msg.source = true := by
    rw [aOngoings]
    rfl
  obtain ⟨memory, ongoingTlc, sameWord, pushed⟩ := pushGrantData_spec config msg sink
    { entered with draws := s.draws.tail, dSinks }
  have stepped : step config s (.aFire msg) =
      some (({ entered with draws := s.draws.tail, dSinks } : State).pushGrantData config
        (config.burstLen msg.size) (config.addrAligned msg.address) (grantParam msg.param) sink
        msg.size msg.source (config.blockAddr msg.address)) := by
    rw [step, if_pos drive, aPortMonitor, if_pos ⟨asserted, passes⟩, opcode]
    dsimp only
    rw [if_pos protocol, acquireBlock]
    dsimp only [State.nextDraw]
    change ((s.dSinks.get (s.draws.headD 0)).bind _) = _
    rw [drawn, Option.bind_some]
    dsimp only
    exact if_neg (not_not_intro ownedStill)
  rw [pushed] at stepped
  refine ⟨_, stepped, ?_⟩
  constructor
  · exact sameWord
  · exact State.perm_enterBlock _ _
  · change s.dQueue ++ _ = _
    rw [dQueue, List.nil_append]
    rfl
  · exact dDriving

/-- Events that queue the grant, of which nothing is sent before the last turns. -/
def GrantsAfter (config : Config) (msg : AMessage) (sink : Nat) (word perm : Nat → Nat)
    (s : State) (events : List Event) : Prop :=
  ∃ before turns granted, events = before ++ turns ∧ (∀ event ∈ turns, event.isTurn = true) ∧
    run config s before = some granted ∧ sentBy config s before = [] ∧
    Grants config msg sink word perm granted

theorem GrantsAfter.prepend {first events : List Event} {s' : State}
    (ran : run config s first = some s') (sent : sentBy config s first = [])
    (after : GrantsAfter config msg sink word perm s' events) :
    GrantsAfter config msg sink word perm s (first ++ events) := by
  obtain ⟨before, turns, granted, rfl, all, ranBefore, sentBefore, grants⟩ := after
  refine ⟨first ++ before, turns, granted, (List.append_assoc _ _ _).symm, all, ?_, ?_, grants⟩
  · rw [run_append, ran, Option.bind_some, ranBefore]
  · rw [sentBy_append ran, sent, sentBefore]
    rfl

theorem GrantsAfter.completes {events : List Event}
    (after : GrantsAfter config msg sink word perm s events) :
    ∃ s', run config s events = some s' ∧ (Drained s' →
      s'.word = word ∧ s'.perm = drainedPerm (grantQueue config msg sink word) perm ∧
        sentBy config s events = queuedMessages (grantQueue config msg sink word)) := by
  obtain ⟨before, turns, granted, rfl, all, ran, sent, grants⟩ := after
  obtain ⟨s', ranTurns, drains⟩ := grants.turns all
  refine ⟨s', ?_, ?_⟩
  · rw [run_append, ran, Option.bind_some, ranTurns]
  · intro drained
    obtain ⟨words, perms, messages⟩ := drains drained
    refine ⟨words, perms, ?_⟩
    rw [sentBy_append ran, sent, messages]
    rfl

/-- One step followed by turns. -/
theorem GrantsAfter.single {event : Event} {turns : List Event} {s' : State}
    (stepped : step config s event = some s') (silent : sentAt s event = [])
    (grants : Grants config msg sink word perm s')
    (all : ∀ event ∈ turns, event.isTurn = true) :
    GrantsAfter config msg sink word perm s (event :: turns) := by
  refine ⟨[event], turns, s', rfl, all, ?_, ?_, grants⟩
  · rw [run, stepped]
    rfl
  · rw [sentBy, stepped, silent]
    rfl

/-- The burst of an answer that has `index` beats so far. -/
def answerBurst (header : CMessage) (index : Nat) : Option (CMessage × Nat) :=
  if index = 0 then none else some (header, index)

/-- A beat of an answer is stored; the last one returns the block. -/
theorem Awaits.cFire {beat : CMessage} (awaits : Awaits config msg sink src perm s)
    (opcode : beat.opcode = .probeAckData) (accepted : cAssertions config.debug beat = true)
    (passes : notInterleaved s.cOngoings beat.source = true) :
    step config s (.cFire beat) =
      if lastBeat (config.burstLen beat.size) beat.source s.cOngoings then
        (answerProbe config beat.source (returnPerm config beat (storeBeat config beat s))).map
          (·.countC config beat)
      else some ((storeBeat config beat s).countC config beat) := by
  rw [step, if_pos awaits.drive, cPortMonitor, if_pos ⟨accepted, passes⟩, opcode]

/-- The data of an answer, from beat `index` on, ends in the grant. -/
theorem Awaits.beats (header : CMessage) {timed : Timed CMessage} {index : Nat}
    (awaits : Awaits config msg sink src perm s) (nonempty : timed ≠ [])
    (data : header.opcode = .probeAckData) (headers : ∀ entry ∈ timed, entry.1.header = header)
    (source : header.source = src) (gives : header.param = tToB ∨ header.param = tToN)
    (block : config.blockAddr header.address = config.blockAddr msg.address)
    (asserted : ∀ entry ∈ timed, cAssertions config.debug entry.1 = true)
    (total : index + timed.length = config.burstLen header.size)
    (table : s.cOngoings =
      burstTable ((answerBurst header index).map fun opened => (opened.1.source, opened.2)))
    (turns : OnlyTurns timed) :
    GrantsAfter config msg sink
      (fun addr => (writeBeats config index (timed.map Prod.fst) s.memory).getD addr 0)
      (Function.update perm (config.blockAddr msg.address) tip) s (cEvents timed) := by
  induction timed generalizing index s with
  | nil => exact absurd rfl nonempty
  | cons entry timed ih =>
      obtain ⟨beat, after⟩ := entry
      have sameHeader : beat.header = header := headers (beat, after) List.mem_cons_self
      have opcode : beat.opcode = .probeAckData := by
        rw [← data, ← sameHeader]
        rfl
      have beatSource : beat.source = header.source := by
        rw [← sameHeader]
        rfl
      have beatSize : beat.size = header.size := by
        rw [← sameHeader]
        rfl
      have beatParam : beat.param = header.param := by
        rw [← sameHeader]
        rfl
      have beatAddress : beat.address = header.address := by
        rw [← sameHeader]
        rfl
      have accepted := asserted (beat, after) List.mem_cons_self
      have next : beatIndex (answerBurst header index) header = some index := by
        by_cases first : index = 0
        · rw [answerBurst, if_pos first, first]
          rfl
        · rw [answerBurst, if_neg first, beatIndex, if_pos rfl]
      have started : ∀ opened count, answerBurst header index = some (opened, count) →
          0 < count := by
        intro opened count opening
        rw [answerBurst] at opening
        split at opening
        · cases opening
        · cases opening
          omega
      have counted := burstTable_of_beatIndex CMessage.source next
      rw [← table, ← beatSource] at counted
      have advanced : countBeat (config.burstLen beat.size) beat.source s.cOngoings = _ :=
        beatSource ▸ table ▸ beatSize ▸
          countBeat_burstTable CMessage.source next started (config.burstLen header.size)
      have stored : storeBeat config beat s = s.store
          (config.addrAligned beat.address + index * config.dataBytes) beat.data := by
        rw [storeBeat, beatAddr, counted.1]
      have all : ∀ event ∈ after, event.isTurn = true := turns (beat, after) List.mem_cons_self
      have storing : Awaits config msg sink src perm (storeBeat config beat s) := by
        rw [stored]
        exact ⟨awaits.drive, awaits.perms, awaits.dQueue, awaits.dDriving, awaits.slot,
          awaits.known, awaits.taken, awaits.reserved⟩
      have beatGives : beat.param = tToB ∨ beat.param = tToN := by
        rw [beatParam]
        exact gives
      have beatBlock : config.blockAddr beat.address = config.blockAddr msg.address := by
        rw [beatAddress]
        exact block
      have memory : writeBeats config index (beat :: timed.map Prod.fst) s.memory =
          writeBeats config (index + 1) (timed.map Prod.fst) (storeBeat config beat s).memory := by
        rw [writeBeats, if_pos opcode, stored]
        rfl
      have fires := awaits.cFire opcode accepted counted.2
      have isLast : lastBeat (config.burstLen beat.size) beat.source s.cOngoings = true ↔
          index + 1 = config.burstLen header.size := by
        rw [lastBeat, counted.1, decide_eq_true_eq, beatSize]
      rw [List.map_cons, memory]
      cases timed with
      | nil =>
          have complete : index + 1 = config.burstLen header.size := total
          obtain ⟨granted, answered, grants⟩ :=
            storing.answer (beatSource.trans source) beatGives beatBlock
          rw [if_pos (isLast.mpr complete), answered] at fires
          have events : cEvents [(beat, after)] = .cFire beat :: after := by
            rw [cEvents, List.flatMap_singleton]
          rw [events]
          exact GrantsAfter.single fires rfl
            ⟨grants.words, grants.perms, grants.dQueue, grants.dDriving⟩ all
      | cons following timed =>
          have incomplete : index + 1 ≠ config.burstLen header.size := by
            rw [← total, List.length_cons, List.length_cons]
            omega
          rw [if_neg (fun last => incomplete (isLast.mp last))] at fires
          have counting : Awaits config msg sink src perm
              ((storeBeat config beat s).countC config beat) :=
            ⟨storing.drive, storing.perms, storing.dQueue, storing.dDriving, storing.slot,
              storing.known, storing.taken, storing.reserved⟩
          obtain ⟨s', ran, silent, sameMemory, sameTable, awaiting⟩ := counting.turns all
          have events : cEvents ((beat, after) :: following :: timed) =
              (.cFire beat :: after) ++ cEvents (following :: timed) := by
            rw [cEvents, List.flatMap_cons]
            rfl
          have ranBeat : run config s (.cFire beat :: after) = some s' := by
            rw [run, fires, Option.bind_some, ran]
          have silentBeat : sentBy config s (.cFire beat :: after) = [] := by
            rw [sentBy, fires]
            exact silent
          have storedMemory : (storeBeat config beat s).memory = s'.memory := sameMemory.symm
          rw [events, storedMemory]
          apply GrantsAfter.prepend ranBeat silentBeat
          apply ih awaiting (List.cons_ne_nil _ _)
          · exact fun entry mem => headers entry (List.mem_cons_of_mem _ mem)
          · exact fun entry mem => asserted entry (List.mem_cons_of_mem _ mem)
          · rw [← total]
            simp only [List.length_cons]
            omega
          · rw [sameTable]
            change countBeat (config.burstLen beat.size) beat.source
              (storeBeat config beat s).cOngoings = _
            have sameOngoings : (storeBeat config beat s).cOngoings = s.cOngoings := rfl
            rw [sameOngoings, advanced, beatSize, burstAfter, if_neg incomplete, answerBurst,
              if_neg (Nat.succ_ne_zero index)]
          · exact fun entry mem => turns entry (List.mem_cons_of_mem _ mem)

/-- Whatever the core answers, the grant is queued on top of the data it wrote back. -/
theorem Awaits.answered {probe : BMessage} {answer : Timed CMessage}
    (awaits : Awaits config msg sink src perm s) (table : s.cOngoings = Dict.empty)
    (source : probe.source = src) (address : probe.address = msg.address)
    (answers : AnswersProbe config probe (answer.map Prod.fst)) (turns : OnlyTurns answer) :
    GrantsAfter config msg sink
      (fun addr => (writeBeats config 0 (answer.map Prod.fst) s.memory).getD addr 0)
      (Function.update perm (config.blockAddr msg.address) tip) s (cEvents answer) := by
  have sources := answers.source
  have blocks := answers.block
  rw [source] at sources
  rw [address] at blocks
  rcases answers.shape with ⟨beat, single, opcode⟩ | ⟨header, opcode, headers, length⟩
  · rcases answer with _ | ⟨⟨first, after⟩, _ | ⟨other, rest⟩⟩
    · cases single
    · cases single
      have given := answers.gives first List.mem_cons_self
      have accepted := answers.accepted first List.mem_cons_self
      obtain ⟨granted, answered, grants⟩ :=
        awaits.answer (sources first List.mem_cons_self) given (blocks first List.mem_cons_self)
      have passes : notInterleaved s.cOngoings first.source = true := by
        rw [table]
        rfl
      have fires : step config s (.cFire first) = some granted := by
        rw [step, if_pos awaits.drive, cPortMonitor, if_pos ⟨accepted, passes⟩, opcode]
        exact answered
      have memory : writeBeats config 0 [first] s.memory = s.memory := by
        rw [writeBeats, writeBeats, opcode]
        rfl
      have events : cEvents [(first, after)] = .cFire first :: after := by
        rw [cEvents, List.flatMap_singleton]
      rw [events]
      change GrantsAfter config msg sink
        (fun addr => (writeBeats config 0 [first] s.memory).getD addr 0) _ _ _
      rw [memory]
      exact GrantsAfter.single fires rfl grants (turns (first, after) List.mem_cons_self)
    · cases single
  · have nonempty : answer ≠ [] := by
      rintro rfl
      have positive := @burstLen_pos config header.size
      rw [← length] at positive
      cases positive
    obtain ⟨⟨first, after⟩, rest, rfl⟩ := List.exists_cons_of_ne_nil nonempty
    have firstHeader := headers first List.mem_cons_self
    have fields : header.source = first.source ∧ header.param = first.param ∧
        header.address = first.address := by
      rw [show header.source = header.header.source from rfl,
        show header.param = header.header.param from rfl,
        show header.address = header.header.address from rfl, ← firstHeader]
      exact ⟨rfl, rfl, rfl⟩
    apply awaits.beats header.header nonempty
    · exact opcode
    · exact fun entry mem => headers entry.1 (List.mem_map_of_mem mem)
    · exact fields.1.trans (sources first List.mem_cons_self)
    · rw [show header.header.param = first.param from fields.2.1]
      exact answers.gives first List.mem_cons_self
    · rw [show header.header.address = first.address from fields.2.2]
      exact blocks first List.mem_cons_self
    · exact fun entry mem => answers.accepted entry.1 (List.mem_map_of_mem mem)
    · rw [List.length_map] at length
      rw [Nat.zero_add]
      exact length
    · rw [table]
      rfl
    · exact turns

/-- An acquire on the direct path. -/
theorem acquireBlock_direct {dSinks : FreeList Empty} {beats : List CMessage}
    {timed : Timed AMessage} (atRest : AtRest s) (protocol : config.protocol = tlC)
    (opcode : msg.opcode = .acquireBlock) (asserted : aAssertions config.debug msg = true)
    (drawn : s.dSinks.get (s.draws.headD 0) = some (sink, dSinks))
    (single : timed.map Prod.fst = [msg]) (turns : OnlyTurns timed) :
    GrantsAfter config msg sink (fun addr => (writeBeats config 0 beats s.memory).getD addr 0)
      (Function.update s.perm (config.blockAddr msg.address) tip)
      (s.writeBack config (config.blockAddr msg.address) beats) (aEvents timed) := by
  have perm : (s.writeBack config (config.blockAddr msg.address) beats).perm =
      Function.update s.perm (config.blockAddr msg.address) tip := by
    funext other
    rw [Function.update_apply]
    exact Dict.getD_set s.blockPerm (config.blockAddr msg.address) other tip tip
  have owned : (s.writeBack config (config.blockAddr msg.address) beats).perm
      (config.blockAddr msg.address) = tip := by
    rw [perm, Function.update_self]
  obtain ⟨served, stepped, grants⟩ := @acquireBlock_serves config
    (s.writeBack config (config.blockAddr msg.address) beats) msg sink dSinks atRest.drive
    atRest.aOngoings atRest.dQueue atRest.dDriving protocol opcode asserted owned drawn
  rw [perm] at grants
  rcases timed with _ | ⟨⟨first, after⟩, _ | ⟨other, rest⟩⟩
  · cases single
  · obtain rfl : msg = first := (List.cons.inj single).1.symm
    have events : aEvents [(msg, after)] = .aFire msg :: after := by
      rw [aEvents, List.flatMap_singleton]
    rw [events]
    exact GrantsAfter.single stepped rfl grants (turns (msg, after) List.mem_cons_self)
  · cases single

/-- For an acquire of a block the probing path agrees with the direct path. -/
theorem pathsAgree_acquireBlock (atRest : AtRest s) (protocol : config.protocol = tlC)
    (opcode : msg.opcode = .acquireBlock) {others : List AMessage}
    (one : OneMessage config msg others) (held : s.perm (config.blockAddr msg.address) ≠ tip) :
    PathsAgree config s msg others := by
  have asserted := one.accepted msg List.mem_cons_self
  have alone : others = [] := by
    have length := one.length
    rw [opcode, if_neg (by decide)] at length
    exact List.length_eq_zero_iff.mp (Nat.succ.inj length)
  subst alone
  obtain ⟨sink, dSinks, src, waiting, drawn, stepped, queued, sameMemory, table, awaits⟩ :=
    acquireBlock_probes atRest protocol opcode asserted held
  intro message single turns
  rcases message with _ | ⟨⟨first, after⟩, _ | ⟨other, rest⟩⟩
  · cases single
  · obtain rfl : msg = first := (List.cons.inj single).1.symm
    obtain ⟨probed, ran, silent, probedMemory, probedTable, awaiting⟩ :=
      awaits.turns (turns (msg, after) List.mem_cons_self)
    have events : aEvents [(msg, after)] = [.aFire msg] ++ after := by
      rw [aEvents, List.flatMap_singleton]
      rfl
    have ranFirst : run config s [.aFire msg] = some waiting := by
      rw [run, stepped]
      rfl
    have silentFirst : sentBy config s [.aFire msg] = [] := by
      rw [sentBy, stepped]
      rfl
    have ranMessage : run config s (aEvents [(msg, after)]) = some probed := by
      rw [events, run_append, ranFirst, Option.bind_some, ran]
    have silentMessage : sentBy config s (aEvents [(msg, after)]) = [] := by
      rw [events, sentBy_append ranFirst, silentFirst, silent]
      rfl
    refine ⟨probed, ranMessage, ?_⟩
    intro probe isProbe _ answer answers answerTurns
    have probeIs : View.probe (acquireRetrieval config msg sink) src = probe := by
      rw [firstProbe, stepped, Option.bind_some, queued] at isProbe
      exact Option.some.inj isProbe
    have unchanged : probed.memory = s.memory := probedMemory.trans sameMemory
    have grantsLater := awaiting.answered (probedTable.trans table)
      (congrArg BMessage.source probeIs).symm (congrArg BMessage.address probeIs).symm answers
      answerTurns
    rw [unchanged] at grantsLater
    obtain ⟨answered, ranAnswer, drains⟩ := grantsLater.completes
    refine ⟨answered, ranAnswer, ?_⟩
    intro direct directSingle directTurns
    obtain ⟨served, ranDirect, drainsDirect⟩ := (@acquireBlock_direct config s msg sink dSinks
      (answer.map Prod.fst) direct atRest protocol opcode asserted drawn directSingle
      directTurns).completes
    refine ⟨served, ranDirect, ?_⟩
    intro answeredDrained servedDrained
    obtain ⟨words, perms, messages⟩ := drains answeredDrained
    obtain ⟨directWords, directPerms, directMessages⟩ := drainsDirect servedDrained
    refine ⟨words.trans directWords.symm, perms.trans directPerms.symm, ?_⟩
    rw [sentBy_append ranMessage, silentMessage, messages, directMessages]
    rfl
  · cases single

end Acquire

end Difftest.TileLink
