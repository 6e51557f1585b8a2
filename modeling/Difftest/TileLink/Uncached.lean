import Difftest.Data.ByteMemory
import Difftest.TileLink.Burst

/-!
# Uncached accesses refine a byte memory

The reference answers `Get`, `PutFullData`, `PutPartialData` and `ReleaseData`
from a byte memory, one beat at a time.  It says which sequences of beats are
legal: a burst is not interleaved with other messages of its channel, and an
access of channel A is addressed to a block that the adapter owns.  On every
legal sequence the adapter runs without an exception, holds the same bytes and
sends the same responses in the same order.
-/

namespace Difftest.TileLink

/-! ## The reference -/

/-- A byte memory, the permission of each block, the bursts in progress with the
beats accepted so far, and the responses owed since the start. -/
structure Reference where
  bytes : ByteMemory
  perm : Nat → Nat
  aBurst : Option (AMessage × Nat)
  cBurst : Option (CMessage × Nat)
  responses : List DMessage

/-- The address of the bus word that contains a byte. -/
def wordBase (config : Config) (addr : Nat) : Nat :=
  addr / config.dataBytes * config.dataBytes

namespace Reference

/-- A `Get` owes one response for each word it reads. -/
def get (config : Config) (msg : AMessage) (ref : Reference) : Reference :=
  { ref with
    responses := ref.responses ++ (List.range (config.burstLen msg.size)).map fun i =>
      accessAckData msg.size msg.source
        (ref.bytes.read config.dataBytes (wordBase config msg.address + i * config.dataBytes)) }

/-- Beat `index` of a put changes the masked bytes of one word; the last beat
owes the response. -/
def put (config : Config) (msg : AMessage) (index : Nat) (ref : Reference) : Reference :=
  { ref with
    bytes := ref.bytes.write config.dataBytes
      (wordBase config msg.address + index * config.dataBytes) msg.mask.testBit msg.data
    aBurst := burstAfter msg.header (config.burstLen msg.size) index
    responses := ref.responses ++
      if index + 1 = config.burstLen msg.size then [accessAck msg.size msg.source] else [] }

/-- Beat `index` of a release changes one word; the last beat returns the block
and owes the response. -/
def release (config : Config) (msg : CMessage) (index : Nat) (ref : Reference) : Reference :=
  let last := index + 1 = config.burstLen msg.size
  { ref with
    bytes := ref.bytes.write config.dataBytes
      (wordBase config msg.address + index * config.dataBytes) (fun _ => true) msg.data
    perm := fun blockAddr =>
      if last ∧ (msg.param = tToB ∨ msg.param = tToN) ∧ blockAddr = config.blockAddr msg.address
      then tip else ref.perm blockAddr
    cBurst := burstAfter msg.header (config.burstLen msg.size) index
    responses := ref.responses ++ if last then [releaseAck msg.size msg.source] else [] }

/-- One beat of channel A, if it is legal here. -/
def aBeat (config : Config) (msg : AMessage) (ref : Reference) : Option Reference :=
  if aAssertions config.debug msg ∧ ref.perm (config.blockAddr msg.address) = tip ∧
      msg.data < 256 ^ config.dataBytes then
    match msg.opcode with
    | .get => if ref.aBurst = none then some (ref.get config msg) else none
    | .putFullData | .putPartialData =>
        (beatIndex ref.aBurst msg.header).map fun index => ref.put config msg index
    | _ => none
  else none

/-- One beat of channel C, if it is legal here. -/
def cBeat (config : Config) (msg : CMessage) (ref : Reference) : Option Reference :=
  if cAssertions config.debug msg ∧ msg.opcode = .releaseData ∧
      msg.data < 256 ^ config.dataBytes then
    (beatIndex ref.cBurst msg.header).map fun index => ref.release config msg index
  else none

/-- One event, if it is legal here; the turns of the channel D driver do not
concern the reference. -/
def step (config : Config) (ref : Reference) (event : Event) : Option Reference :=
  match event with
  | .aFire msg => ref.aBeat config msg
  | .cFire msg => ref.cBeat config msg
  | .dPop | .dFire => some ref
  | _ => none

/-- A sequence of events, if it is legal. -/
def run (config : Config) (ref : Reference) : List Event → Option Reference
  | [] => some ref
  | event :: events => (ref.step config event).bind fun ref => ref.run config events

end Reference

/-! ## The refinement -/

/-- Between transactions: no burst is in progress and nothing is queued. -/
structure Idle (config : Config) (s : State) : Prop where
  drive : s.drive = true
  aOngoings : s.aOngoings = Dict.empty
  cOngoings : s.cOngoings = Dict.empty
  dQueue : s.dQueue = []
  dDriving : s.dDriving = none
  /-- Every word fits the bus. -/
  fits : ∀ addr, s.word addr < 256 ^ config.dataBytes

/-- The reference that starts with the memory and the permissions of the adapter. -/
def Reference.initial (config : Config) (s : State) : Reference where
  bytes := ByteMemory.ofWords config.dataBytes s.word
  perm := s.perm
  aBurst := none
  cBurst := none
  responses := []

/-- The messages sent, the one being driven and those queued are the responses. -/
def Answers (sent : List DMessage) (s : State) (responses : List DMessage) : Prop :=
  ∃ queued : List DMessage, s.dQueue = queued.map (fun msg => (some msg, none)) ∧
    sent ++ s.dDriving.toList ++ queued = responses

/-- The adapter holds the bytes of the reference, counts its bursts and has sent,
or will send, its responses. -/
structure Refines (config : Config) (sent : List DMessage) (s : State) (ref : Reference) : Prop where
  drive : s.drive = true
  bytes : ref.bytes.Represents config.dataBytes s.word
  perm : s.perm = ref.perm
  aOngoings : s.aOngoings = burstTable (ref.aBurst.map fun burst => (burst.1.source, burst.2))
  cOngoings : s.cOngoings = burstTable (ref.cBurst.map fun burst => (burst.1.source, burst.2))
  aPartial : ∀ header count, ref.aBurst = some (header, count) →
    0 < count ∧ count < config.burstLen header.size
  cPartial : ∀ header count, ref.cBurst = some (header, count) →
    0 < count ∧ count < config.burstLen header.size
  answers : Answers sent s ref.responses

/-! ## Single beats -/

/-- The bus is a power of two bytes wide. -/
def Config.PowerOfTwoBus (config : Config) : Prop := ∃ k, config.dataBytes = 2 ^ k

variable {config : Config}

theorem addrAligned_eq_wordBase (bus : config.PowerOfTwoBus) (addr : Nat) :
    config.addrAligned addr = wordBase config addr := by
  rcases bus with ⟨k, width⟩
  rw [Config.addrAligned, wordBase, width, Nat.log2_two_pow, ldiff_two_pow_sub_one]

theorem dvd_wordBase_add (addr index : Nat) :
    config.dataBytes ∣ wordBase config addr + index * config.dataBytes := by
  rw [wordBase, ← Nat.add_mul]
  exact Nat.dvd_mul_left _ _

/-- A masked beat writes the bytes its mask selects. -/
theorem represents_put {word : Nat → Nat} {bytes : ByteMemory}
    (represents : bytes.Represents config.dataBytes word) {base : Nat}
    (aligned : config.dataBytes ∣ base) (mask : Nat) {data : Nat}
    (fits : data < 256 ^ config.dataBytes) :
    (bytes.write config.dataBytes base mask.testBit data).Represents config.dataBytes
      (fun addr => if addr = base then splice (bitMask mask) (word base) data else word addr) := by
  apply represents.assign aligned
  · have power : (256 : Nat) ^ config.dataBytes = 2 ^ (8 * config.dataBytes) := by
      rw [Nat.pow_mul]
    have oldFits := represents.fits base aligned
    rw [power] at fits oldFits ⊢
    exact splice_lt oldFits fits
  · intro j _
    exact byteAt_splice (fun bit inside => testBit_bitMask mask j inside) _ _

/-- A released beat writes all its bytes. -/
theorem represents_release {word : Nat → Nat} {bytes : ByteMemory}
    (represents : bytes.Represents config.dataBytes word) {base : Nat}
    (aligned : config.dataBytes ∣ base) {data : Nat} (fits : data < 256 ^ config.dataBytes) :
    (bytes.write config.dataBytes base (fun _ => true) data).Represents config.dataBytes
      (fun addr => if addr = base then data else word addr) := by
  apply represents.assign aligned fits
  intro j _
  rfl

/-- Without a callback every entry of a burst carries none. -/
theorem wordEntries_none (message : Nat → DMessage) (burstLen base : Nat) (word : Nat → Nat) :
    wordEntries config message none burstLen base word =
      ((List.range burstLen).map fun i => message (word (base + i * config.dataBytes))).map
        fun msg => (some msg, none) := by
  rw [wordEntries_eq_map, List.map_map]
  apply List.map_congr_left
  intro i _
  simp

section Beats

variable {sent : List DMessage} {s : State} {ref : Reference}

theorem Answers.push {responses : List DMessage} (answers : Answers sent s responses)
    (msgs : List DMessage) :
    Answers sent (s.pushD (msgs.map fun msg => (some msg, none))) (responses ++ msgs) := by
  rcases answers with ⟨queued, queue, rfl⟩
  refine ⟨queued ++ msgs, ?_, ?_⟩
  · rw [State.pushD, queue, List.map_append]
  · rw [State.pushD, List.append_assoc _ queued]

/-- Reading a burst queues its words and changes no word. -/
theorem pushAccessAckData_eq (bus : config.PowerOfTwoBus) (size source address : Nat)
    (represents : ref.bytes.Represents config.dataBytes s.word) :
    ∃ memory : Dict Nat Nat, (s.setMemory memory).word = s.word ∧
      s.pushAccessAckData config (config.burstLen size) (config.addrAligned address) size source =
        (s.setMemory memory).pushD
          (((List.range (config.burstLen size)).map fun i => accessAckData size source
            (ref.bytes.read config.dataBytes (wordBase config address + i * config.dataBytes))).map
              fun msg => (some msg, none)) := by
  obtain ⟨memory, same, pushed⟩ := State.pushWords_eq config (accessAckData size source) none
    (config.burstLen size) (config.addrAligned address) s
  refine ⟨memory, same, ?_⟩
  rw [State.pushAccessAckData, pushed, wordEntries_none]
  congr 2
  apply List.map_congr_left
  intro i _
  rw [represents.read_eq (dvd_wordBase_add address i), addrAligned_eq_wordBase bus]

theorem aPortMonitor_get (bus : config.PowerOfTwoBus) (refines : Refines config sent s ref)
    {msg : AMessage} (asserted : aAssertions config.debug msg) (opcode : msg.opcode = .get)
    (owned : ref.perm (config.blockAddr msg.address) = tip) (closed : ref.aBurst = none) :
    ∃ s', aPortMonitor config msg s = some s' ∧ Refines config sent s' (ref.get config msg) := by
  have passes : notInterleaved s.aOngoings msg.source = true := by
    rw [refines.aOngoings, closed]
    rfl
  have entered : (s.enterBlock (config.blockAddr msg.address)).perm = ref.perm := by
    rw [State.perm_enterBlock, refines.perm]
  obtain ⟨memory, same, pushed⟩ := pushAccessAckData_eq
    (s := s.enterBlock (config.blockAddr msg.address)) bus msg.size msg.source msg.address
    refines.bytes
  have accepted : aPortMonitor config msg s = some
      ((s.enterBlock (config.blockAddr msg.address)).pushAccessAckData config
        (config.burstLen msg.size) (config.addrAligned msg.address) msg.size msg.source) := by
    rw [aPortMonitor, if_pos ⟨asserted, passes⟩]
    simp [opcode, getData, entered, owned]
  rw [accepted, pushed]
  refine ⟨_, rfl, ?_⟩
  constructor
  · exact refines.drive
  · have words : (s.setMemory memory).word = s.word := same
    exact words ▸ refines.bytes
  · exact entered
  · exact refines.aOngoings
  · exact refines.cOngoings
  · exact refines.aPartial
  · exact refines.cPartial
  · exact refines.answers.push _

theorem aPortMonitor_put (bus : config.PowerOfTwoBus) (refines : Refines config sent s ref)
    {msg : AMessage} (asserted : aAssertions config.debug msg)
    (opcode : msg.opcode = .putFullData ∨ msg.opcode = .putPartialData)
    (owned : ref.perm (config.blockAddr msg.address) = tip)
    (fits : msg.data < 256 ^ config.dataBytes) {index : Nat}
    (next : beatIndex ref.aBurst msg.header = some index) :
    ∃ s', aPortMonitor config msg s = some s' ∧
      Refines config sent s' (ref.put config msg index) := by
  have table := burstTable_of_beatIndex AMessage.source next
  rw [← refines.aOngoings] at table
  have count : s.aOngoings.getD msg.source 0 = index := table.1
  have passes : notInterleaved s.aOngoings msg.source = true := table.2
  have counted : countBeat (config.burstLen msg.size) msg.source s.aOngoings = _ :=
    refines.aOngoings ▸ countBeat_burstTable AMessage.source next
      (fun opened count opening => (refines.aPartial opened count opening).1)
      (config.burstLen msg.size)
  have entered : (s.enterBlock (config.blockAddr msg.address)).perm = ref.perm := by
    rw [State.perm_enterBlock, refines.perm]
  have base : beatAddr config s.aOngoings msg.source msg.address =
      wordBase config msg.address + index * config.dataBytes := by
    rw [beatAddr, count, addrAligned_eq_wordBase bus]
  have accepted : aPortMonitor config msg s =
      putData config msg (s.enterBlock (config.blockAddr msg.address)) := by
    rw [aPortMonitor, if_pos ⟨asserted, passes⟩]
    rcases opcode with full | masked
    · simp [full]
    · simp [masked]
  have answer : (if lastBeat (config.burstLen msg.size) msg.source s.aOngoings then
        [(some (accessAck msg.size msg.source), none)] else []) =
      (if index + 1 = config.burstLen msg.size then [accessAck msg.size msg.source] else []).map
        fun msg => ((some msg, none) : DEntry) := by
    rw [lastBeat, count]
    by_cases last : index + 1 = config.burstLen msg.size
    · simp [last]
    · simp [last]
  rw [accepted, putData, entered, if_neg (not_not_intro owned)]
  refine ⟨_, rfl, ?_⟩
  constructor
  · exact refines.drive
  · let addr := beatAddr config s.aOngoings msg.source msg.address
    change (ref.put config msg index).bytes.Represents config.dataBytes
      (s.store addr (splice (bitMask msg.mask) (s.word addr) msg.data)).word
    rw [State.word_store, show addr = _ from base]
    exact represents_put refines.bytes (dvd_wordBase_add msg.address index) msg.mask fits
  · exact entered
  · exact counted
  · exact refines.cOngoings
  · intro opened count after
    exact burstAfter_bounds next (fun header => config.burstLen header.size)
      (burstLen_pos msg.size) refines.aPartial after
  · exact refines.cPartial
  · have pushed := refines.answers.push
      (if index + 1 = config.burstLen msg.size then [accessAck msg.size msg.source] else [])
    rw [← answer] at pushed
    exact pushed

theorem cPortMonitor_release (bus : config.PowerOfTwoBus) (refines : Refines config sent s ref)
    {msg : CMessage} (asserted : cAssertions config.debug msg)
    (opcode : msg.opcode = .releaseData) (fits : msg.data < 256 ^ config.dataBytes) {index : Nat}
    (next : beatIndex ref.cBurst msg.header = some index) :
    ∃ s', cPortMonitor config msg s = some s' ∧
      Refines config sent s' (ref.release config msg index) := by
  have table := burstTable_of_beatIndex CMessage.source next
  rw [← refines.cOngoings] at table
  have count : s.cOngoings.getD msg.source 0 = index := table.1
  have passes : notInterleaved s.cOngoings msg.source = true := table.2
  have counted : countBeat (config.burstLen msg.size) msg.source s.cOngoings = _ :=
    refines.cOngoings ▸ countBeat_burstTable CMessage.source next
      (fun opened count opening => (refines.cPartial opened count opening).1)
      (config.burstLen msg.size)
  have base : beatAddr config s.cOngoings msg.source msg.address =
      wordBase config msg.address + index * config.dataBytes := by
    rw [beatAddr, count, addrAligned_eq_wordBase bus]
  have stored : (storeBeat config msg s).word = fun addr =>
      if addr = wordBase config msg.address + index * config.dataBytes then msg.data
      else s.word addr := by
    rw [storeBeat, State.word_store, base]
  have written := represents_release refines.bytes (dvd_wordBase_add msg.address index) fits
  have partialAfter : ∀ opened count,
      burstAfter msg.header (config.burstLen msg.size) index = some (opened, count) →
        0 < count ∧ count < config.burstLen opened.size := by
    intro opened count after
    exact burstAfter_bounds next (fun header => config.burstLen header.size)
      (burstLen_pos msg.size) refines.cPartial after
  by_cases last : index + 1 = config.burstLen msg.size
  · have accepted : cPortMonitor config msg s =
        some (((returnPerm config msg (storeBeat config msg s)).pushD
          [(some (releaseAck msg.size msg.source), none)]).countC config msg) := by
      rw [cPortMonitor, if_pos ⟨asserted, passes⟩]
      simp [opcode, lastBeat, count, last]
    obtain ⟨blockPerm, returned, perm⟩ := returnPerm_eq config msg (storeBeat config msg s)
    rw [accepted, returned]
    refine ⟨_, rfl, ?_⟩
    constructor
    · exact refines.drive
    · change (ref.release config msg index).bytes.Represents config.dataBytes
        (storeBeat config msg s).word
      rw [stored]
      exact written
    · funext blockAddr
      change blockPerm.getD blockAddr tip = _
      rw [perm, storeBeat, State.perm_store, refines.perm]
      simp [Reference.release, last]
    · exact refines.aOngoings
    · exact counted
    · exact refines.aPartial
    · exact partialAfter
    · have answers : Answers sent (s.pushD [(some (releaseAck msg.size msg.source), none)])
          (ref.release config msg index).responses := by
        simpa [Reference.release, last] using
          refines.answers.push [releaseAck msg.size msg.source]
      exact answers
  · have accepted : cPortMonitor config msg s =
        some ((storeBeat config msg s).countC config msg) := by
      rw [cPortMonitor, if_pos ⟨asserted, passes⟩]
      simp [opcode, lastBeat, count, last]
    rw [accepted]
    refine ⟨_, rfl, ?_⟩
    constructor
    · exact refines.drive
    · change (ref.release config msg index).bytes.Represents config.dataBytes
        (storeBeat config msg s).word
      rw [stored]
      exact written
    · change s.perm = _
      simpa [Reference.release, last] using refines.perm
    · exact refines.aOngoings
    · exact counted
    · exact refines.aPartial
    · exact partialAfter
    · have answers : Answers sent s (ref.release config msg index).responses := by
        simpa [Reference.release, last] using refines.answers
      exact answers

/-- A turn of the driver moves the oldest queued message to the port. -/
theorem popD_refines (refines : Refines config sent s ref) (waiting : s.dDriving = none) :
    ∃ s', popD s = some s' ∧ Refines config sent s' ref := by
  obtain ⟨queued, queue, responses⟩ := refines.answers
  cases queued with
  | nil =>
      refine ⟨s, ?_, refines⟩
      rw [popD, queue]
      rfl
  | cons msg queued =>
      refine ⟨{ s with dQueue := queued.map fun msg => (some msg, none), dDriving := some msg },
        ?_, ?_⟩
      · rw [popD, queue]
        rfl
      · constructor
        · exact refines.drive
        · exact refines.bytes
        · exact refines.perm
        · exact refines.aOngoings
        · exact refines.cOngoings
        · exact refines.aPartial
        · exact refines.cPartial
        · refine ⟨queued, rfl, ?_⟩
          rw [← responses, waiting]
          simp

end Beats

/-! ## Runs -/

/-- The messages that leave on channel D at an event. -/
def sentAt (s : State) (event : Event) : List DMessage :=
  match event with
  | .dFire => s.dDriving.toList
  | _ => []

/-- The messages that leave on channel D during a run, in order. -/
def sentBy (config : Config) (s : State) : List Event → List DMessage
  | [] => []
  | event :: events =>
      sentAt s event ++
        match step config s event with
        | some s => sentBy config s events
        | none => []

/-- A legal event is accepted and keeps the refinement. -/
theorem step_refines (bus : config.PowerOfTwoBus) {sent : List DMessage} {s : State}
    {ref ref' : Reference} (refines : Refines config sent s ref) {event : Event}
    (legal : ref.step config event = some ref') :
    ∃ s', step config s event = some s' ∧ Refines config (sent ++ sentAt s event) s' ref' := by
  have quiet : sentAt s event = [] → sent ++ sentAt s event = sent := by
    intro none
    rw [none, List.append_nil]
  cases event with
  | aFire msg =>
      rw [quiet rfl]
      simp only [Reference.step, Reference.aBeat] at legal
      split at legal
      · rename_i conditions
        rcases conditions with ⟨asserted, owned, fits⟩
        simp only [step, refines.drive, if_true]
        split at legal
        · rename_i opcode
          split at legal
          · rename_i closed
            cases legal
            exact aPortMonitor_get bus refines asserted opcode owned closed
          · cases legal
        · rename_i opcode
          obtain ⟨index, next, rfl⟩ := Option.map_eq_some_iff.mp legal
          exact aPortMonitor_put bus refines asserted (Or.inl opcode) owned fits next
        · rename_i opcode
          obtain ⟨index, next, rfl⟩ := Option.map_eq_some_iff.mp legal
          exact aPortMonitor_put bus refines asserted (Or.inr opcode) owned fits next
        · cases legal
      · cases legal
  | cFire msg =>
      rw [quiet rfl]
      simp only [Reference.step, Reference.cBeat] at legal
      split at legal
      · rename_i conditions
        rcases conditions with ⟨asserted, opcode, fits⟩
        obtain ⟨index, next, rfl⟩ := Option.map_eq_some_iff.mp legal
        simp only [step, refines.drive, if_true]
        exact cPortMonitor_release bus refines asserted opcode fits next
      · cases legal
  | dPop =>
      rw [quiet rfl]
      cases legal
      by_cases waiting : s.dDriving = none
      · simp only [step, refines.drive, waiting, and_self, if_true]
        exact popD_refines refines waiting
      · refine ⟨s, ?_, refines⟩
        simp [step, waiting]
  | dFire =>
      cases legal
      refine ⟨{ s with dDriving := none }, rfl, ?_⟩
      obtain ⟨queued, queue, responses⟩ := refines.answers
      constructor
      · exact refines.drive
      · exact refines.bytes
      · exact refines.perm
      · exact refines.aOngoings
      · exact refines.cOngoings
      · exact refines.aPartial
      · exact refines.cPartial
      · refine ⟨queued, queue, ?_⟩
        simpa [sentAt] using responses
  | eFire sink => cases legal
  | bPop => cases legal
  | bFire => cases legal
  | host => cases legal
  | retriever => cases legal
  | probeBlock addr => cases legal
  | stop => cases legal

/-- A legal sequence of events runs and keeps the refinement. -/
theorem run_refines (bus : config.PowerOfTwoBus) {sent : List DMessage} {s : State}
    {ref ref' : Reference} (refines : Refines config sent s ref) {events : List Event}
    (legal : ref.run config events = some ref') :
    ∃ s', run config s events = some s' ∧
      Refines config (sent ++ sentBy config s events) s' ref' := by
  induction events generalizing sent s ref with
  | nil =>
      cases legal
      refine ⟨s, rfl, ?_⟩
      simpa [sentBy] using refines
  | cons event events ih =>
      obtain ⟨mid, first, legal⟩ := Option.bind_eq_some_iff.mp legal
      obtain ⟨next, stepped, refines⟩ := step_refines bus refines first
      obtain ⟨last, ran, refines⟩ := ih refines legal
      refine ⟨last, ?_, ?_⟩
      · rw [run, stepped]
        exact ran
      · simpa [sentBy, stepped] using refines

theorem refines_initial {s : State} (idle : Idle config s) :
    Refines config [] s (Reference.initial config s) := by
  constructor
  · exact idle.drive
  · exact ByteMemory.represents_ofWords fun base _ => idle.fits base
  · rfl
  · exact idle.aOngoings
  · exact idle.cOngoings
  · intro header count opened
    cases opened
  · intro header count opened
    cases opened
  · refine ⟨[], idle.dQueue, ?_⟩
    simp [idle.dDriving, Reference.initial]

/-- A started adapter is between transactions. -/
theorem idle_start {memory : Dict Nat Nat} (s : State)
    (fits : ∀ addr, memory.getD addr 0 < 256 ^ config.dataBytes) :
    Idle config (s.start config memory) := by
  constructor
  · rfl
  · rfl
  · rfl
  · rfl
  · rfl
  · exact fits

/-- Every legal sequence of uncached accesses and releases is served as a byte
memory: the adapter raises no exception, its words hold the reference's bytes,
it has sent or queued exactly the reference's responses in their order, and its
beat counters are those of the bursts in progress, hence empty between bursts. -/
theorem uncached_refines_byteMemory (bus : config.PowerOfTwoBus) {s : State}
    (idle : Idle config s) {events : List Event} {ref : Reference}
    (legal : (Reference.initial config s).run config events = some ref) :
    ∃ s', run config s events = some s' ∧
      (∀ base, config.dataBytes ∣ base → ∀ j < config.dataBytes,
        byteAt (s'.word base) j = ref.bytes (base + j)) ∧
      (∃ queued : List DMessage, s'.dQueue = queued.map (fun msg => (some msg, none)) ∧
        sentBy config s events ++ s'.dDriving.toList ++ queued = ref.responses) ∧
      s'.perm = ref.perm ∧
      (ref.aBurst = none → s'.aOngoings = s.aOngoings) ∧
      (ref.cBurst = none → s'.cOngoings = s.cOngoings) := by
  obtain ⟨s', ran, refines⟩ := run_refines bus (refines_initial idle) legal
  refine ⟨s', ran, refines.bytes.agree, ?_, refines.perm, ?_, ?_⟩
  · simpa [Answers] using refines.answers
  · intro closed
    rw [refines.aOngoings, idle.aOngoings, closed]
    rfl
  · intro closed
    rw [refines.cOngoings, idle.cOngoings, closed]
    rfl

/-- A masked store, a two-beat store and a load of both words. -/
def storesAndLoad : List Event :=
  let beat (opcode : AOpcode) (size mask data : Nat) : Event :=
    .aFire { opcode, param := 0, size, source := 5, address := 0x80000000, mask, data }
  [beat .putPartialData 3 0b00100110 0xffffffffffffffff,
    beat .putFullData 4 0xff 1, .dPop, beat .putFullData 4 0xff 2, .dFire,
    beat .get 4 0xff 0, .dPop]

theorem uncached_refines_byteMemory_storesAndLoad :
    ∃ s', run tileConfig ((State.init []).start tileConfig Dict.empty) storesAndLoad = some s' ∧
      byteAt (s'.word 0x80000008) 0 = 2 ∧ s'.aOngoings = Dict.empty := by
  have bus : tileConfig.PowerOfTwoBus := ⟨3, rfl⟩
  have idle : Idle tileConfig ((State.init []).start tileConfig Dict.empty) :=
    idle_start _ fun addr => Nat.pow_pos (by decide)
  have legal : ((Reference.initial tileConfig
      ((State.init []).start tileConfig Dict.empty)).run tileConfig storesAndLoad).map
        (fun ref => (ref.bytes 0x80000008, ref.aBurst)) = some (2, none) := by
    decide +kernel
  obtain ⟨ref, legal, ends⟩ := Option.map_eq_some_iff.mp legal
  obtain ⟨s', ran, bytes, _, _, counters, _⟩ := uncached_refines_byteMemory bus idle legal
  refine ⟨s', ran, ?_, ?_⟩
  · rw [bytes 0x80000008 (by decide) 0 (by decide)]
    exact congrArg Prod.fst ends
  · exact counters (congrArg Prod.snd ends)

end Difftest.TileLink
