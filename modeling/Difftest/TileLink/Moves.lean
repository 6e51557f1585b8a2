import Difftest.TileLink.Adapter

/-!
# What a step of the adapter can do

The coherence results speak about permissions, words, queues and probes only.
`State.view` forgets the rest of the state, and `View.Moves` says what each event
can do to what is left.  Every step of the adapter is such a move; invariants are
proved from the moves and never unfold the adapter.
-/

namespace Difftest.TileLink

/-! ## Views -/

/-- The part of the state that permissions and grants depend on. -/
structure View where
  word : Nat → Nat
  perm : Nat → Nat
  aOngoings : Dict Nat Nat
  cOngoings : Dict Nat Nat
  dQueue : List DEntry
  dDriving : Option DMessage
  bQueue : List BMessage
  bDriving : Option BMessage
  ids : FreeList Retrieval
  pending : Nat → Option Callback
  drive : Bool
  retrieve : Bool
  retrieved : Bool

/-- What an adapter state looks like from here. -/
def State.view (s : State) : View where
  word := s.word
  perm := s.perm
  aOngoings := s.aOngoings
  cOngoings := s.cOngoings
  dQueue := s.dQueue
  dDriving := s.dDriving
  bQueue := s.bQueue
  bDriving := s.bDriving
  ids := s.bSrcs
  pending := s.bCallback.pending
  drive := s.drive
  retrieve := s.retrieve
  retrieved := s.retrieved

namespace View

variable (config : Config)

def push (entries : List DEntry) (v : View) : View := { v with dQueue := v.dQueue ++ entries }

def store (addr value : Nat) (v : View) : View :=
  { v with word := fun other => if other = addr then value else v.word other }

def setPerm (blockAddr perm : Nat) (v : View) : View :=
  { v with perm := fun other => if other = blockAddr then perm else v.perm other }

def setPending (src : Nat) (callback : Option Callback) (v : View) : View :=
  { v with pending := fun other => if other = src then callback else v.pending other }

/-- The probe a retrieval sends. -/
def probe (retrieval : Retrieval) (src : Nat) : BMessage :=
  { opcode := retrieval.opcode, param := retrieval.param, size := retrieval.size, source := src,
    address := retrieval.address, mask := retrieval.mask, data := 0 }

/-- Send the probe of a retrieval under a source that was free. -/
def issue (retrieval : Retrieval) (src : Nat) (v : View) : View :=
  { v.setPending src (some retrieval.callback) with
    ids := { v.ids with freeList := v.ids.freeList.erase src }
    bQueue := v.bQueue ++ [probe retrieval src] }

/-- A retrieval is sent, or waits because no source is free. -/
inductive Retrieves (retrieval : Retrieval) (v : View) : View → Prop
  | waits (busy : v.ids.freeList = []) :
      Retrieves retrieval v { v with ids := v.ids.reserve retrieval }
  | sends (src : Nat) (free : src ∈ v.ids.freeList) (unused : v.pending src = none) :
      Retrieves retrieval v (v.issue retrieval src)

end View

/-- Entries that neither grant nor change a permission. -/
def PlainEntry (entry : DEntry) : Prop :=
  (∀ blockAddr param, entry.2 ≠ some (.updatePerm blockAddr param)) ∧
    ∀ msg, entry.1 = some msg → msg.opcode ≠ .grant ∧ msg.opcode ≠ .grantData

/-- Callbacks that neither grant nor continue the final sweep. -/
def PlainCallback : Callback → Prop
  | .grant .. | .grantData .. | .probeBlocksRec _ => False
  | _ => True

/-- Channel A opcodes that change memory. -/
def AOpcode.writes : AOpcode → Bool
  | .putFullData | .putPartialData | .arithmeticData | .logicalData => true
  | _ => false

/-- The entries of a `GrantData` burst. -/
def grantEntries (config : Config) (burstLen addrAligned param sink size source blockAddr : Nat)
    (word : Nat → Nat) : List DEntry :=
  wordEntries config (grantData param size source sink) (some (.updatePerm blockAddr param))
    burstLen addrAligned word

/-- The callback that grants a block once it is retrieved. -/
def grantCallback (config : Config) (msg : AMessage) (sink : Nat) : Callback :=
  .grantData (config.burstLen msg.size) (config.addrAligned msg.address) (grantParam msg.param)
    sink msg.size msg.source (config.blockAddr msg.address)

/-- The retrieval of one block of the final sweep. -/
def sweepRetrieval (config : Config) (addr : Nat) (rest : List Nat) : Retrieval :=
  { opcode := .probeBlock, callback := .probeBlocksRec rest, param := toN,
    size := config.probeSize, address := addr, mask := config.probeMask }

namespace View

variable (config : Config)

/-- One beat accepted on channel A. -/
inductive Accepts (msg : AMessage) (v : View) : View → Prop
  | answers (entries : List DEntry) (plain : ∀ entry ∈ entries, PlainEntry entry) :
      Accepts msg v (v.push entries)
  | writes (value : Nat) (entries : List DEntry) (aOngoings : Dict Nat Nat)
      (plain : ∀ entry ∈ entries, PlainEntry entry)
      (owned : v.perm (config.blockAddr msg.address) = tip) (opcode : msg.opcode.writes) :
      Accepts msg v
        { (v.store (beatAddr config v.aOngoings msg.source msg.address) value).push entries with
          aOngoings }
  | retrieves (retrieval : Retrieval) (plain : PlainCallback retrieval.callback) {v' : View}
      (retrieved : v.Retrieves retrieval v') : Accepts msg v v'
  | grants (sink : Nat) (opcode : msg.opcode = .acquireBlock)
      (owned : v.perm (config.blockAddr msg.address) = tip) :
      Accepts msg v (v.push (grantEntries config (config.burstLen msg.size)
        (config.addrAligned msg.address) (grantParam msg.param) sink msg.size msg.source
        (config.blockAddr msg.address) v.word))
  | grantsLater (sink : Nat) (opcode : msg.opcode = .acquireBlock) (retrieval : Retrieval)
      (callback : retrieval.callback = grantCallback config msg sink) {v' : View}
      (retrieved : v.Retrieves retrieval v') : Accepts msg v v'
  | grantsPerm (sink : Nat) (opcode : msg.opcode = .acquirePerm)
      (owned : v.perm (config.blockAddr msg.address) = tip) :
      Accepts msg v (v.push
        [(some (grant (grantParam msg.param) msg.size msg.source sink),
          some (.updatePerm (config.blockAddr msg.address) (grantParam msg.param)))])

/-- A callback of a probe runs. -/
inductive Calls : Callback → View → View → Prop
  | answers {callback : Callback} (plainCallback : PlainCallback callback) (v : View)
      (entries : List DEntry) (plain : ∀ entry ∈ entries, PlainEntry entry) :
      Calls callback v (v.push entries)
  | grants (burstLen addrAligned param sink size source blockAddr : Nat) (v : View) :
      Calls (.grantData burstLen addrAligned param sink size source blockAddr) v
        (v.push (grantEntries config burstLen addrAligned param sink size source blockAddr v.word))
  | sweeps (addr : Nat) (rest : List Nat) {v v' : View}
      (retrieved : v.Retrieves (sweepRetrieval config addr rest) v') :
      Calls (.probeBlocksRec (addr :: rest)) v v'
  | stops (v : View) : Calls (.probeBlocksRec []) v { v with drive := false }

/-- The callback of a source is taken and runs, if there is one. -/
inductive Takes (src : Nat) (v : View) : View → Prop
  | empty (none : v.pending src = none) : Takes src v v
  | runs {callback : Callback} (found : v.pending src = some callback) {v' : View}
      (called : Calls config callback (v.setPending src none) v') : Takes src v v'

/-- A source becomes free and the oldest waiting retrieval leaves the queue. -/
def freed (src : Nat) (v : View) : View :=
  { v with
    ids := { v.ids with
      freeList := v.ids.freeList ++ [src]
      eventQueue := v.ids.eventQueue.tail } }

/-- A source becomes free; the oldest waiting retrieval takes a free one. -/
inductive Releases (src : Nat) (v : View) : View → Prop
  | rests (known : src ∈ v.ids.initList) (used : src ∉ v.ids.freeList)
      (nobody : v.ids.eventQueue.head? = none) : Releases src v (v.freed src)
  | serves (known : src ∈ v.ids.initList) (used : src ∉ v.ids.freeList)
      (retrieval : Retrieval) (waiting : v.ids.eventQueue.head? = some retrieval) (next : Nat)
      (free : next ∈ v.ids.freeList ++ [src]) (unused : v.pending next = none) :
      Releases src v ((v.freed src).issue retrieval next)

/-- A probe answer: the callback runs, then the source is released. -/
def Answers (src : Nat) (v v' : View) : Prop :=
  ∃ called, Takes config src v called ∧ Releases src called v'

/-- A message with a trunk parameter returns its block. -/
def returns (msg : CMessage) (v : View) : View :=
  if msg.param = tToB ∨ msg.param = tToN then v.setPerm (config.blockAddr msg.address) tip else v

def storeBeat (msg : CMessage) (v : View) : View :=
  v.store (beatAddr config v.cOngoings msg.source msg.address) msg.data

def countBeat (msg : CMessage) (v : View) : View :=
  { v with cOngoings := TileLink.countBeat (config.burstLen msg.size) msg.source v.cOngoings }

/-- Is this the last beat of its message on channel C? -/
def LastBeat (msg : CMessage) (v : View) : Prop :=
  lastBeat (config.burstLen msg.size) msg.source v.cOngoings = true

/-- One beat accepted on channel C. -/
inductive Receives (msg : CMessage) (v : View) : View → Prop
  | reserved (opcode : msg.opcode = .reserved) : Receives msg v v
  | probeAck (opcode : msg.opcode = .probeAck) {v' : View}
      (answered : Answers config msg.source (v.returns config msg) v') : Receives msg v v'
  | release (opcode : msg.opcode = .release) :
      Receives msg v ((v.returns config msg).push [(some (releaseAck msg.size msg.source), none)])
  | beat (opcode : msg.opcode = .probeAckData ∨ msg.opcode = .releaseData)
      (more : ¬ v.LastBeat config msg) :
      Receives msg v ((v.storeBeat config msg).countBeat config msg)
  | probeAckData (opcode : msg.opcode = .probeAckData) (last : v.LastBeat config msg) {v' : View}
      (answered : Answers config msg.source ((v.storeBeat config msg).returns config msg) v') :
      Receives msg v (v'.countBeat config msg)
  | releaseData (opcode : msg.opcode = .releaseData) (last : v.LastBeat config msg) :
      Receives msg v
        ((((v.storeBeat config msg).returns config msg).push
          [(some (releaseAck msg.size msg.source), none)]).countBeat config msg)

/-- One turn of the channel D driver. -/
inductive Pops (v : View) : View → Prop
  | waits : Pops v v
  | bubble (callback : Option DCallback) (rest : List DEntry)
      (head : v.dQueue = (none, callback) :: rest) : Pops v { v with dQueue := rest }
  | plain (msg : DMessage) (callback : Option DCallback) (rest : List DEntry)
      (head : v.dQueue = (some msg, callback) :: rest) (idle : v.dDriving = none)
      (keeps : ∀ blockAddr param, callback ≠ some (.updatePerm blockAddr param)) :
      Pops v { v with dQueue := rest, dDriving := some msg }
  | grant (msg : DMessage) (blockAddr param : Nat) (rest : List DEntry)
      (head : v.dQueue = (some msg, some (.updatePerm blockAddr param)) :: rest)
      (idle : v.dDriving = none) :
      Pops v
        (if param = toT then setPerm blockAddr trunk { v with dQueue := rest, dDriving := some msg }
        else { v with dQueue := rest, dDriving := some msg })

/-- One event. -/
inductive Moves : Event → View → View → Prop
  | aFire (msg : AMessage) {v v' : View} (driving : v.drive) (accepted : v.Accepts config msg v') :
      Moves (.aFire msg) v v'
  | cFire (msg : CMessage) {v v' : View} (driving : v.drive)
      (alone : notInterleaved v.cOngoings msg.source) (received : v.Receives config msg v') :
      Moves (.cFire msg) v v'
  | eFire (sink : Nat) (v : View) : Moves (.eFire sink) v v
  | dWait (v : View) : Moves .dPop v v
  | dPop {v v' : View} (driving : v.drive) (popped : v.Pops v') : Moves .dPop v v'
  | dFire (v : View) : Moves .dFire v { v with dDriving := none }
  | bWait (v : View) : Moves .bPop v v
  | bPop (v : View) (msg : BMessage) (rest : List BMessage) (head : v.bQueue = msg :: rest)
      (idle : v.bDriving = none) : Moves .bPop v { v with bQueue := rest, bDriving := some msg }
  | bFire (v : View) : Moves .bFire v { v with bDriving := none }
  | hostWait (v : View) : Moves .host v v
  | host (retrieval : Retrieval) (plain : PlainCallback retrieval.callback) {v v' : View}
      (retrieved : v.Retrieves retrieval v') : Moves .host v v'
  | retrieverWait (v : View) (waiting : ¬ (v.retrieve ∧ ¬ v.retrieved)) : Moves .retriever v v
  | retriever (addrs : List Nat) {v v' : View} (asked : v.retrieve) (fresh : v.retrieved = false)
      (cover : ∀ addr, v.perm addr ≠ tip → addr ∈ addrs)
      (called : Calls config (.probeBlocksRec addrs) { v with retrieved := true } v') :
      Moves .retriever v v'
  | probeBlock (addr : Nat) (v : View) : Moves (.probeBlock addr) v v
  | stop (v : View) : Moves .stop v { v with retrieve := true }

end View

/-! ## Every step is a move -/

variable {config : Config} {s s' : State}

theorem view_enterBlock (blockAddr : Nat) (s : State) : (s.enterBlock blockAddr).view = s.view := by
  simp only [State.view, State.perm_enterBlock, State.word_enterBlock]
  rfl

theorem view_store (addr value : Nat) (s : State) :
    (s.store addr value).view = s.view.store addr value := by
  simp only [State.view, State.word_store, State.perm_store]
  rfl

theorem view_setPerm (blockAddr perm : Nat) (s : State) :
    (s.setPerm blockAddr perm).view = s.view.setPerm blockAddr perm := by
  simp only [State.view, State.word_setPerm, State.perm_setPerm]
  rfl

theorem view_pushD (entries : List DEntry) (s : State) :
    (s.pushD entries).view = s.view.push entries := rfl

theorem view_pushWords (message : Nat → DMessage) (callback : Option DCallback)
    (burstLen addrAligned : Nat) (s : State) :
    (s.pushWords config message callback burstLen addrAligned).view =
      s.view.push (wordEntries config message callback burstLen addrAligned s.word) := by
  obtain ⟨memory, same, pushed⟩ :=
    State.pushWords_eq config message callback burstLen addrAligned s
  rw [pushed, view_pushD]
  congr 1
  simp only [State.view, same]
  rfl

theorem view_returnPerm (msg : CMessage) (s : State) :
    (returnPerm config msg s).view = s.view.returns config msg := by
  rw [returnPerm, View.returns]
  split
  · exact view_setPerm _ _ s
  · rfl

theorem view_storeBeat (msg : CMessage) (s : State) :
    (storeBeat config msg s).view = s.view.storeBeat config msg :=
  view_store _ _ s

theorem retrieveBlockCb_view {retrieval : Retrieval}
    (issued : retrieveBlockCb retrieval s = some s') :
    ∃ src ∈ s.bSrcs.freeList, s.bCallback.pending src = none ∧
      s'.view = s.view.issue retrieval src := by
  obtain ⟨⟨src, ids⟩, got, issued⟩ := Option.bind_eq_some_iff.mp issued
  obtain ⟨callbacks, recorded, rfl⟩ := Option.map_eq_some_iff.mp issued
  have free := FreeList.mem_of_get got
  obtain ⟨_, rfl⟩ := FreeList.get_eq_some_iff.mp got
  have pending : callbacks.pending = fun other =>
      if other = src then some retrieval.callback else s.bCallback.pending other :=
    funext fun other => SrcToCallback.pending_of_set recorded other
  obtain ⟨unused, _, _⟩ := SrcToCallback.set_eq_some_iff.mp recorded
  refine ⟨src, free, ?_, ?_⟩
  · rw [SrcToCallback.pending]
    exact congrArg Option.join unused
  · simp only [State.view, pending]
    rfl

theorem retrieveBlock_view {retrieval : Retrieval}
    (retrieved : retrieveBlock retrieval s = some s') : s.view.Retrieves retrieval s'.view := by
  unfold retrieveBlock at retrieved
  split at retrieved
  · rename_i busy
    cases retrieved
    exact View.Retrieves.waits (List.isEmpty_iff.mp busy)
  · obtain ⟨src, free, unused, issued⟩ := retrieveBlockCb_view retrieved
    rw [issued]
    exact View.Retrieves.sends src free unused

theorem probeBlocksRec_view {addrs : List Nat} (probed : probeBlocksRec config addrs s = some s') :
    View.Calls config (.probeBlocksRec addrs) s.view s'.view := by
  cases addrs with
  | nil =>
      cases probed
      exact View.Calls.stops s.view
  | cons addr rest => exact View.Calls.sweeps addr rest (retrieveBlock_view probed)

/-- An entry of a burst carries a word of it, and only the burst's callback. -/
theorem of_mem_wordEntries {message : Nat → DMessage} {callback : Option DCallback}
    {burstLen base : Nat} {word : Nat → Nat} {entry : DEntry}
    (mem : entry ∈ wordEntries config message callback burstLen base word) :
    (∃ data, entry.1 = some (message data)) ∧ (entry.2 = callback ∨ entry.2 = none) := by
  obtain ⟨⟨data, carried⟩, paired, rfl⟩ := List.mem_map.mp mem
  have carried_mem := (List.of_mem_zip paired).2
  constructor
  · exact ⟨data, rfl⟩
  · rcases List.mem_cons.mp carried_mem with first | later
    · exact Or.inl first
    · exact Or.inr (List.eq_of_mem_replicate later)

theorem plain_accessAckData {size source burstLen base : Nat} {word : Nat → Nat} :
    ∀ entry ∈ wordEntries config (accessAckData size source) none burstLen base word,
      PlainEntry entry := by
  intro entry mem
  obtain ⟨⟨data, carries⟩, callback⟩ := of_mem_wordEntries mem
  constructor
  · intro blockAddr param
    rcases callback with none | none
    · simp [none]
    · simp [none]
  · intro msg found
    rw [carries] at found
    cases found
    simp [accessAckData]

/-- An entry without a permission change and without a grant. -/
theorem plain_singleton {msg : DMessage} {callback : Option DCallback}
    (keeps : ∀ blockAddr param, callback ≠ some (.updatePerm blockAddr param))
    (opcode : msg.opcode ≠ .grant ∧ msg.opcode ≠ .grantData) :
    ∀ entry ∈ ([(some msg, callback)] : List DEntry), PlainEntry entry := by
  intro entry mem
  rw [List.mem_singleton] at mem
  subst mem
  constructor
  · exact keeps
  · intro other found
    cases found
    exact opcode

theorem View.push_nil (v : View) : v.push [] = v := by
  rw [View.push, List.append_nil]

theorem plain_nil : ∀ entry ∈ ([] : List DEntry), PlainEntry entry := by
  intro entry mem
  cases mem

theorem runCallback_view {callback : Callback} (ran : runCallback config callback s = some s') :
    View.Calls config callback s.view s'.view := by
  cases callback with
  | accessAck burstLen burstData size source =>
      cases ran
      refine View.Calls.answers (by trivial) s.view _ ?_
      intro entry mem
      rcases List.mem_append.mp mem with bubble | answer
      · rw [List.eq_of_mem_replicate bubble]
        constructor
        · simp
        · simp
      · exact plain_singleton (by simp) (by simp [accessAck]) entry answer
  | accessAckData burstLen addrAligned size source =>
      cases ran
      rw [State.pushAccessAckData, view_pushWords]
      exact View.Calls.answers (by trivial) _ _ plain_accessAckData
  | arithmeticAck => cases ran
  | logicalAck => cases ran
  | grant => cases ran
  | grantData burstLen addrAligned param sink size source blockAddr =>
      cases ran
      rw [State.pushGrantData, view_pushWords]
      exact View.Calls.grants burstLen addrAligned param sink size source blockAddr s.view
  | probeBlocksRec addrs => exact probeBlocksRec_view ran
  | enableProbe =>
      cases ran
      have called : View.Calls config .enableProbe s.view (s.view.push []) :=
        View.Calls.answers (by trivial) s.view [] plain_nil
      rw [View.push_nil] at called
      exact called

theorem runTaken_view {src : Nat} {callback : Option Callback}
    {callbacks : SrcToCallback Callback}
    (taken : s.bCallback.call src = some (callback, callbacks))
    (ran : runTaken config callback (s.setCallbacks callbacks) = some s') :
    View.Takes config src s.view s'.view := by
  obtain ⟨found, after⟩ := SrcToCallback.pending_of_call taken
  have taken_view : (s.setCallbacks callbacks).view = s.view.setPending src none := by
    have pending : callbacks.pending = fun other =>
        if other = src then none else s.bCallback.pending other := funext after
    simp only [State.view, State.setCallbacks, pending]
    rfl
  cases callback with
  | none =>
      cases ran
      have same : s.view.setPending src none = s.view := by
        have unchanged : (fun other => if other = src then none else s.bCallback.pending other) =
            s.bCallback.pending := by
          funext other
          by_cases at_src : other = src
          · rw [if_pos at_src, at_src, found]
          · rw [if_neg at_src]
        rw [View.setPending]
        exact congrArg (fun pending => { s.view with pending }) unchanged
      rw [taken_view, same]
      exact View.Takes.empty found
  | some callback =>
      apply View.Takes.runs found
      rw [← taken_view]
      exact runCallback_view ran

theorem answerProbe_view {src : Nat} (answered : answerProbe config src s = some s') :
    View.Answers config src s.view s'.view := by
  obtain ⟨⟨callback, callbacks⟩, taken, answered⟩ := Option.bind_eq_some_iff.mp answered
  obtain ⟨called, ran, answered⟩ := Option.bind_eq_some_iff.mp answered
  obtain ⟨⟨event, ids⟩, released, answered⟩ := Option.bind_eq_some_iff.mp answered
  obtain ⟨⟨known, used⟩, event_eq, rfl⟩ := FreeList.release_eq_some_iff.mp released
  refine ⟨called.view, runTaken_view taken ran, ?_⟩
  cases event with
  | none =>
      cases answered
      exact View.Releases.rests known used event_eq.symm
  | some retrieval =>
      obtain ⟨next, free, unused, issued⟩ := retrieveBlockCb_view answered
      rw [issued]
      exact View.Releases.serves known used retrieval event_eq.symm next free unused

theorem acquireBlock_view {msg : AMessage} (opcode : msg.opcode = .acquireBlock)
    (acquired : acquireBlock config msg s = some s') : s.view.Accepts config msg s'.view := by
  obtain ⟨⟨sink, sinks⟩, _, acquired⟩ := Option.bind_eq_some_iff.mp acquired
  dsimp only at acquired
  split at acquired
  · have retrieved := retrieveBlock_view acquired
    exact View.Accepts.grantsLater sink opcode _ rfl retrieved
  · rename_i owned
    cases acquired
    rw [State.pushGrantData, view_pushWords]
    exact View.Accepts.grants sink opcode (not_not.mp owned)

theorem acquirePerm_view {msg : AMessage} (opcode : msg.opcode = .acquirePerm)
    (acquired : acquirePerm config msg s = some s') : s.view.Accepts config msg s'.view := by
  obtain ⟨⟨sink, sinks⟩, _, acquired⟩ := Option.bind_eq_some_iff.mp acquired
  dsimp only at acquired
  split at acquired
  · cases acquired
  · rename_i owned
    cases acquired
    exact View.Accepts.grantsPerm sink opcode (not_not.mp owned)

theorem getData_view {msg : AMessage} (got : getData config msg s = some s') :
    s.view.Accepts config msg s'.view := by
  unfold getData at got
  split at got
  · exact View.Accepts.retrieves _ (by trivial) (retrieveBlock_view got)
  · cases got
    rw [State.pushAccessAckData, view_pushWords]
    exact View.Accepts.answers _ plain_accessAckData

theorem recordBurst_view {addr : Nat} {entry : Nat × Nat}
    (recorded : s.recordBurst addr entry = some s') : s'.view = s.view := by
  obtain ⟨burst, _, rfl⟩ := Option.map_eq_some_iff.mp recorded
  rfl

theorem putData_view {msg : AMessage} (opcode : msg.opcode.writes)
    (put : putData config msg s = some s') : s.view.Accepts config msg s'.view := by
  unfold putData at put
  split at put
  · obtain ⟨retrieved, asked, recorded⟩ := Option.bind_eq_some_iff.mp put
    rw [recordBurst_view recorded]
    split at asked
    · have retrieved := retrieveBlock_view asked
      exact View.Accepts.retrieves _ (by trivial) retrieved
    · cases asked
      have quiet : s.view.Accepts config msg (s.view.push []) := View.Accepts.answers [] plain_nil
      rw [View.push_nil] at quiet
      exact quiet
  · rename_i owned
    cases put
    have written := View.Accepts.writes (v := s.view)
      (splice (bitMask msg.mask) (s.word (beatAddr config s.aOngoings msg.source msg.address))
        msg.data)
      (if lastBeat (config.burstLen msg.size) msg.source s.aOngoings then
        [(some (accessAck msg.size msg.source), none)] else [])
      (countBeat (config.burstLen msg.size) msg.source s.aOngoings)
      (by
        split
        · exact plain_singleton (by simp) (by simp [accessAck])
        · exact plain_nil)
      (not_not.mp owned) opcode
    rw [← view_store] at written
    exact written

theorem atomicData_view {op : Nat → Nat → Option Int}
    {callback : Nat → Nat → Nat → Nat → Nat → Nat → Nat → Callback}
    (plain : ∀ a b c d e f g, PlainCallback (callback a b c d e f g)) {msg : AMessage}
    (opcode : msg.opcode.writes) (put : atomicData config op callback msg s = some s') :
    s.view.Accepts config msg s'.view := by
  unfold atomicData at put
  dsimp only at put
  split at put
  · cases put
  · split at put
    · exact View.Accepts.retrieves _ (plain _ _ _ _ _ _ _) (retrieveBlock_view put)
    · rename_i owned
      obtain ⟨result, _, rfl⟩ := Option.map_eq_some_iff.mp put
      rw [view_pushD, view_store]
      exact View.Accepts.writes _ _ s.aOngoings
        (plain_singleton (by simp) (by simp [accessAckData])) (not_not.mp owned) opcode

theorem aPortMonitor_view {msg : AMessage} (accepted : aPortMonitor config msg s = some s') :
    s.view.Accepts config msg s'.view := by
  have quiet : s.view.Accepts config msg s.view := by
    have answered : s.view.Accepts config msg (s.view.push []) :=
      View.Accepts.answers [] plain_nil
    rw [View.push_nil] at answered
    exact answered
  unfold aPortMonitor at accepted
  split at accepted
  · rw [← view_enterBlock (config.blockAddr msg.address) s] at quiet ⊢
    generalize s.enterBlock (config.blockAddr msg.address) = entered at accepted quiet ⊢
    dsimp only at accepted
    split at accepted
    · exact getData_view accepted
    · rename_i opcode
      exact putData_view (by rw [opcode]; rfl) accepted
    · rename_i opcode
      exact putData_view (by rw [opcode]; rfl) accepted
    · rename_i opcode
      split at accepted
      · have plain : ∀ a b c d e f g, PlainCallback (Callback.arithmeticAck a b c d e f g) :=
          fun _ _ _ _ _ _ _ => trivial
        exact atomicData_view plain (by rw [opcode]; rfl) accepted
      · cases accepted
        exact quiet
    · rename_i opcode
      split at accepted
      · have plain : ∀ a b c d e f g, PlainCallback (Callback.logicalAck a b c d e f g) :=
          fun _ _ _ _ _ _ _ => trivial
        exact atomicData_view plain (by rw [opcode]; rfl) accepted
      · cases accepted
        exact quiet
    · cases accepted
      split
      · exact View.Accepts.answers _ (plain_singleton (by simp) (by simp [hintAck]))
      · exact quiet
    · rename_i opcode
      split at accepted
      · exact acquireBlock_view opcode accepted
      · cases accepted
        exact quiet
    · rename_i opcode
      split at accepted
      · exact acquirePerm_view opcode accepted
      · cases accepted
        exact quiet
  · cases accepted

theorem cPortMonitor_view {msg : CMessage} (received : cPortMonitor config msg s = some s') :
    notInterleaved s.cOngoings msg.source = true ∧ s.view.Receives config msg s'.view := by
  unfold cPortMonitor at received
  split at received
  · rename_i conditions
    refine ⟨conditions.2, ?_⟩
    dsimp only at received
    split at received
    · cases received
    · cases received
    · cases received
    · rename_i opcode
      cases received
      exact View.Receives.reserved opcode
    · rename_i opcode
      have answered := answerProbe_view received
      rw [view_returnPerm] at answered
      exact View.Receives.probeAck opcode answered
    · rename_i opcode
      split at received
      · rename_i last
        obtain ⟨answeredState, answered, rfl⟩ := Option.map_eq_some_iff.mp received
        have answered := answerProbe_view answered
        rw [view_returnPerm, view_storeBeat] at answered
        exact View.Receives.probeAckData (v := s.view) opcode last answered
      · rename_i more
        cases received
        have stored := View.Receives.beat (v := s.view) (Or.inl opcode) more
        rw [← view_storeBeat] at stored
        exact stored
    · rename_i opcode
      cases received
      rw [view_pushD, view_returnPerm]
      exact View.Receives.release opcode
    · rename_i opcode
      split at received
      · rename_i last
        cases received
        have stored := View.Receives.releaseData (v := s.view) opcode last
        rw [← view_storeBeat, ← view_returnPerm] at stored
        exact stored
      · rename_i more
        cases received
        have stored := View.Receives.beat (v := s.view) (Or.inr opcode) more
        rw [← view_storeBeat] at stored
        exact stored
  · cases received

theorem popD_view (popped : popD s = some s') (idle : s.dDriving = none) :
    s.view.Pops s'.view := by
  unfold popD at popped
  split at popped
  · cases popped
    exact View.Pops.waits
  · rename_i callback rest queue
    cases popped
    exact View.Pops.bubble callback rest queue
  · rename_i msg callback rest queue
    cases callback with
    | none =>
        cases popped
        exact View.Pops.plain msg none rest queue idle (by simp)
    | some callback =>
        cases callback with
        | updatePerm blockAddr param =>
            have granted := View.Pops.grant (v := s.view) msg blockAddr param rest queue idle
            cases popped
            by_cases trunkCap : param = toT
            · rw [if_pos trunkCap] at granted ⊢
              rw [view_setPerm]
              exact granted
            · rw [if_neg trunkCap] at granted ⊢
              exact granted
        | updateMem burstData =>
            have kept := View.Pops.plain (v := s.view) msg (some (.updateMem burstData)) rest queue
              idle (by simp)
            dsimp only [runDCallback] at popped
            split at popped
            · split at popped
              · cases popped
                exact kept
              · cases popped
            · cases popped

theorem hostInterface_view (polled : hostInterface config s = some s') :
    View.Moves config .host s.view s'.view := by
  unfold hostInterface at polled
  split at polled
  · dsimp only at polled
    split at polled
    · cases polled
    · split at polled
      · obtain ⟨asked, retrieved, rfl⟩ := Option.map_eq_some_iff.mp polled
        have asked_view := retrieveBlock_view retrieved
        exact View.Moves.host _ (by trivial) asked_view
      · cases polled
        exact View.Moves.hostWait s.view
  · cases polled
    exact View.Moves.hostWait s.view

/-- The blocks that `probe_blocks` lists are all those the adapter does not own. -/
theorem mem_probeAddrs {addr : Nat} (held : s.perm addr ≠ tip) :
    addr ∈ s.blockPerm.keys.filter fun addr => s.perm addr ≠ tip := by
  rw [List.mem_filter]
  constructor
  · rw [Dict.mem_keys_iff]
    by_contra absent
    apply held
    rw [State.perm, Dict.getD, Option.not_isSome_iff_eq_none.mp absent]
    rfl
  · simpa using held

/-- Every step of the adapter is a move. -/
theorem step_view {event : Event} (stepped : step config s event = some s') :
    View.Moves config event s.view s'.view := by
  cases event with
  | aFire msg =>
      simp only [step] at stepped
      split at stepped
      · rename_i driving
        exact View.Moves.aFire msg driving (aPortMonitor_view stepped)
      · cases stepped
  | cFire msg =>
      simp only [step] at stepped
      split at stepped
      · rename_i driving
        obtain ⟨alone, received⟩ := cPortMonitor_view stepped
        exact View.Moves.cFire msg driving alone received
      · cases stepped
  | eFire sink =>
      simp only [step] at stepped
      split at stepped
      · obtain ⟨released, _, acknowledged⟩ := Option.bind_eq_some_iff.mp stepped
        dsimp only at acknowledged
        split at acknowledged
        · cases acknowledged
          exact View.Moves.eFire sink s.view
        · cases acknowledged
      · cases stepped
  | dPop =>
      simp only [step] at stepped
      split at stepped
      · rename_i idle
        exact View.Moves.dPop idle.1 (popD_view stepped idle.2)
      · cases stepped
        exact View.Moves.dWait s.view
  | dFire =>
      cases stepped
      exact View.Moves.dFire s.view
  | bPop =>
      cases stepped
      split
      · rename_i idle
        unfold popB
        split
        · exact View.Moves.bWait s.view
        · rename_i msg rest queue
          exact View.Moves.bPop s.view msg rest queue idle.2
      · exact View.Moves.bWait s.view
  | bFire =>
      cases stepped
      exact View.Moves.bFire s.view
  | host =>
      simp only [step] at stepped
      split at stepped
      · exact hostInterface_view stepped
      · cases stepped
        exact View.Moves.hostWait s.view
  | retriever =>
      simp only [step] at stepped
      split at stepped
      · rename_i ready
        have probed := probeBlocksRec_view stepped
        have cover : ∀ addr, s.view.perm addr ≠ tip →
            addr ∈ s.blockPerm.keys.filter fun addr => s.perm addr ≠ tip :=
          fun addr held => mem_probeAddrs held
        have fresh : s.retrieved = false := by simpa using ready.2
        exact View.Moves.retriever _ ready.1 fresh cover probed
      · rename_i waiting
        cases stepped
        exact View.Moves.retrieverWait s.view waiting
  | probeBlock addr =>
      cases stepped
      exact View.Moves.probeBlock addr s.view
  | stop =>
      cases stepped
      exact View.Moves.stop s.view

end Difftest.TileLink
