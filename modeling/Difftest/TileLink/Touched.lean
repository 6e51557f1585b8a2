import Difftest.TileLink.Grant
import Difftest.TileLink.Uncached

/-!
# Words that enter the memory

The memory of the adapter is a dictionary that only grows: a word is entered when it is first
read or written.  Every step says which words it enters, which callbacks begin to wait, and
that it leaves the polled address alone.
-/

namespace Difftest.TileLink

variable (config : Config)

/-- A callback waits for the answer of a probe, or its probe waits for a source. -/
def State.Waiting (s : State) (callback : Callback) : Prop :=
  (∃ src, s.bCallback.pending src = some callback) ∨
    ∃ retrieval ∈ s.bSrcs.eventQueue, retrieval.callback = callback

/-- The words that a callback reads. -/
def Callback.reads : Callback → List Nat
  | .accessAckData burstLen addrAligned _ _ => config.burstAddrs addrAligned burstLen
  | .grantData burstLen addrAligned _ _ _ _ _ => config.burstAddrs addrAligned burstLen
  | _ => []

/-- The words `added` enter the memory, the callbacks `asked` may begin to wait, and no request
to poll an address is made. -/
structure Extends (s s' : State) (added : List Nat) (asked : Callback → Prop) : Prop where
  keys : ∀ addr, addr ∈ s'.memory.keys ↔ addr ∈ s.memory.keys ∨ addr ∈ added
  waiting : ∀ callback, s'.Waiting callback → s.Waiting callback ∨ asked callback
  polling : s'.probe = true → s.probe = true ∧ s'.probeAddr = s.probeAddr

section Extend

variable {s s' s'' : State} {added added' : List Nat} {asked asked' : Callback → Prop}

/-- Nothing that matters here changes. -/
theorem Extends.of_eq (memory : s'.memory = s.memory) (bCallback : s'.bCallback = s.bCallback)
    (bSrcs : s'.bSrcs = s.bSrcs)
    (polling : s'.probe = true → s.probe = true ∧ s'.probeAddr = s.probeAddr) :
    Extends s s' [] asked where
  keys addr := by rw [memory]; simp
  waiting callback waits := by
    rw [State.Waiting, bCallback, bSrcs] at waits
    exact Or.inl waits
  polling := polling

theorem Extends.refl (s : State) : Extends s s [] asked :=
  Extends.of_eq rfl rfl rfl fun polled => ⟨polled, rfl⟩

theorem Extends.trans (first : Extends s s' added asked) (second : Extends s' s'' added' asked) :
    Extends s s'' (added ++ added') asked where
  keys addr := by rw [second.keys, first.keys, List.mem_append, or_assoc]
  waiting callback waits := by
    rcases second.waiting callback waits with before | new
    · exact first.waiting callback before
    · exact Or.inr new
  polling polled := by
    rcases second.polling polled with ⟨before, same⟩
    rcases first.polling before with ⟨initially, still⟩
    exact ⟨initially, same.trans still⟩

theorem Extends.mono (extends' : Extends s s' added asked)
    (wider : ∀ callback, asked callback → asked' callback) : Extends s s' added asked' where
  keys := extends'.keys
  waiting callback waits := (extends'.waiting callback waits).imp_right (wider callback)
  polling := extends'.polling

theorem extends_store (addr value : Nat) (s : State) :
    Extends s (s.store addr value) [addr] asked where
  keys other := by
    change other ∈ (s.memory.set addr value).keys ↔ _
    rw [Dict.mem_keys_set, List.mem_singleton, or_comm]
  waiting _ waits := Or.inl waits
  polling polled := ⟨polled, rfl⟩

/-! ## Reading -/

theorem mem_keys_readWords (addrs : List Nat) (memory : Dict Nat Nat) (addr : Nat) :
    addr ∈ (readWords addrs memory).2.keys ↔ addr ∈ memory.keys ∨ addr ∈ addrs := by
  induction addrs generalizing memory with
  | nil => simp [readWords]
  | cons first addrs inductionHypothesis =>
      rw [readWords]
      dsimp only
      rw [inductionHypothesis, Dict.mem_keys_setDefault, List.mem_cons]
      tauto

theorem extends_pushWords (message : Nat → DMessage) (callback : Option DCallback)
    (burstLen addrAligned : Nat) (s : State) :
    Extends s (s.pushWords config message callback burstLen addrAligned)
      (config.burstAddrs addrAligned burstLen) asked where
  keys addr := mem_keys_readWords _ _ addr
  waiting _ waits := Or.inl waits
  polling polled := ⟨polled, rfl⟩

theorem extends_pushGrantData (burstLen addrAligned param sink size source blockAddr : Nat)
    (s : State) :
    Extends s
      (s.pushGrantData config burstLen addrAligned param sink size source blockAddr)
      (config.burstAddrs addrAligned burstLen) asked where
  keys addr := mem_keys_readWords _ _ addr
  waiting _ waits := Or.inl waits
  polling polled := ⟨polled, rfl⟩

/-! ## Probing -/

theorem extends_retrieveBlockCb {retrieval : Retrieval}
    (issued : retrieveBlockCb retrieval s = some s') :
    Extends s s' [] (· = retrieval.callback) := by
  rcases Option.bind_eq_some_iff.mp issued with ⟨⟨src, bSrcs⟩, got, issued⟩
  rcases Option.map_eq_some_iff.mp issued with ⟨bCallback, recorded, rfl⟩
  rcases FreeList.get_eq_some_iff.mp got with ⟨_, rfl⟩
  constructor
  · intro addr
    simp
  · rintro callback (⟨other, pending⟩ | waits)
    · rw [SrcToCallback.pending_of_set recorded] at pending
      split at pending
      · exact Or.inr (Option.some.inj pending).symm
      · exact Or.inl (Or.inl ⟨other, pending⟩)
    · exact Or.inl (Or.inr waits)
  · exact fun polled => ⟨polled, rfl⟩

theorem extends_retrieveBlock {retrieval : Retrieval}
    (retrieved : retrieveBlock retrieval s = some s') :
    Extends s s' [] (· = retrieval.callback) := by
  rw [retrieveBlock] at retrieved
  split at retrieved
  · cases retrieved
    constructor
    · intro addr
      simp [State.setSources]
    · rintro callback (pending | ⟨other, mem, same⟩)
      · exact Or.inl (Or.inl pending)
      · rcases List.mem_append.mp mem with old | new
        · exact Or.inl (Or.inr ⟨other, old, same⟩)
        · rw [List.mem_singleton.mp new] at same
          exact Or.inr same.symm
    · exact fun polled => ⟨polled, rfl⟩
  · exact extends_retrieveBlockCb retrieved

/-- Callbacks that read nothing. -/
def Callback.Silent (callback : Callback) : Prop := callback.reads config = []

theorem extends_probeBlocksRec {addrs : List Nat}
    (probed : probeBlocksRec config addrs s = some s') :
    Extends s s' [] (Callback.Silent config) := by
  cases addrs with
  | nil =>
      cases probed
      exact Extends.of_eq rfl rfl rfl fun polled => ⟨polled, rfl⟩
  | cons addr rest =>
      apply (extends_retrieveBlock probed).mono
      rintro _ rfl
      rfl

/-! ## Callbacks -/

theorem extends_runCallback {callback : Callback} (ran : runCallback config callback s = some s') :
    Extends s s' (callback.reads config) (Callback.Silent config) := by
  cases callback with
  | accessAck burstLen burstData size source =>
      cases ran
      exact Extends.of_eq rfl rfl rfl fun polled => ⟨polled, rfl⟩
  | accessAckData burstLen addrAligned size source =>
      cases ran
      exact extends_pushWords config _ _ burstLen addrAligned s
  | arithmeticAck => cases ran
  | logicalAck => cases ran
  | grant => cases ran
  | grantData burstLen addrAligned param sink size source blockAddr =>
      cases ran
      exact extends_pushGrantData config burstLen addrAligned param sink size source blockAddr s
  | probeBlocksRec addrs => exact extends_probeBlocksRec config ran
  | enableProbe =>
      cases ran
      exact Extends.of_eq rfl rfl rfl fun polled => ⟨polled, rfl⟩

/-- An answered probe enters the words that a waiting callback reads. -/
theorem extends_answerProbe {src : Nat} (answered : answerProbe config src s = some s') :
    ∃ added, (∀ addr ∈ added, ∃ callback, s.Waiting callback ∧ addr ∈ callback.reads config) ∧
      Extends s s' added (Callback.Silent config) := by
  rcases Option.bind_eq_some_iff.mp answered with ⟨⟨callback, bCallback⟩, taken, answered⟩
  rcases Option.bind_eq_some_iff.mp answered with ⟨called, ran, answered⟩
  rcases Option.bind_eq_some_iff.mp answered with ⟨⟨event, bSrcs⟩, released, answered⟩
  rcases SrcToCallback.pending_of_call taken with ⟨found, others⟩
  have fewer : Extends s (s.setCallbacks bCallback) [] (Callback.Silent config) := by
    constructor
    · intro addr
      simp [State.setCallbacks]
    · rintro callback (⟨other, pending⟩ | waits)
      · rw [State.setCallbacks, others] at pending
        split at pending
        · cases pending
        · exact Or.inl (Or.inl ⟨other, pending⟩)
      · exact Or.inl (Or.inr waits)
    · exact fun polled => ⟨polled, rfl⟩
  have calls : ∃ added,
      (∀ addr ∈ added, ∃ callback, s.Waiting callback ∧ addr ∈ callback.reads config) ∧
        Extends (s.setCallbacks bCallback) called added (Callback.Silent config) := by
    cases callback with
    | none =>
        cases ran
        exact ⟨[], List.forall_mem_nil _, Extends.refl _⟩
    | some callback =>
        refine ⟨callback.reads config, ?_, extends_runCallback config ran⟩
        exact fun addr mem => ⟨callback, Or.inl ⟨src, found⟩, mem⟩
  rcases calls with ⟨added, reads, calls⟩
  have before := fewer.trans calls
  rw [List.nil_append] at before
  refine ⟨added, reads, ?_⟩
  rcases FreeList.release_eq_some_iff.mp released with ⟨_, isEvent, rfl⟩
  cases event with
  | none =>
      cases answered
      refine ⟨before.keys, ?_, before.polling⟩
      rintro callback (pending | ⟨retrieval, mem, same⟩)
      · exact before.waiting callback (Or.inl pending)
      · exact before.waiting callback (Or.inr ⟨retrieval, List.mem_of_mem_tail mem, same⟩)
  | some retrieval =>
      have sent := extends_retrieveBlockCb answered
      have queued : retrieval ∈ called.bSrcs.eventQueue := List.mem_of_head? isEvent.symm
      constructor
      · intro addr
        rw [sent.keys]
        simp only [List.not_mem_nil, or_false]
        exact before.keys addr
      · intro callback waits
        rcases sent.waiting callback waits with (pending | ⟨other, mem, same⟩) | rfl
        · exact before.waiting callback (Or.inl pending)
        · exact before.waiting callback (Or.inr ⟨other, List.mem_of_mem_tail mem, same⟩)
        · exact before.waiting _ (Or.inr ⟨retrieval, queued, rfl⟩)
      · intro polled
        rcases sent.polling polled with ⟨earlier, same⟩
        rcases before.polling earlier with ⟨initially, still⟩
        exact ⟨initially, same.trans still⟩

/-! ## Channel A -/

/-- The words that a beat of channel A reads or writes. -/
def AMessage.accesses (msg : AMessage) (s : State) : List Nat :=
  match msg.opcode with
  | .get | .acquireBlock =>
      config.burstAddrs (config.addrAligned msg.address) (config.burstLen msg.size)
  | .putFullData | .putPartialData | .arithmeticData | .logicalData =>
      [beatAddr config s.aOngoings msg.source msg.address]
  | .intent | .acquirePerm => []

/-- On a block of the adapter the accessed words enter the memory, otherwise the callback that
waits reads only these. -/
def Serves (msg : AMessage) (s s' : State) : Prop :=
  ∃ added, (∀ addr ∈ added, addr ∈ msg.accesses config s) ∧
    (s.perm (config.blockAddr msg.address) = tip → added = msg.accesses config s) ∧
    Extends s s' added fun callback => ∀ addr ∈ callback.reads config, addr ∈ msg.accesses config s

theorem Serves.of_tip {msg : AMessage}
    (extends' : Extends s s' (msg.accesses config s) fun _ => False) : Serves config msg s s' :=
  ⟨_, fun _ mem => mem, fun _ => rfl, extends'.mono fun _ absurd => absurd.elim⟩

theorem Serves.of_held {msg : AMessage} (held : s.perm (config.blockAddr msg.address) ≠ tip)
    {callback : Callback} (reads : ∀ addr ∈ callback.reads config, addr ∈ msg.accesses config s)
    (extends' : Extends s s' [] (· = callback)) : Serves config msg s s' := by
  refine ⟨[], List.forall_mem_nil _, fun isTip => absurd isTip held, extends'.mono ?_⟩
  rintro _ rfl
  exact reads

section ChannelA

variable {msg : AMessage}

theorem getData_enters (opcode : msg.opcode = .get) (got : getData config msg s = some s') :
    Serves config msg s s' := by
  have accesses : msg.accesses config s =
      config.burstAddrs (config.addrAligned msg.address) (config.burstLen msg.size) := by
    rw [AMessage.accesses, opcode]
  rw [getData] at got
  split at got
  · rename_i held
    apply Serves.of_held config held _ (extends_retrieveBlock got)
    intro addr mem
    rw [accesses]
    exact mem
  · cases got
    apply Serves.of_tip
    rw [accesses]
    exact extends_pushWords config _ _ _ _ s

theorem recordBurst_extends {addr : Nat} {entry : Nat × Nat}
    (recorded : s.recordBurst addr entry = some s') : Extends s s' [] fun _ => False := by
  rcases Option.map_eq_some_iff.mp recorded with ⟨burst, _, rfl⟩
  exact Extends.of_eq rfl rfl rfl fun polled => ⟨polled, rfl⟩

theorem putData_enters
    (accesses : msg.accesses config s = [beatAddr config s.aOngoings msg.source msg.address])
    (put : putData config msg s = some s') : Serves config msg s s' := by
  rw [putData] at put
  dsimp only at put
  split at put
  · rename_i held
    rcases Option.bind_eq_some_iff.mp put with ⟨retrieved, asked, recorded⟩
    have recorded := recordBurst_extends recorded
    have silent : ∀ burstLen burstData size source,
        ∀ addr ∈ (Callback.accessAck burstLen burstData size source).reads config,
          addr ∈ msg.accesses config s := by
      intro _ _ _ _ addr mem
      cases mem
    apply Serves.of_held config held (silent (config.burstLen msg.size) s.burstData.length msg.size
      msg.source)
    split at asked
    · have sent := extends_retrieveBlock asked
      have asked : Extends s retrieved [] _ := ⟨sent.keys, sent.waiting, sent.polling⟩
      exact asked.trans (recorded.mono fun _ absurd => absurd.elim)
    · cases asked
      exact recorded.mono fun _ absurd => absurd.elim
  · cases put
    apply Serves.of_tip
    rw [accesses]
    have stored := @extends_store (fun _ => False)
      (beatAddr config s.aOngoings msg.source msg.address)
      (splice (bitMask msg.mask) (s.word (beatAddr config s.aOngoings msg.source msg.address))
        msg.data) s
    exact ⟨stored.keys, stored.waiting, stored.polling⟩

theorem atomicData_enters {op : Nat → Nat → Option Int}
    {callback : (operand1 burstLen addrAligned bitMask offset size source : Nat) → Callback}
    (silent : ∀ a b c d e f g, (callback a b c d e f g).reads config = [])
    (accesses : msg.accesses config s = [beatAddr config s.aOngoings msg.source msg.address])
    (put : atomicData config op callback msg s = some s') : Serves config msg s s' := by
  rw [atomicData] at put
  dsimp only at put
  split at put
  · cases put
  · split at put
    · rename_i held
      apply Serves.of_held config held _ (extends_retrieveBlock put)
      intro addr mem
      dsimp only at mem
      rw [silent] at mem
      cases mem
    · rcases Option.map_eq_some_iff.mp put with ⟨result, _, rfl⟩
      apply Serves.of_tip
      rw [accesses]
      have stored := @extends_store (fun _ => False)
        (beatAddr config s.aOngoings msg.source msg.address)
        (splice (bitMask msg.mask) (s.word (beatAddr config s.aOngoings msg.source msg.address))
          (placeResult config result (8 * Nat.log2 (lowestBit msg.mask)))) s
      exact ⟨stored.keys, stored.waiting, stored.polling⟩

theorem acquireBlock_enters (opcode : msg.opcode = .acquireBlock)
    (acquired : acquireBlock config msg s = some s') : Serves config msg s s' := by
  have accesses : msg.accesses config s =
      config.burstAddrs (config.addrAligned msg.address) (config.burstLen msg.size) := by
    rw [AMessage.accesses, opcode]
  rcases Option.bind_eq_some_iff.mp acquired with ⟨⟨sink, dSinks⟩, _, acquired⟩
  dsimp only at acquired
  split at acquired
  · rename_i held
    have sent := extends_retrieveBlock acquired
    have asked : Extends s s' [] _ := ⟨sent.keys, sent.waiting, sent.polling⟩
    refine @Serves.of_held config s s' msg held _ ?_ asked
    intro addr mem
    rw [accesses]
    exact mem
  · cases acquired
    apply Serves.of_tip
    rw [accesses]
    have read := @extends_pushGrantData config (fun _ => False) (config.burstLen msg.size)
      (config.addrAligned msg.address) (grantParam msg.param) sink msg.size msg.source
      (config.blockAddr msg.address) { s with draws := s.draws.tail, dSinks }
    exact ⟨read.keys, read.waiting, read.polling⟩

theorem acquirePerm_enters (opcode : msg.opcode = .acquirePerm)
    (acquired : acquirePerm config msg s = some s') : Serves config msg s s' := by
  rcases Option.bind_eq_some_iff.mp acquired with ⟨⟨sink, dSinks⟩, _, acquired⟩
  dsimp only at acquired
  split at acquired
  · cases acquired
  · cases acquired
    apply Serves.of_tip
    rw [AMessage.accesses, opcode]
    exact Extends.of_eq rfl rfl rfl fun polled => ⟨polled, rfl⟩

/-- One accepted beat of channel A. -/
theorem aPortMonitor_enters (coherent : config.protocol = tlC)
    (accepted : aPortMonitor config msg s = some s') : Serves config msg s s' := by
  rw [aPortMonitor] at accepted
  split at accepted
  · dsimp only at accepted
    have entered : ∀ {t : State},
        Serves config msg (s.enterBlock (config.blockAddr msg.address)) t →
          Serves config msg s t := by
      rintro t ⟨added, inside, isTip, extends'⟩
      rw [State.perm_enterBlock] at isTip
      exact ⟨added, inside, isTip, extends'.keys, extends'.waiting, extends'.polling⟩
    apply entered
    have uh : tlUH ≤ config.protocol := by
      rw [coherent]
      decide
    cases opcode : msg.opcode with
    | get =>
        rw [opcode] at accepted
        exact getData_enters config opcode accepted
    | putFullData =>
        rw [opcode] at accepted
        exact putData_enters config (by rw [AMessage.accesses, opcode]) accepted
    | putPartialData =>
        rw [opcode] at accepted
        exact putData_enters config (by rw [AMessage.accesses, opcode]) accepted
    | arithmeticData =>
        rw [opcode] at accepted
        dsimp only at accepted
        rw [if_pos uh] at accepted
        exact atomicData_enters config (fun _ _ _ _ _ _ _ => rfl)
          (by rw [AMessage.accesses, opcode]) accepted
    | logicalData =>
        rw [opcode] at accepted
        dsimp only at accepted
        rw [if_pos uh] at accepted
        exact atomicData_enters config (fun _ _ _ _ _ _ _ => rfl)
          (by rw [AMessage.accesses, opcode]) accepted
    | intent =>
        rw [opcode] at accepted
        cases accepted
        apply Serves.of_tip
        rw [AMessage.accesses, opcode, if_pos uh]
        exact Extends.of_eq rfl rfl rfl fun polled => ⟨polled, rfl⟩
    | acquireBlock =>
        rw [opcode] at accepted
        dsimp only at accepted
        exact acquireBlock_enters config opcode accepted
    | acquirePerm =>
        rw [opcode] at accepted
        dsimp only at accepted
        exact acquirePerm_enters config opcode accepted
  · cases accepted

end ChannelA

/-! ## Channel C -/

/-- The word that a beat with data of channel C writes, when it is not the answer of a probe. -/
def CMessage.accesses (msg : CMessage) (s : State) : List Nat :=
  match msg.opcode with
  | .releaseData => [beatAddr config s.cOngoings msg.source msg.address]
  | _ => []

/-- The word that the answer of a probe writes back. -/
def CMessage.writesBack (msg : CMessage) (s : State) : List Nat :=
  match msg.opcode with
  | .probeAckData => [beatAddr config s.cOngoings msg.source msg.address]
  | _ => []

theorem returnPerm_extends (msg : CMessage) (s : State) :
    Extends s (returnPerm config msg s) [] asked := by
  rw [returnPerm]
  split
  · exact Extends.of_eq rfl rfl rfl fun polled => ⟨polled, rfl⟩
  · exact Extends.refl s

/-- One accepted beat of channel C enters its own word and the words that waiting callbacks
read. -/
theorem cPortMonitor_extends {msg : CMessage} (received : cPortMonitor config msg s = some s') :
    ∃ added, (∀ addr ∈ added, ∃ callback, s.Waiting callback ∧ addr ∈ callback.reads config) ∧
      Extends s s' (msg.accesses config s ++ msg.writesBack config s ++ added)
        (Callback.Silent config) := by
  rw [cPortMonitor] at received
  split at received
  · dsimp only at received
    have stored : ∀ asked, Extends s (storeBeat config msg s)
        [beatAddr config s.cOngoings msg.source msg.address] asked :=
      fun asked => extends_store _ _ s
    have sameWaiting : ∀ {t : State}, t.bCallback = s.bCallback → t.bSrcs = s.bSrcs →
        ∀ callback, t.Waiting callback → s.Waiting callback := by
      intro t sameCallbacks sameSources callback waits
      rw [State.Waiting, sameCallbacks, sameSources] at waits
      exact waits
    have returned : ∀ t : State, (returnPerm config msg t).bCallback = t.bCallback ∧
        (returnPerm config msg t).bSrcs = t.bSrcs := by
      intro t
      rw [returnPerm]
      split <;> exact ⟨rfl, rfl⟩
    rw [CMessage.accesses, CMessage.writesBack]
    cases opcode : msg.opcode with
    | accessAck => rw [opcode] at received; cases received
    | accessAckData => rw [opcode] at received; cases received
    | hintAck => rw [opcode] at received; cases received
    | reserved =>
        rw [opcode] at received
        cases received
        exact ⟨[], List.forall_mem_nil _, Extends.refl s⟩
    | probeAck =>
        rw [opcode] at received
        rcases extends_answerProbe config received with ⟨added, reads, answered⟩
        refine ⟨added, ?_, (returnPerm_extends config msg s).trans answered⟩
        intro addr mem
        rcases reads addr mem with ⟨callback, waits, inside⟩
        exact ⟨callback, sameWaiting (returned s).1 (returned s).2 callback waits, inside⟩
    | probeAckData =>
        rw [opcode] at received
        dsimp only at received
        split at received
        · rcases Option.map_eq_some_iff.mp received with ⟨t, answered, rfl⟩
          rcases extends_answerProbe config answered with ⟨added, reads, answered⟩
          refine ⟨added, ?_, ?_⟩
          · intro addr mem
            rcases reads addr mem with ⟨callback, waits, inside⟩
            have unchanged := returned (storeBeat config msg s)
            exact ⟨callback, sameWaiting unchanged.1 unchanged.2 callback waits, inside⟩
          · have all := ((stored _).trans (returnPerm_extends config msg _)).trans answered
            rw [List.append_nil] at all
            exact ⟨all.keys, all.waiting, all.polling⟩
        · cases received
          have all := stored (Callback.Silent config)
          exact ⟨[], List.forall_mem_nil _, all.keys, all.waiting, all.polling⟩
    | release =>
        rw [opcode] at received
        cases received
        have all := @returnPerm_extends config (Callback.Silent config) msg s
        exact ⟨[], List.forall_mem_nil _, all.keys, all.waiting, all.polling⟩
    | releaseData =>
        rw [opcode] at received
        dsimp only at received
        split at received
        · cases received
          have all := (stored (Callback.Silent config)).trans (returnPerm_extends config msg _)
          exact ⟨[], List.forall_mem_nil _, all.keys, all.waiting, all.polling⟩
        · cases received
          have all := stored (Callback.Silent config)
          exact ⟨[], List.forall_mem_nil _, all.keys, all.waiting, all.polling⟩
  · cases received

/-! ## The other coroutines -/

theorem popD_extends (popped : popD s = some s') : Extends s s' [] asked := by
  have kept : s'.memory = s.memory ∧ s'.bCallback = s.bCallback ∧ s'.bSrcs = s.bSrcs ∧
      s'.probe = s.probe ∧ s'.probeAddr = s.probeAddr := by
    rw [popD] at popped
    split at popped
    · cases popped
      exact ⟨rfl, rfl, rfl, rfl, rfl⟩
    · cases popped
      exact ⟨rfl, rfl, rfl, rfl, rfl⟩
    · rename_i msg callback rest queue
      cases callback with
      | none =>
          cases popped
          exact ⟨rfl, rfl, rfl, rfl, rfl⟩
      | some callback =>
          cases callback with
          | updatePerm blockAddr param =>
              cases popped
              split <;> exact ⟨rfl, rfl, rfl, rfl, rfl⟩
          | updateMem burstData =>
              dsimp only [runDCallback] at popped
              split at popped
              · split at popped
                · cases popped
                  exact ⟨rfl, rfl, rfl, rfl, rfl⟩
                · cases popped
              · cases popped
  rcases kept with ⟨memory, bCallback, bSrcs, probe, probeAddr⟩
  exact Extends.of_eq memory bCallback bSrcs fun polled => ⟨probe ▸ polled, probeAddr⟩

theorem hostInterface_extends (polled : hostInterface config s = some s') :
    Extends s s' [] (Callback.Silent config) := by
  rw [hostInterface] at polled
  split at polled
  · dsimp only at polled
    split at polled
    · cases polled
    · split at polled
      · rcases Option.map_eq_some_iff.mp polled with ⟨t, retrieved, rfl⟩
        have sent := extends_retrieveBlock retrieved
        refine ⟨sent.keys, ?_, fun polled => Bool.noConfusion polled⟩
        intro callback waits
        rcases sent.waiting callback waits with before | rfl
        · exact Or.inl before
        · exact Or.inr rfl
      · cases polled
        exact Extends.refl s
  · cases polled
    exact Extends.refl s

/-! ## Steps -/

/-- The words that the core reads or writes with an event. -/
def Event.accesses (s : State) : Event → List Nat
  | .aFire msg => msg.accesses config s
  | .cFire msg => msg.accesses config s
  | _ => []

/-- The words that the core writes back because it was probed. -/
def Event.writesBack (s : State) : Event → List Nat
  | .cFire msg => msg.writesBack config s
  | _ => []

/-- A message of channel A for a block that the adapter does not own. -/
def Event.OnHeld (s : State) : Event → Prop
  | .aFire msg => s.perm (config.blockAddr msg.address) ≠ tip
  | _ => False

/-- What a step enters, unless the host asks for a poll. -/
theorem step_extends {event : Event} (coherent : config.protocol = tlC)
    (stepped : step config s event = some s') (notAsked : ∀ addr, event ≠ .probeBlock addr) :
    ∃ added,
      (∀ addr ∈ added, addr ∈ event.accesses config s ∨ addr ∈ event.writesBack config s ∨
        ∃ callback, s.Waiting callback ∧ addr ∈ callback.reads config) ∧
      (¬ event.OnHeld config s → ∀ addr ∈ event.accesses config s, addr ∈ added) ∧
      Extends s s' added fun callback =>
        ∀ addr ∈ callback.reads config, addr ∈ event.accesses config s := by
  have silent : ∀ {t t' : State} {added : List Nat} {allowed : List Nat},
      Extends t t' added (Callback.Silent config) →
        Extends t t' added fun callback => ∀ addr ∈ callback.reads config, addr ∈ allowed := by
    intro t t' added allowed extends'
    apply extends'.mono
    intro callback nothing addr mem
    rw [nothing] at mem
    cases mem
  have quiet : ∀ event : Event, event.accesses config s = [] →
      Extends s s' [] (Callback.Silent config) →
      ∃ added,
        (∀ addr ∈ added, addr ∈ event.accesses config s ∨ addr ∈ event.writesBack config s ∨
          ∃ callback, s.Waiting callback ∧ addr ∈ callback.reads config) ∧
        (¬ event.OnHeld config s → ∀ addr ∈ event.accesses config s, addr ∈ added) ∧
        Extends s s' added fun callback =>
          ∀ addr ∈ callback.reads config, addr ∈ event.accesses config s := by
    intro event none extends'
    refine ⟨[], List.forall_mem_nil _, ?_, silent extends'⟩
    intro _ addr mem
    rw [none] at mem
    cases mem
  have same : s' = s → Extends s s' [] (Callback.Silent config) := by
    rintro rfl
    exact Extends.refl _
  cases event with
  | aFire msg =>
      rw [step] at stepped
      split at stepped
      · rcases aPortMonitor_enters config coherent stepped with ⟨added, inside, isTip, extends'⟩
        refine ⟨added, fun addr mem => Or.inl (inside addr mem), ?_, extends'⟩
        intro owned addr mem
        rw [isTip (not_not.mp owned)]
        exact mem
      · cases stepped
  | cFire msg =>
      rw [step] at stepped
      split at stepped
      · rcases cPortMonitor_extends config stepped with ⟨added, reads, extends'⟩
        refine ⟨_, ?_, ?_, silent extends'⟩
        · intro addr mem
          rcases List.mem_append.mp mem with own | read
          · exact (List.mem_append.mp own).imp_right Or.inl
          · exact Or.inr (Or.inr (reads addr read))
        · exact fun _ addr mem => List.mem_append_left _ (List.mem_append_left _ mem)
      · cases stepped
  | eFire sink =>
      rw [step] at stepped
      split at stepped
      · rcases Option.bind_eq_some_iff.mp stepped with ⟨⟨event, dSinks⟩, _, acknowledged⟩
        dsimp only at acknowledged
        split at acknowledged
        · cases acknowledged
          exact quiet _ rfl (Extends.of_eq rfl rfl rfl fun polled => ⟨polled, rfl⟩)
        · cases acknowledged
      · cases stepped
  | dPop =>
      rw [step] at stepped
      split at stepped
      · exact quiet _ rfl (popD_extends stepped)
      · cases stepped
        exact quiet _ rfl (same rfl)
  | dFire =>
      cases stepped
      exact quiet _ rfl (Extends.of_eq rfl rfl rfl fun polled => ⟨polled, rfl⟩)
  | bPop =>
      cases stepped
      apply quiet _ rfl
      split
      · rw [popB]
        split <;> exact Extends.of_eq rfl rfl rfl fun polled => ⟨polled, rfl⟩
      · exact Extends.refl s
  | bFire =>
      cases stepped
      exact quiet _ rfl (Extends.of_eq rfl rfl rfl fun polled => ⟨polled, rfl⟩)
  | host =>
      rw [step] at stepped
      split at stepped
      · exact quiet _ rfl (hostInterface_extends config stepped)
      · cases stepped
        exact quiet _ rfl (same rfl)
  | retriever =>
      rw [step] at stepped
      split at stepped
      · have probed := extends_probeBlocksRec config stepped
        exact quiet _ rfl ⟨probed.keys, probed.waiting, probed.polling⟩
      · cases stepped
        exact quiet _ rfl (same rfl)
  | probeBlock addr => exact absurd rfl (notAsked addr)
  | stop =>
      cases stepped
      exact quiet _ rfl (Extends.of_eq rfl rfl rfl fun polled => ⟨polled, rfl⟩)

/-- An access to a block that the core holds is to words that the memory already has, and so
is what the core writes back when it is probed. -/
def Resident (s : State) (event : Event) : Prop :=
  (event.OnHeld config s → ∀ addr ∈ event.accesses config s, addr ∈ s.memory.keys) ∧
    ∀ addr ∈ event.writesBack config s, addr ∈ s.memory.keys

/-- All callbacks wait for words that the memory has. -/
def Settled (s : State) : Prop :=
  ∀ callback, s.Waiting callback → ∀ addr ∈ callback.reads config, addr ∈ s.memory.keys

/-- A step enters exactly the words that the core accesses. -/
theorem step_enters {event : Event} (coherent : config.protocol = tlC)
    (stepped : step config s event = some s') (resident : Resident config s event)
    (settled : Settled config s) :
    (∀ addr, addr ∈ s'.memory.keys ↔ addr ∈ s.memory.keys ∨ addr ∈ event.accesses config s) ∧
      Settled config s' := by
  by_cases asked : ∃ addr, event = .probeBlock addr
  · rcases asked with ⟨addr, rfl⟩
    cases stepped
    refine ⟨fun other => ?_, settled⟩
    simp [Event.accesses]
  · rcases step_extends config coherent stepped fun addr isAsked => asked ⟨addr, isAsked⟩
      with ⟨added, inside, all, extends'⟩
    have keys : ∀ addr,
        addr ∈ s'.memory.keys ↔ addr ∈ s.memory.keys ∨ addr ∈ event.accesses config s := by
      intro addr
      rw [extends'.keys]
      constructor
      · rintro (before | mem)
        · exact Or.inl before
        · rcases inside addr mem with access | back | ⟨callback, waits, reads⟩
          · exact Or.inr access
          · exact Or.inl (resident.2 addr back)
          · exact Or.inl (settled callback waits addr reads)
      · rintro (before | access)
        · exact Or.inl before
        · by_cases held : event.OnHeld config s
          · exact Or.inl (resident.1 held addr access)
          · exact Or.inr (all held addr access)
    refine ⟨keys, ?_⟩
    intro callback waits addr reads
    rw [keys]
    rcases extends'.waiting callback waits with before | new
    · exact Or.inl (settled callback before addr reads)
    · exact Or.inr (new addr reads)

/-! ## Runs -/

/-- The words that the core accesses in a run. -/
def accessed : State → List Event → List Nat
  | _, [] => []
  | s, event :: events =>
      event.accesses config s ++ ((step config s event).map fun s' => accessed s' events).getD []

/-- A run enters exactly the words that the core accesses. -/
theorem run_enters {events : List Event} (coherent : config.protocol = tlC)
    (ran : run config s events = some s') (resident : Along config (Resident config) s events)
    (settled : Settled config s) (addr : Nat) :
    addr ∈ s'.memory.keys ↔ addr ∈ s.memory.keys ∨ addr ∈ accessed config s events := by
  induction events generalizing s with
  | nil =>
      cases ran
      simp [accessed]
  | cons event events inductionHypothesis =>
      rcases Option.bind_eq_some_iff.mp ran with ⟨next, stepped, rest⟩
      rcases step_enters config coherent stepped resident.1 settled with ⟨keys, still⟩
      rw [inductionHypothesis rest (resident.2 next stepped) still, keys, accessed, stepped,
        List.mem_append, or_assoc]
      rfl

end Extend

/-! ## Bus words -/

section Words

variable {config}

theorem dvd_burstAddrs (bus : config.PowerOfTwoBus) {address burstLen addr : Nat}
    (mem : addr ∈ config.burstAddrs (config.addrAligned address) burstLen) :
    config.dataBytes ∣ addr := by
  rcases List.mem_map.mp mem with ⟨i, _, rfl⟩
  rw [addrAligned_eq_wordBase bus]
  exact dvd_wordBase_add address i

theorem dvd_beatAddr (bus : config.PowerOfTwoBus) (ongoings : Dict Nat Nat)
    (source address : Nat) : config.dataBytes ∣ beatAddr config ongoings source address := by
  rw [beatAddr, addrAligned_eq_wordBase bus]
  exact dvd_wordBase_add address _

/-- A core accesses whole words of the bus. -/
theorem dvd_accesses (bus : config.PowerOfTwoBus) {s : State} {event : Event} {addr : Nat}
    (mem : addr ∈ event.accesses config s) : config.dataBytes ∣ addr := by
  cases event with
  | aFire msg =>
      rw [Event.accesses, AMessage.accesses] at mem
      cases opcode : msg.opcode <;> rw [opcode] at mem
      case get | acquireBlock => exact dvd_burstAddrs bus mem
      case intent | acquirePerm => cases mem
      all_goals
        rw [List.mem_singleton] at mem
        exact mem ▸ dvd_beatAddr bus _ _ _
  | cFire msg =>
      rw [Event.accesses, CMessage.accesses] at mem
      cases opcode : msg.opcode <;> rw [opcode] at mem
      case releaseData =>
        rw [List.mem_singleton] at mem
        exact mem ▸ dvd_beatAddr bus _ _ _
      all_goals cases mem
  | _ => cases mem

theorem dvd_accessed (bus : config.PowerOfTwoBus) {s : State} {events : List Event} {addr : Nat}
    (mem : addr ∈ accessed config s events) : config.dataBytes ∣ addr := by
  induction events generalizing s with
  | nil => cases mem
  | cons event events inductionHypothesis =>
      rw [accessed] at mem
      rcases List.mem_append.mp mem with now | later
      · exact dvd_accesses bus now
      · cases stepped : step config s event with
        | none =>
            rw [stepped] at later
            cases later
        | some next =>
            rw [stepped] at later
            exact inductionHypothesis later

end Words

/-- Nothing waits when the adapter starts. -/
theorem settled_start (memory : Dict Nat Nat) (s : State) :
    Settled config (s.start config memory) := by
  rintro callback (⟨src, pending⟩ | ⟨retrieval, mem, _⟩)
  · have idle := @SrcToCallback.pending_new Callback (List.range 1) src
    have pending : (SrcToCallback.new (List.range 1) : SrcToCallback Callback).pending src =
        some callback := pending
    rw [idle] at pending
    cases pending
  · cases mem

end Difftest.TileLink
