import Difftest.TileLink.Agreement

/-!
# Deferred callbacks that fail

The callbacks of the probing path repeat the direct path for a block that the core
gives back.  All of them raise except those of `Get` and `AcquireBlock`: `updateMem`
iterates over the keys of a dictionary as if they were pairs, the two atomic
callbacks read a name they do not have, and `AcquirePerm` calls a function that does
not exist.  So a message agrees on the two paths exactly when it is an
`AcquireBlock`.
-/

namespace Difftest.TileLink

/-! ## An answered probe -/

/-- The answer without data to a probe. -/
def plainAnswer (probe : BMessage) : CMessage where
  opcode := .probeAck
  param := tToN
  size := 0
  source := probe.source
  address := probe.address
  data := 0
  corrupt := 0

theorem answersProbe_plainAnswer (config : Config) (probe : BMessage) :
    AnswersProbe config probe [plainAnswer probe] := by
  constructor
  · intro beat mem
    rw [List.mem_singleton.mp mem]
    rfl
  · intro beat mem
    rw [List.mem_singleton.mp mem]
    rfl
  · intro beat mem
    rw [List.mem_singleton.mp mem]
    exact Or.inr rfl
  · intro beat mem
    rw [List.mem_singleton.mp mem]
    cases debug : config.debug with
    | false => rfl
    | true => simp [cAssertions, plainAnswer, alignedTo, tToN, tToB, bToN, Nat.mod_one]
  · exact Or.inl ⟨_, rfl, rfl⟩

/-- A callback waits for the answer of one probe and nothing else is in flight. -/
structure Holds (callback : Callback) (src : Nat) (s : State) : Prop where
  drive : s.drive = true
  aOngoings : s.aOngoings = Dict.empty
  cOngoings : s.cOngoings = Dict.empty
  dQueue : s.dQueue = []
  dDriving : s.dDriving = none
  bQueue : s.bQueue = []
  bDriving : s.bDriving = none
  slot : s.bCallback.cMap.get? src = some (some callback)

/-- The callbacks that raise: the atomic ones at once, and that of a put when its
acknowledgement is sent, unless it has recorded nothing. -/
def Raises (s : State) : Callback → Prop
  | .arithmeticAck .. => True
  | .logicalAck .. => True
  | .accessAck _ burstData _ _ =>
      ∃ burst, s.burstData[burstData]? = some burst ∧ burst.entries ≠ []
  | _ => False

section Raising

variable {config : Config} {s s' : State}

/-- What a retrieval that finds a source changes. -/
theorem retrieveBlockCb_frame {retrieval : Retrieval}
    (retrieved : retrieveBlockCb retrieval s = some s') :
    ∃ draws bSrcs bCallback probe, s' =
        { s with draws, bSrcs, bCallback, bQueue := s.bQueue ++ [probe] } ∧
      ∀ src callback, s.bCallback.cMap.get? src = some (some callback) →
        bCallback.cMap.get? src = some (some callback) := by
  obtain ⟨⟨taken, bSrcs⟩, _, issued⟩ := Option.bind_eq_some_iff.mp retrieved
  obtain ⟨bCallback, recorded, rfl⟩ := Option.map_eq_some_iff.mp issued
  refine ⟨_, bSrcs, bCallback, _, rfl, ?_⟩
  intro src callback slot
  obtain ⟨unused, _, rfl⟩ := SrcToCallback.set_eq_some_iff.mp recorded
  have other : src ≠ taken := by
    rintro rfl
    have both := unused.symm.trans slot
    cases both
  rw [Dict.get?_set, if_neg other]
  exact slot

/-- What a retrieval changes, sent or waiting. -/
theorem retrieveBlock_frame {retrieval : Retrieval}
    (retrieved : retrieveBlock retrieval s = some s') :
    ∃ draws bSrcs bCallback sent, s' =
        { s with draws, bSrcs, bCallback, bQueue := s.bQueue ++ sent } ∧ sent.length ≤ 1 ∧
      ∀ src callback, s.bCallback.cMap.get? src = some (some callback) →
        bCallback.cMap.get? src = some (some callback) := by
  rw [retrieveBlock] at retrieved
  cases busy : s.bSrcs.empty with
  | true =>
      rw [busy, if_pos rfl] at retrieved
      cases retrieved
      refine ⟨s.draws, s.bSrcs.reserve retrieval, s.bCallback, [], ?_, Nat.zero_le 1, ?_⟩
      · rw [List.append_nil]
        rfl
      · exact fun _ _ slot => slot
  | false =>
      rw [busy, if_neg Bool.false_ne_true] at retrieved
      obtain ⟨draws, bSrcs, bCallback, probe, same, kept⟩ := retrieveBlockCb_frame retrieved
      exact ⟨draws, bSrcs, bCallback, [probe], same, Nat.le_refl 1, kept⟩

/-- A release of a source leaves channel D as it is. -/
theorem released_frame {src : Nat}
    (released : ((s.bSrcs.release src).bind fun (event, bSrcs) =>
      runEvent event (s.setSources bSrcs)) = some s') :
    s'.drive = s.drive ∧ s'.dDriving = s.dDriving ∧ s'.dQueue = s.dQueue ∧
      s'.burstData = s.burstData := by
  obtain ⟨⟨event, bSrcs⟩, _, ran⟩ := Option.bind_eq_some_iff.mp released
  cases event with
  | none =>
      cases ran
      exact ⟨rfl, rfl, rfl, rfl⟩
  | some retrieval =>
      obtain ⟨_, _, _, _, rfl, _⟩ := retrieveBlockCb_frame ran
      exact ⟨rfl, rfl, rfl, rfl⟩

/-- The acknowledgement of a put that has recorded something cannot be sent. -/
theorem step_dPop_updateMem {message : DMessage} {burstData : Nat} {rest : List DEntry}
    {burst : Dict Nat (Nat × Nat)} (drive : s.drive = true) (dDriving : s.dDriving = none)
    (dQueue : s.dQueue = (some message, some (.updateMem burstData)) :: rest)
    (recorded : s.burstData[burstData]? = some burst) (filled : burst.entries ≠ []) :
    step config s .dPop = none := by
  rw [step, if_pos ⟨drive, dDriving⟩, popD, dQueue]
  dsimp only [runDCallback]
  rw [recorded]
  exact if_neg filled

/-- When a callback raises, the answer of its probe and a turn of the driver of
channel D do not go through. -/
theorem Holds.raises {callback : Callback} {probe : BMessage}
    (holds : Holds callback probe.source s) (fails : Raises s callback) :
    run config s [.cFire (plainAnswer probe), .dPop] = none := by
  let returned := s.setPerm (config.blockAddr probe.address) tip
  let taken := returned.setCallbacks
    { s.bCallback with cMap := s.bCallback.cMap.set probe.source none }
  have accepted : cAssertions config.debug (plainAnswer probe) = true :=
    (answersProbe_plainAnswer config probe).accepted _ List.mem_cons_self
  have passes : notInterleaved s.cOngoings (plainAnswer probe).source = true := by
    rw [holds.cOngoings]
    rfl
  have called : returned.bCallback.call probe.source = some (some callback,
      { s.bCallback with cMap := s.bCallback.cMap.set probe.source none }) :=
    SrcToCallback.call_eq_some_iff.mpr ⟨holds.slot, rfl⟩
  have fires : step config s (.cFire (plainAnswer probe)) =
      (runCallback config callback taken).bind fun s =>
        (s.bSrcs.release probe.source).bind fun (event, bSrcs) =>
          runEvent event (s.setSources bSrcs) := by
    rw [step, if_pos holds.drive, cPortMonitor, if_pos ⟨accepted, passes⟩]
    change answerProbe config probe.source returned = _
    rw [answerProbe, called]
    rfl
  rw [run, fires]
  cases callback with
  | arithmeticAck => rfl
  | logicalAck => rfl
  | accessAck burstLen burstData size source =>
      obtain ⟨burst, recorded, filled⟩ := fails
      have queued : runCallback config (.accessAck burstLen burstData size source) taken =
          some (taken.pushD [(some (accessAck size source), some (.updateMem burstData))]) := by
        have counted : taken.aOngoings.getD source burstLen = burstLen := by
          change s.aOngoings.getD source burstLen = burstLen
          rw [holds.aOngoings]
          rfl
        rw [runCallback, counted, Nat.sub_self]
        rfl
      rw [queued, Option.bind_some]
      apply Option.bind_eq_none_iff.mpr
      intro answered released
      obtain ⟨drive, dDriving, dQueue, bursts⟩ := released_frame released
      have entries : answered.dQueue =
          [(some (accessAck size source), some (.updateMem burstData))] := by
        rw [dQueue]
        change s.dQueue ++ _ = _
        rw [holds.dQueue, List.nil_append]
      have stops : step config answered .dPop = none :=
        step_dPop_updateMem (drive.trans holds.drive) (dDriving.trans holds.dDriving) entries
          (bursts ▸ recorded) filled
      rw [run, stops]
      rfl
  | accessAckData => exact fails.elim
  | grant => exact fails.elim
  | grantData => exact fails.elim
  | probeBlocksRec => exact fails.elim
  | enableProbe => exact fails.elim

/-! ## A message whose callback raises -/

/-- The turns that deliver a probe. -/
def delivery : List Event := [.bPop, .bFire]

theorem isTurn_delivery : ∀ event ∈ delivery, event.isTurn = true := by
  decide

/-- Delivering leaves channel B idle when at most one probe is queued. -/
theorem run_delivery (drive : s.drive = true) (bDriving : s.bDriving = none)
    (short : s.bQueue.length ≤ 1) :
    run config s delivery = some { s with bQueue := [], bDriving := none } := by
  have pops : step config s .bPop = some (popB s) := by
    rw [step, if_pos ⟨drive, bDriving⟩]
  rw [delivery, run, pops, Option.bind_some]
  cases queue : s.bQueue with
  | nil =>
      have kept : popB s = s := by
        rw [popB, queue]
      rw [kept]
      exact congrArg (fun bQueue => some ({ s with bQueue, bDriving := none } : State)) queue
  | cons probe rest =>
      rw [queue, List.length_cons] at short
      have alone : rest = [] :=
        List.length_eq_zero_iff.mp (Nat.le_zero.mp (Nat.le_of_succ_le_succ short))
      rw [popB, queue, alone]
      rfl

/-- Beats of a message, each probe delivered at once. -/
def delivered (beats : List AMessage) : Timed AMessage := beats.map fun beat => (beat, delivery)

theorem map_fst_delivered (beats : List AMessage) : (delivered beats).map Prod.fst = beats := by
  rw [delivered, List.map_map]
  exact List.map_id beats

theorem onlyTurns_delivered (beats : List AMessage) : OnlyTurns (delivered beats) := by
  intro entry mem
  obtain ⟨beat, _, rfl⟩ := List.mem_map.mp mem
  exact isTurn_delivery

/-- A message that leaves a raising callback behind disagrees with the direct path. -/
theorem not_pathsAgree {first : AMessage} {others : List AMessage} {probe : BMessage}
    (sends : ∀ probed, run config s (aEvents (delivered (first :: others))) = some probed →
      firstProbe config s first = some probe ∧
        ∃ callback, Holds callback probe.source probed ∧ Raises probed callback) :
    ¬ PathsAgree config s first others := by
  intro agree
  obtain ⟨probed, ran, answers⟩ := agree (delivered (first :: others)) (map_fst_delivered _)
    (onlyTurns_delivered _)
  obtain ⟨isProbe, callback, holds, fails⟩ := sends probed ran
  obtain ⟨answered, ranAnswer, _⟩ := answers probe isProbe ⟨holds.bQueue, holds.bDriving⟩
    [(plainAnswer probe, [.dPop])] (answersProbe_plainAnswer config probe) (by
      intro entry mem event turn
      rw [List.mem_singleton.mp mem] at turn
      rw [List.mem_singleton.mp turn]
      rfl)
  have raised : run config probed [.cFire (plainAnswer probe), .dPop] = none :=
    holds.raises fails
  have same : cEvents [(plainAnswer probe, [.dPop])] = [.cFire (plainAnswer probe), .dPop] := by
    rw [cEvents, List.flatMap_singleton]
  rw [same, raised] at ranAnswer
  cases ranAnswer

/-- A retrieval from rest leaves its callback in the slot of the probe it sends. -/
theorem AtRest.sends (atRest : AtRest s) (retrieval : Retrieval) (burstData : List (Dict Nat (Nat × Nat)))
    (blockPerm : Dict Nat Nat) :
    ∃ src t, retrieveBlock retrieval { s with blockPerm, burstData } = some t ∧
      t.bQueue = [View.probe retrieval src] ∧ t.burstData = burstData ∧
      t.blockPerm = blockPerm ∧ t.bDriving = none ∧
      Holds retrieval.callback src { t with bQueue := [], bDriving := none } := by
  obtain ⟨src, free, retrieved⟩ := @retrieveBlock_sends { s with blockPerm, burstData }
    atRest.source (fun src mem => (atRest.known src mem).2) atRest.vacant retrieval
  refine ⟨src, _, retrieved, ?_, rfl, rfl, atRest.bDriving, ?_⟩
  · change s.bQueue ++ _ = _
    rw [atRest.bQueue, List.nil_append]
  constructor
  · exact atRest.drive
  · exact atRest.aOngoings
  · exact atRest.cOngoings
  · exact atRest.dQueue
  · exact atRest.dDriving
  · rfl
  · rfl
  · rw [Dict.get?_set, if_pos rfl]

/-! ## The messages that disagree -/

variable {msg : AMessage}

/-- `AcquirePerm` raises at once. -/
theorem acquirePerm_disagrees (atRest : AtRest s) (protocol : config.protocol = tlC)
    (opcode : msg.opcode = .acquirePerm) {others : List AMessage}
    (held : s.perm (config.blockAddr msg.address) ≠ tip) : ¬ PathsAgree config s msg others := by
  have stops : step config s (.aFire msg) = none := by
    rw [step, if_pos atRest.drive, aPortMonitor]
    by_cases accepted : aAssertions config.debug msg ∧ notInterleaved s.aOngoings msg.source
    · rw [if_pos accepted, opcode]
      dsimp only
      rw [if_pos protocol, acquirePerm]
      apply Option.bind_eq_none_iff.mpr
      intro sink _
      apply if_pos
      change (s.enterBlock (config.blockAddr msg.address)).perm _ ≠ tip
      rw [State.perm_enterBlock]
      exact held
    · rw [if_neg accepted]
  intro agree
  obtain ⟨probed, ran, _⟩ := agree (delivered (msg :: others)) (map_fst_delivered _)
    (onlyTurns_delivered _)
  have events : aEvents (delivered (msg :: others)) =
      .aFire msg :: (delivery ++ aEvents (delivered others)) := by
    rw [aEvents, delivered, List.map_cons, List.flatMap_cons]
    rfl
  rw [events, run, stops] at ran
  cases ran

/-- Sending the probe of the first beat and delivering it. -/
theorem run_first {retrieval : Retrieval} {src : Nat} {t : State} {others : List AMessage}
    (fires : step config s (.aFire msg) = some t) (drive : t.drive = true)
    (bDriving : t.bDriving = none) (queued : t.bQueue = [View.probe retrieval src]) :
    firstProbe config s msg = some (View.probe retrieval src) ∧
      run config s (aEvents (delivered (msg :: others))) =
        run config { t with bQueue := [], bDriving := none } (aEvents (delivered others)) := by
  constructor
  · rw [firstProbe, fires, Option.bind_some, queued]
    rfl
  · have events : aEvents (delivered (msg :: others)) =
        .aFire msg :: (delivery ++ aEvents (delivered others)) := by
      rw [aEvents, delivered, List.map_cons, List.flatMap_cons]
      rfl
    have short : t.bQueue.length ≤ 1 := by
      rw [queued]
      exact Nat.le_refl 1
    rw [events, run, fires, Option.bind_some, run_append, run_delivery drive bDriving short]
    rfl

/-- The callback of an atomic message raises. -/
theorem atomicData_disagrees (atRest : AtRest s) {others : List AMessage}
    {op : Nat → Nat → Option Int}
    {callback : (operand1 burstLen addrAligned bitMask offset size source : Nat) → Callback}
    (fires : step config s (.aFire msg) =
      atomicData config op callback msg (s.enterBlock (config.blockAddr msg.address)))
    (raises : ∀ t operand1 burstLen addrAligned bitMask offset size source,
      Raises t (callback operand1 burstLen addrAligned bitMask offset size source))
    (alone : others = []) (held : s.perm (config.blockAddr msg.address) ≠ tip) :
    ¬ PathsAgree config s msg others := by
  subst alone
  have heldStill : (s.enterBlock (config.blockAddr msg.address)).perm
      (config.blockAddr msg.address) ≠ tip := by
    rw [State.perm_enterBlock]
    exact held
  by_cases refused : config.burstLen msg.size ≠ 1 ∨ msg.mask = 0
  · intro agree
    obtain ⟨probed, ran, _⟩ := agree (delivered [msg]) (map_fst_delivered _)
      (onlyTurns_delivered _)
    have stops : step config s (.aFire msg) = none := by
      rw [fires, atomicData]
      exact if_pos refused
    have ranNone : run config s (aEvents (delivered [msg])) = none := by
      change (step config s (.aFire msg)).bind _ = none
      rw [stops]
      rfl
    rw [ranNone] at ran
    cases ran
  · have goes : ∃ retrieval, step config s (.aFire msg) =
        retrieveBlock retrieval (s.enterBlock (config.blockAddr msg.address)) ∧
          ∀ t, Raises t retrieval.callback := by
      rw [fires, atomicData]
      dsimp only
      rw [if_neg refused, if_pos heldStill]
      exact ⟨_, rfl, fun t => raises t _ _ _ _ _ _ _⟩
    obtain ⟨retrieval, sends, fails⟩ := goes
    obtain ⟨src, t, sent, queued, _, _, bDriving, holds⟩ := atRest.sends retrieval s.burstData
      (s.blockPerm.setDefault (config.blockAddr msg.address) tip)
    obtain ⟨isProbe, ranFirst⟩ := @run_first config s msg retrieval src t []
      (sends.trans sent) holds.drive bDriving queued
    apply not_pathsAgree
    intro probed ran
    rw [ranFirst] at ran
    cases ran
    exact ⟨isProbe, _, holds, fails _⟩

/-- A message that is no put has one beat. -/
theorem OneMessage.alone {others : List AMessage} (one : OneMessage config msg others)
    (opcode : msg.opcode ∉ [AOpcode.putFullData, .putPartialData]) : others = [] := by
  have length := one.length
  rw [if_neg opcode] at length
  exact List.length_eq_zero_iff.mp (Nat.succ.inj length)

theorem arithmeticData_disagrees (protocol : config.protocol = tlC) (atRest : AtRest s)
    {others : List AMessage} (one : OneMessage config msg others)
    (opcode : msg.opcode = .arithmeticData)
    (held : s.perm (config.blockAddr msg.address) ≠ tip) : ¬ PathsAgree config s msg others := by
  have alone : others = [] := by
    apply one.alone
    rw [opcode]
    decide
  have passes : notInterleaved s.aOngoings msg.source = true := by
    rw [atRest.aOngoings]
    rfl
  apply @atomicData_disagrees config s msg atRest others
    (fun operand1 operand2 => arithmeticOp msg.param operand1 operand2 msg.mask) .arithmeticAck
  · rw [step, if_pos atRest.drive, aPortMonitor,
      if_pos ⟨one.accepted msg List.mem_cons_self, passes⟩, opcode, protocol]
    rfl
  · exact fun _ _ _ _ _ _ _ _ => trivial
  · exact alone
  · exact held

theorem logicalData_disagrees (protocol : config.protocol = tlC) (atRest : AtRest s)
    {others : List AMessage} (one : OneMessage config msg others)
    (opcode : msg.opcode = .logicalData)
    (held : s.perm (config.blockAddr msg.address) ≠ tip) : ¬ PathsAgree config s msg others := by
  have alone : others = [] := by
    apply one.alone
    rw [opcode]
    decide
  have passes : notInterleaved s.aOngoings msg.source = true := by
    rw [atRest.aOngoings]
    rfl
  apply @atomicData_disagrees config s msg atRest others (logicalOp msg.param) .logicalAck
  · rw [step, if_pos atRest.drive, aPortMonitor,
      if_pos ⟨one.accepted msg List.mem_cons_self, passes⟩, opcode, protocol]
    rfl
  · exact fun _ _ _ _ _ _ _ _ => trivial
  · exact alone
  · exact held

/-! ## Puts -/

/-- The retrieval of a block that the core writes. -/
def putRetrieval (config : Config) (msg : AMessage) (burstData : Nat) : Retrieval :=
  { opcode := .probeBlock
    callback := .accessAck (config.burstLen msg.size) burstData msg.size msg.source
    param := toN, size := msg.size, address := msg.address, mask := msg.mask }

/-- A beat is recorded in the dictionary that was created last. -/
theorem recordBurst_concat {bursts : List (Dict Nat (Nat × Nat))} {burst : Dict Nat (Nat × Nat)}
    (last : s.burstData = bursts ++ [burst]) (addr : Nat) (entry : Nat × Nat) :
    s.recordBurst addr entry = some { s with burstData := bursts ++ [burst.set addr entry] } := by
  rw [State.recordBurst, last, List.getLast?_concat, List.dropLast_concat]
  rfl

/-- Every beat of a put to a block that the core holds is taken for a first one. -/
theorem putData_held (aOngoings : s.aOngoings = Dict.empty)
    (held : s.perm (config.blockAddr msg.address) ≠ tip) :
    putData config msg s =
      (retrieveBlock (putRetrieval config msg s.burstData.length)
        { s with burstData := s.burstData ++ [Dict.empty] }).bind fun t =>
          t.recordBurst (beatAddr config s.aOngoings msg.source msg.address)
            (bitMask msg.mask, msg.data) := by
  have first : s.aOngoings.getD msg.source 0 = 0 := by
    rw [aOngoings]
    rfl
  rw [putData]
  dsimp only
  rw [if_pos held, if_pos first]
  rfl

theorem step_put (drive : s.drive = true) (aOngoings : s.aOngoings = Dict.empty)
    (opcode : msg.opcode ∈ [AOpcode.putFullData, .putPartialData])
    (accepted : aAssertions config.debug msg = true) :
    step config s (.aFire msg) =
      putData config msg (s.enterBlock (config.blockAddr msg.address)) := by
  have passes : notInterleaved s.aOngoings msg.source = true := by
    rw [aOngoings]
    rfl
  rw [step, if_pos drive, aPortMonitor, if_pos ⟨accepted, passes⟩]
  rcases List.mem_cons.mp opcode with full | rest
  · rw [full]
  · rw [List.mem_singleton.mp rest]

theorem Raises.append {callback : Callback} (fails : Raises s callback)
    {more : List (Dict Nat (Nat × Nat))} (bursts : s'.burstData = s.burstData ++ more) :
    Raises s' callback := by
  cases callback with
  | accessAck burstLen burstData size source =>
      obtain ⟨burst, recorded, filled⟩ := fails
      refine ⟨burst, ?_, filled⟩
      rw [bursts, List.getElem?_append_left (List.getElem?_eq_some_iff.mp recorded).1]
      exact recorded
  | arithmeticAck => trivial
  | logicalAck => trivial
  | accessAckData => exact fails.elim
  | grant => exact fails.elim
  | grantData => exact fails.elim
  | probeBlocksRec => exact fails.elim
  | enableProbe => exact fails.elim

/-- A further beat of a put leaves the first callback where it is. -/
theorem put_beat {callback : Callback} {src : Nat} {t : State} (holds : Holds callback src s)
    (fails : Raises s callback) (opcode : msg.opcode ∈ [AOpcode.putFullData, .putPartialData])
    (accepted : aAssertions config.debug msg = true)
    (held : s.perm (config.blockAddr msg.address) ≠ tip)
    (fires : step config s (.aFire msg) = some t) :
    t.bQueue.length ≤ 1 ∧ t.bDriving = none ∧ t.perm = s.perm ∧
      Holds callback src { t with bQueue := [], bDriving := none } ∧ Raises t callback := by
  have heldStill : (s.enterBlock (config.blockAddr msg.address)).perm
      (config.blockAddr msg.address) ≠ tip := by
    rw [State.perm_enterBlock]
    exact held
  rw [step_put holds.drive holds.aOngoings opcode accepted,
    @putData_held config (s.enterBlock (config.blockAddr msg.address)) msg holds.aOngoings
      heldStill] at fires
  obtain ⟨sent, retrieved, recorded⟩ := Option.bind_eq_some_iff.mp fires
  obtain ⟨draws, bSrcs, bCallback, probes, rfl, short, kept⟩ := retrieveBlock_frame retrieved
  rw [recordBurst_concat rfl] at recorded
  cases recorded
  refine ⟨?_, holds.bDriving, State.perm_enterBlock _ _, ?_, fails.append rfl⟩
  · change (s.bQueue ++ probes).length ≤ 1
    rw [holds.bQueue, List.nil_append]
    exact short
  · exact ⟨holds.drive, holds.aOngoings, holds.cOngoings, holds.dQueue, holds.dDriving, rfl, rfl,
      kept src callback holds.slot⟩

/-- The further beats of a put. -/
theorem put_beats {callback : Callback} {src : Nat} {beats : List AMessage}
    (holds : Holds callback src s) (fails : Raises s callback)
    (opcode : ∀ beat ∈ beats, beat.opcode ∈ [AOpcode.putFullData, .putPartialData])
    (accepted : ∀ beat ∈ beats, aAssertions config.debug beat = true)
    (held : ∀ beat ∈ beats, s.perm (config.blockAddr beat.address) ≠ tip)
    (ran : run config s (aEvents (delivered beats)) = some s') :
    Holds callback src s' ∧ Raises s' callback := by
  induction beats generalizing s with
  | nil =>
      cases ran
      exact ⟨holds, fails⟩
  | cons beat beats ih =>
      have events : aEvents (delivered (beat :: beats)) =
          .aFire beat :: (delivery ++ aEvents (delivered beats)) := by
        rw [aEvents, delivered, List.map_cons, List.flatMap_cons]
        rfl
      rw [events] at ran
      obtain ⟨t, fires, ran⟩ := Option.bind_eq_some_iff.mp ran
      obtain ⟨short, bDriving, perm, holding, failing⟩ := put_beat holds fails
        (opcode beat List.mem_cons_self) (accepted beat List.mem_cons_self)
        (held beat List.mem_cons_self) fires
      rw [run_append, @run_delivery config t holding.drive bDriving short, Option.bind_some] at ran
      apply ih holding failing
      · exact fun other mem => opcode other (List.mem_cons_of_mem _ mem)
      · exact fun other mem => accepted other (List.mem_cons_of_mem _ mem)
      · intro other mem
        change t.perm _ ≠ tip
        rw [perm]
        exact held other (List.mem_cons_of_mem _ mem)
      · exact ran

/-- The callback of a put raises when its acknowledgement is sent. -/
theorem putData_disagrees (atRest : AtRest s) {others : List AMessage}
    (one : OneMessage config msg others)
    (opcode : msg.opcode ∈ [AOpcode.putFullData, .putPartialData])
    (held : s.perm (config.blockAddr msg.address) ≠ tip) : ¬ PathsAgree config s msg others := by
  have heldStill : (s.enterBlock (config.blockAddr msg.address)).perm
      (config.blockAddr msg.address) ≠ tip := by
    rw [State.perm_enterBlock]
    exact held
  obtain ⟨src, t, sent, queued, bursts, blockPerm, bDriving, holds⟩ := atRest.sends
    (putRetrieval config msg s.burstData.length) (s.burstData ++ [Dict.empty])
    (s.blockPerm.setDefault (config.blockAddr msg.address) tip)
  have recorded := recordBurst_concat bursts
    (beatAddr config s.aOngoings msg.source msg.address) (bitMask msg.mask, msg.data)
  have fires : step config s (.aFire msg) = some { t with burstData := s.burstData ++
      [Dict.empty.set (beatAddr config s.aOngoings msg.source msg.address)
        (bitMask msg.mask, msg.data)] } := by
    rw [step_put atRest.drive atRest.aOngoings opcode (one.accepted msg List.mem_cons_self),
      @putData_held config (s.enterBlock (config.blockAddr msg.address)) msg atRest.aOngoings
        heldStill]
    exact Option.bind_eq_some_iff.mpr ⟨t, sent, recorded⟩
  obtain ⟨isProbe, ranFirst⟩ := @run_first config s msg
    (putRetrieval config msg s.burstData.length) src _ others fires holds.drive bDriving queued
  apply not_pathsAgree
  intro probed ran
  rw [ranFirst] at ran
  have sameHeader : ∀ beat ∈ others, beat.opcode = msg.opcode ∧ beat.address = msg.address := by
    intro beat mem
    have header := one.header beat mem
    exact ⟨congrArg (·.opcode) header, congrArg (·.address) header⟩
  refine ⟨isProbe, (putRetrieval config msg s.burstData.length).callback, ?_⟩
  apply put_beats _ _ _ _ _ ran
  · exact ⟨holds.drive, holds.aOngoings, holds.cOngoings, holds.dQueue, holds.dDriving, rfl, rfl,
      holds.slot⟩
  · refine ⟨Dict.empty.set (beatAddr config s.aOngoings msg.source msg.address)
      (bitMask msg.mask, msg.data), ?_, List.cons_ne_nil _ _⟩
    exact List.getElem?_concat_length
  · intro beat mem
    rw [(sameHeader beat mem).1]
    exact opcode
  · exact fun beat mem => one.accepted beat (List.mem_cons_of_mem _ mem)
  · intro beat mem
    rw [(sameHeader beat mem).2]
    change t.blockPerm.getD _ tip ≠ tip
    rw [blockPerm]
    exact heldStill

/-! ## Exactly the acquires agree -/

/-- The probing path agrees with the direct path exactly for `AcquireBlock`. -/
theorem pathsAgree_iff (protocol : config.protocol = tlC) (atRest : AtRest s)
    {others : List AMessage} (one : OneMessage config msg others)
    (held : s.perm (config.blockAddr msg.address) ≠ tip) :
    PathsAgree config s msg others ↔ msg.opcode = .acquireBlock := by
  constructor
  · intro agree
    cases opcode : msg.opcode with
    | acquireBlock => rfl
    | putFullData =>
        have put : msg.opcode ∈ [AOpcode.putFullData, .putPartialData] := by
          rw [opcode]
          decide
        exact absurd agree (putData_disagrees atRest one put held)
    | putPartialData =>
        have put : msg.opcode ∈ [AOpcode.putFullData, .putPartialData] := by
          rw [opcode]
          decide
        exact absurd agree (putData_disagrees atRest one put held)
    | arithmeticData =>
        exact absurd agree (arithmeticData_disagrees protocol atRest one opcode held)
    | logicalData =>
        exact absurd agree (logicalData_disagrees protocol atRest one opcode held)
    | acquirePerm => exact absurd agree (acquirePerm_disagrees atRest protocol opcode held)
    | get =>
        have probing := one.opcode
        rw [opcode] at probing
        exact absurd probing (by decide)
    | intent =>
        have probing := one.opcode
        rw [opcode] at probing
        exact absurd probing (by decide)
  · intro opcode
    exact pathsAgree_acquireBlock atRest protocol opcode one held

end Raising

/-- The core acquires the block at 64 of an image of one word and is granted it. -/
def acquireWhole (param : Nat) : AMessage where
  opcode := .acquireBlock
  param := param
  size := 6
  source := 0
  address := 64
  mask := 255
  data := 0

/-- The adapter after the core has been granted the block at 64. -/
def heldBlock : State :=
  (run tileConfig ((State.init []).start tileConfig (Dict.empty.set 64 7))
    (.aFire (acquireWhole nToT) :: (List.replicate 8 [.dPop, .dFire]).flatten ++
      [.eFire 0])).getD (State.init [])

theorem atRest_heldBlock : AtRest heldBlock := by
  constructor
  · decide +kernel
  · exact Dict.eq_of_entries (by decide +kernel)
  · exact Dict.eq_of_entries (by decide +kernel)
  · decide +kernel
  · decide +kernel
  · decide +kernel
  · decide +kernel
  · decide +kernel
  · decide +kernel
  · decide +kernel
  · decide +kernel
  · decide +kernel
  · decide +kernel

theorem pathsAgree_iff_acquireBlock :
    heldBlock.perm 64 = trunk ∧ PathsAgree tileConfig heldBlock (acquireWhole bToT) [] := by
  have held : heldBlock.perm 64 = trunk := by decide +kernel
  have block : tileConfig.blockAddr (acquireWhole bToT).address = 64 := by decide +kernel
  refine ⟨held, (pathsAgree_iff rfl atRest_heldBlock ?_ ?_).mpr rfl⟩
  · constructor
    · decide
    · exact fun _ mem => absurd mem List.not_mem_nil
    · rfl
    · exact fun _ _ => rfl
  · rw [block, held]
    decide

/-- The core stores one word past its cache. -/
def storeUncached : AMessage where
  opcode := .putFullData
  param := 0
  size := 3
  source := 1
  address := 72
  mask := 255
  data := 9

/-- A store to a block that the core holds is not answered. -/
theorem pathsAgree_fails_put :
    AtRest heldBlock ∧ OneMessage tileConfig storeUncached [] ∧
      heldBlock.perm (tileConfig.blockAddr storeUncached.address) ≠ tip ∧
      ¬ PathsAgree tileConfig heldBlock storeUncached [] := by
  have one : OneMessage tileConfig storeUncached [] := by
    constructor
    · decide
    · exact fun _ mem => absurd mem List.not_mem_nil
    · rfl
    · exact fun _ _ => rfl
  have held : heldBlock.perm (tileConfig.blockAddr storeUncached.address) ≠ tip := by
    decide +kernel
  exact ⟨atRest_heldBlock, one, held, putData_disagrees atRest_heldBlock one (by decide) held⟩

end Difftest.TileLink
