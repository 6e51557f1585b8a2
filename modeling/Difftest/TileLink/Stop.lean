import Difftest.TileLink.WriteBack

/-!
# Stopping the adapter

`stop` asks `data_retriever` to probe every block the core holds; the last answer
clears `drive`.  The blocks are listed once, so a trunk grant that is pending
then, or asked for later, escapes the sweep.  Without one, no block is left with
the core and its stores are all in memory.
-/

namespace Difftest.TileLink

variable {config : Config}

/-! ## One event -/

/-- The invariants of an execution. -/
structure Coherent (config : Config) (v : View) (core : Core) : Prop where
  ledger : Ledger config v core
  sweep : Sweep v core.probes
  writeBack : WriteBack config v core

section Coherent

variable {v v' : View} {core : Core}

theorem Coherent.accepts (inv : Coherent config v core) {msg : AMessage}
    (rule : core.Obeys config v (.adapter (.aFire msg)))
    (allowed : SnapshotSafe v (.adapter (.aFire msg))) (accepted : v.Accepts config msg v') :
    Coherent config v' (core.request config msg v v') := by
  constructor
  · exact inv.ledger.accepts rule accepted
  · exact inv.sweep.accepts allowed accepted
  · exact inv.writeBack.accepts accepted

theorem Coherent.receives (blocks : config.PowerOfTwoBlocks) (inv : Coherent config v core)
    {msg : CMessage} (rule : core.MaySend config v msg) (received : v.Receives config msg v') :
    Coherent config v' (core.send config msg) := by
  obtain ⟨index, next⟩ := Option.isSome_iff_exists.mp rule.inOrder
  have counted : v.cOngoings.getD msg.source 0 = (beatIndex core.cBurst msg.header).getD 0 := by
    rw [inv.writeBack.count next, next]
    rfl
  constructor
  · exact inv.ledger.receives rule counted received
  · exact inv.sweep.receives inv.ledger rule counted received
  · exact inv.writeBack.receives blocks rule received

theorem Coherent.pops (inv : Coherent config v core) (driving : v.drive = true)
    (popped : v.Pops v') : Coherent config v' core := by
  constructor
  · exact inv.ledger.pops popped
  · exact inv.sweep.pops inv.ledger driving popped
  · exact inv.writeBack.frame popped.sameStore

/-- The core receives what channel D drives. -/
theorem Coherent.receiveGrant (inv : Coherent config v core) :
    Coherent config { v with dDriving := none } (core.next config .dFire v v') := by
  unfold Core.next
  cases driving : v.dDriving with
  | none =>
      have same : { v with dDriving := none } = v := by rw [← driving]
      dsimp only
      rw [same]
      exact inv
  | some msg =>
      dsimp only
      constructor
      · exact inv.ledger.receive driving
      · have probes : (core.receive msg).probes = core.probes := by
          unfold Core.receive
          split
          · split
            · rfl
            · rfl
          · rfl
        rw [probes]
        apply inv.sweep.drain
        intro other mem
        exact List.mem_append_right _ mem
      · exact (inv.writeBack.receive msg).frame ⟨rfl, rfl⟩

/-- The probes that are outstanding move from the queue to the core. -/
theorem Sweep.relay {probes probes' : List BMessage} (sweep : Sweep v probes)
    {bQueue : List BMessage} {bDriving : Option BMessage}
    (same : (View.outstanding { v with bQueue, bDriving } probes').Perm (v.outstanding probes)) :
    Sweep { v with bQueue, bDriving } probes' := by
  constructor
  · exact ((same.map BMessage.source).append_right v.ids.freeList).nodup_iff.mpr sweep.sources
  · exact sweep.before
  · exact sweep.after
  · exact sweep.waiting
  · exact fun probe mem => sweep.sent probe (same.mem_iff.mp mem)
  · exact sweep.done

theorem Coherent.relay (inv : Coherent config v core) {probes : List BMessage}
    {bQueue : List BMessage} {bDriving : Option BMessage}
    (same : (View.outstanding { v with bQueue, bDriving } probes).Perm
      (v.outstanding core.probes)) :
    Coherent config { v with bQueue, bDriving } { core with probes } := by
  have ledger := inv.ledger
  have writeBack := inv.writeBack
  constructor
  · exact ⟨ledger.held, ledger.owned, ledger.queued, ledger.driven, ledger.deferred,
      ledger.acquired, ledger.blocks⟩
  · exact inv.sweep.relay same
  · exact ⟨writeBack.clean, writeBack.dirty, writeBack.counted, writeBack.started,
      writeBack.cleaned⟩

/-- A plain retrieval of the host. -/
theorem Coherent.retrieves (inv : Coherent config v core) {retrieval : Retrieval}
    (plain : PlainCallback retrieval.callback) (retrieved : v.Retrieves retrieval v') :
    Coherent config v' core := by
  have ordinary : ∀ rest, retrieval.callback ≠ .probeBlocksRec rest := by
    intro rest sweeps
    rw [sweeps] at plain
    exact plain
  have quiet : retrieval.callback.trunkGrant = none := by
    cases found : retrieval.callback with
    | grant => exact absurd plain (by rw [found]; exact id)
    | grantData => exact absurd plain (by rw [found]; exact id)
    | _ => rfl
  constructor
  · apply inv.ledger.retrieves _ retrieved
    intro source blockAddr grants
    rw [quiet] at grants
    cases grants
  · exact inv.sweep.retrieves (fun _ => ordinary) (fun _ => quiet) (sweepOk_of_plain ordinary)
      retrieved
  · exact inv.writeBack.frame retrieved.sameStore

/-- The sweep begins while no trunk grant is pending. -/
theorem Sweep.begin {probes : List BMessage} (sweep : Sweep v probes) (fresh : v.retrieved = false)
    (quiet : v.NoTrunkGrant) : Sweep { v with retrieved := true } probes := by
  have plain := sweep.before fresh
  constructor
  · exact sweep.sources
  · intro unbegun
    cases unbegun
  · exact fun _ => quiet
  · exact fun retrieval mem => sweepOk_of_plain (plain.2 retrieval mem)
  · exact fun probe _ callback found => sweepOk_of_plain (plain.1 probe.source callback found)
  · exact fun stopped => ⟨rfl, (sweep.done stopped).2⟩

theorem Coherent.begin (inv : Coherent config v core) (fresh : v.retrieved = false)
    (quiet : v.NoTrunkGrant) {addrs : List Nat}
    (cover : ∀ addr, v.perm addr ≠ tip → addr ∈ addrs)
    (called : View.Calls config (.probeBlocksRec addrs) { v with retrieved := true } v') :
    Coherent config v' core := by
  have ledger : Ledger config { v with retrieved := true } core :=
    ⟨inv.ledger.held, inv.ledger.owned, inv.ledger.queued, inv.ledger.driven, inv.ledger.deferred,
      inv.ledger.acquired, inv.ledger.blocks⟩
  constructor
  · apply ledger.calls _ called
    intro source blockAddr grants
    cases grants
  · apply (inv.sweep.begin fresh quiet).calls _ _ _ called
    · exact fun _ => rfl
    · exact fun _ => rfl
    · intro rest same blockAddr held
      cases same
      exact cover blockAddr held
  · exact (inv.writeBack.frame ⟨rfl, rfl⟩).frame
      called.sameStore

/-- Every event the rules and the condition allow keeps the invariants. -/
theorem Coherent.moves (blocks : config.PowerOfTwoBlocks) (inv : Coherent config v core)
    {event : Event} (rule : core.Obeys config v (.adapter event))
    (allowed : SnapshotSafe v (.adapter event)) (moves : View.Moves config event v v') :
    Coherent config v' (core.next config event v v') := by
  cases moves with
  | aFire msg driving accepted => exact inv.accepts rule allowed accepted
  | cFire msg driving alone received => exact inv.receives blocks rule received
  | eFire => exact inv
  | dWait => exact inv
  | dPop driving popped => exact inv.pops driving popped
  | dFire => exact inv.receiveGrant
  | bWait => exact inv
  | bPop _ msg rest head idle =>
      apply inv.relay
      rw [View.outstanding, View.outstanding, head, idle, Option.toList_none, List.append_nil]
      apply List.Perm.append_right
      exact List.perm_append_singleton msg rest
  | bFire =>
      apply inv.relay
      rw [View.outstanding, View.outstanding, Option.toList_none, List.append_nil,
        List.append_assoc]
      exact List.Perm.append_left _ List.perm_append_comm
  | hostWait => exact inv
  | host retrieval plain retrieved => exact inv.retrieves plain retrieved
  | retrieverWait => exact inv
  | retriever addrs asked fresh cover called =>
      exact inv.begin fresh (allowed asked fresh) cover called
  | probeBlock => exact inv
  | stop =>
      have ledger := inv.ledger
      have sweep := inv.sweep
      have writeBack := inv.writeBack
      constructor
      · exact ⟨ledger.held, ledger.owned, ledger.queued, ledger.driven, ledger.deferred,
          ledger.acquired, ledger.blocks⟩
      · exact ⟨sweep.sources, sweep.before, sweep.after, sweep.waiting, sweep.sent, sweep.done⟩
      · exact ⟨writeBack.clean, writeBack.dirty, writeBack.counted, writeBack.started,
          writeBack.cleaned⟩

theorem Coherent.store (blocks : config.PowerOfTwoBlocks) (inv : Coherent config v core)
    {addr value : Nat} (rule : core.Obeys config v (.store addr value)) :
    Coherent config v (core.store addr value) := by
  constructor
  · exact inv.ledger.congr rfl rfl
  · exact inv.sweep
  · exact inv.writeBack.store blocks rule

end Coherent

/-! ## Runs -/

theorem perm_start (memory : Dict Nat Nat) (s : State) (blockAddr : Nat) :
    (s.start config memory).perm blockAddr = tip := by
  have entered : ∀ (addrs : List Nat) (blockPerm : Dict Nat Nat),
      blockPerm.getD blockAddr tip = tip →
        (addrs.foldl (fun blockPerm addr => blockPerm.set addr tip) blockPerm).getD blockAddr tip =
          tip := by
    intro addrs
    induction addrs with
    | nil => exact fun _ => id
    | cons addr addrs ih =>
        intro blockPerm before
        apply ih
        rw [Dict.getD_set]
        split
        · rfl
        · exact before
  exact entered _ Dict.empty rfl

/-- A started adapter owns every block, and the core holds nothing. -/
theorem coherent_start (memory : Dict Nat Nat) (s : State) :
    Coherent config (s.start config memory).view Core.new := by
  have returned := @perm_start config memory s
  have noCallback : ∀ src, (s.start config memory).view.pending src = none :=
    fun src => SrcToCallback.pending_new _ src
  have noDeferred : ∀ P : Callback → Prop, (s.start config memory).view.Deferred P := by
    intro P
    constructor
    · intro src callback found
      rw [noCallback src] at found
      cases found
    · intro retrieval mem
      cases mem
  constructor
  · constructor
    · exact fun blockAddr held => absurd (returned blockAddr) held
    · intro blockAddr owned
      cases owned
    · trivial
    · intro msg driving
      cases driving
    · exact noDeferred _
    · intro source blockAddr known
      cases known
    · exact fun blockAddr held => absurd (returned blockAddr) held
  · constructor
    · exact List.nodup_range
    · exact fun _ => noDeferred _
    · intro begun
      cases begun
    · intro retrieval mem
      cases mem
    · intro probe mem
      cases mem
    · intro stopped
      cases stopped
  · constructor
    · intro addr value found
      cases found
    · intro addr dirty
      cases dirty
    · rfl
    · intro header count running
      cases running
    · intro header count running
      cases running

theorem Coherent.execution (blocks : config.PowerOfTwoBlocks) {s s' : State} {core core' : Core}
    {events : List SystemEvent} (inv : Coherent config s.view core)
    (executed : Execution config SnapshotSafe s core events s' core') :
    Coherent config s'.view core' := by
  induction executed with
  | nil => exact inv
  | adapter obeys allowed stepped rest ih =>
      exact ih (inv.moves blocks obeys allowed (step_view stepped))
  | store obeys allowed rest ih => exact ih (inv.store blocks obeys)

/-- When the retriever lists the blocks while no trunk grant is pending and none
is asked for later, a stopped adapter owns every block, no trunk grant waits, and
memory contains every value the core has stored. -/
theorem stop_writesBack (blocks : config.PowerOfTwoBlocks) (memory : Dict Nat Nat) (before : State)
    {events : List SystemEvent} {s : State} {core : Core}
    (executed : Execution config SnapshotSafe (before.start config memory) Core.new events s core)
    (stopped : s.drive = false) :
    (∀ blockAddr perm, s.blockPerm.get? blockAddr = some perm → perm = tip) ∧
      (∀ entry ∈ s.dQueue, ∀ msg, entry.1 = some msg → ¬ msg.GrantsTrunk) ∧
        ∀ addr value, core.stored addr = some value → s.word addr = value := by
  have inv := (coherent_start memory before).execution blocks executed
  obtain ⟨begun, returned⟩ := inv.sweep.done stopped
  constructor
  · intro blockAddr perm found
    have held : s.perm blockAddr = tip := returned blockAddr
    rw [← held, State.perm, Dict.getD, found]
    rfl
  constructor
  · intro entry mem msg carries
    have waiting : msg ∈ s.view.inFlight :=
      List.mem_append_right _ (List.mem_filterMap.mpr ⟨entry, mem, carries⟩)
    exact (inv.sweep.after begun).1 msg waiting
  · intro addr value found
    apply inv.writeBack.clean addr value found
    by_contra dirty
    have owned := (inv.writeBack.dirty addr (by simpa using dirty)).2
    exact inv.ledger.owned _ owned (returned _)

/-! ## Two stops -/

/-- The state after the first events of a run. -/
def State.after (config : Config) (events : List Event) (s : State) (count : Nat) : State :=
  (run config s (events.take count)).getD s

/-- One step of a run that is known to succeed. -/
theorem step_after {s : State} {events : List Event} {event : Event}
    (ran : (run config s events).isSome = true) (count : Nat)
    (found : events[count]? = some event) :
    step config (s.after config events count) event = some (s.after config events (count + 1)) := by
  have prefixRan : (run config s (events.take (count + 1))).isSome = true := by
    rw [← List.take_append_drop (count + 1) events, run_append] at ran
    exact Option.isSome_of_isSome_bind ran
  rw [State.after, State.after]
  rw [List.take_add_one, found, Option.toList_some, run_append] at prefixRan ⊢
  obtain ⟨before, reached⟩ := Option.isSome_iff_exists.mp (Option.isSome_of_isSome_bind prefixRan)
  have single : run config before [event] = step config before event := by simp [run]
  rw [reached, Option.bind_some, single] at prefixRan ⊢
  obtain ⟨next, stepped⟩ := Option.isSome_iff_exists.mp prefixRan
  rw [stepped]
  exact stepped

/-- Nothing is deferred while no probe waits and none is expected. -/
theorem deferred_of_idle {s : State}
    (idle : (∀ entry ∈ s.bCallback.cMap.entries, entry.2 = none) ∧ s.bSrcs.eventQueue = [])
    (P : Callback → Prop) : s.view.Deferred P := by
  constructor
  · intro src callback found
    rw [show s.view.pending src = none from SrcToCallback.pending_eq_none idle.1 src] at found
    cases found
  · intro retrieval mem
    rw [show s.view.ids.eventQueue = [] from idle.2] at mem
    cases mem

/-- A tile whose blocks are single words. -/
def wordBlocks : Config := { tileConfig with blockSize := 8 }

/-- An acquire of the block at `0x80000000`. -/
def acquireAt (size : Nat) : AMessage where
  opcode := .acquireBlock
  param := nToT
  size := size
  source := 2
  address := 0x80000000
  mask := 0xff
  data := 0

/-- The block at `0x80000000` comes back with a store. -/
def writeBackAt : CMessage where
  opcode := .probeAckData
  param := tToN
  size := 3
  source := 0
  address := 0x80000000
  data := 7
  corrupt := 0

/-- The core acquires a block and stores to it; the stopped adapter gets it back. -/
theorem stop_writesBack_store : ∃ events s core,
    Execution wordBlocks SnapshotSafe ((State.init []).start wordBlocks Dict.empty) Core.new events
        s core ∧
      s.drive = false ∧ core.stored 0x80000000 = some 7 ∧ s.word 0x80000000 = 7 := by
  let start := (State.init []).start wordBlocks Dict.empty
  let events : List Event :=
    [.aFire (acquireAt 3), .dPop, .dFire, .stop, .retriever, .bPop, .bFire, .cFire writeBackAt]
  let reached := start.after wordBlocks events
  have ran : (run wordBlocks start events).isSome = true := by decide +kernel
  have free : start.view.SourceFree 2 := by
    constructor
    · decide
    · exact deferred_of_idle (by decide) _
  have driven : (reached 2).view.dDriving = some (grantData toT 3 2 0 0) := by decide +kernel
  have quiet : (reached 4).view.NoTrunkGrant := by
    constructor
    · decide +kernel
    · exact deferred_of_idle (by decide +kernel) _
  let probe := View.probe (sweepRetrieval wordBlocks 0x80000000 []) 0
  have probed : (reached 6).view.bDriving = some probe := by decide +kernel
  have landed : (reached 7).view.inFlight = [] := by decide +kernel
  have stopped : (reached 8).drive = false := by decide +kernel
  have block : wordBlocks.blockAddr 0x80000000 = 0x80000000 :=
    blockAddr_eq_self ⟨3, 3, by decide, rfl, rfl⟩ ⟨0x10000000, rfl⟩
  let asked := Core.new.request wordBlocks (acquireAt 3) start.view (reached 1).view
  let granted := asked.receive (grantData toT 3 2 0 0)
  let ready : Core := { granted.store 0x80000000 7 with probes := [probe] }
  have owned : granted.owns (wordBlocks.blockAddr 0x80000000) = true := by
    rw [block]
    decide +kernel
  have answers : ready.MaySend wordBlocks (reached 7).view writeBackAt := by
    constructor
    · exact Or.inl rfl
    · rfl
    · intro _
      constructor
      · exact owned
      · rintro ⟨msg, mem, _⟩
        rw [landed] at mem
        cases mem
    · intro _
      refine ⟨owned, rfl, ⟨0x10000000, rfl⟩, ?_⟩
      intro index value next found
      cases next
      cases found
      rfl
    · intro plain
      cases plain
    · intro _
      exact ⟨probe, List.mem_cons_self, rfl, rfl, fun _ _ => rfl⟩
  have written : Execution wordBlocks SnapshotSafe start Core.new
      [.adapter (.aFire (acquireAt 3)), .adapter .dPop, .adapter .dFire, .store 0x80000000 7,
        .adapter .stop, .adapter .retriever, .adapter .bPop, .adapter .bFire,
        .adapter (.cFire writeBackAt)] (reached 8) (ready.send wordBlocks writeBackAt) := by
    refine Execution.adapter ?_ ?_ (step_after ran 0 rfl) ?_
    · exact fun _ => ⟨rfl, free⟩
    · intro begun
      cases begun
    refine Execution.adapter trivial trivial (step_after ran 1 rfl) ?_
    refine Execution.adapter trivial trivial (step_after ran 2 rfl) ?_
    have received : Core.next wordBlocks .dFire (reached 2).view (reached 3).view asked =
        granted := by
      rw [Core.next, driven]
    refine Execution.store ?_ trivial ?_
    · change Core.Obeys _ (Core.next wordBlocks .dFire (reached 2).view (reached 3).view asked) _ _
      rw [received]
      exact ⟨⟨0x10000000, rfl⟩, owned, fun _ _ running => by cases running⟩
    refine Execution.adapter trivial trivial (step_after ran 3 rfl) ?_
    refine Execution.adapter trivial (fun _ _ => quiet) (step_after ran 4 rfl) ?_
    refine Execution.adapter trivial trivial (step_after ran 5 rfl) ?_
    refine Execution.adapter trivial trivial (step_after ran 6 rfl) ?_
    have waiting : Core.next wordBlocks .bFire (reached 6).view (reached 7).view
        ((Core.next wordBlocks .dFire (reached 2).view (reached 3).view asked).store 0x80000000 7) =
          ready := by
      rw [received, Core.next, probed]
      rfl
    change Execution _ _ _ (Core.next wordBlocks .bFire (reached 6).view (reached 7).view
      ((Core.next wordBlocks .dFire (reached 2).view (reached 3).view asked).store 0x80000000 7))
      _ _ _
    rw [waiting]
    exact Execution.adapter answers trivial (step_after ran 7 rfl) (Execution.nil _ _)
  obtain ⟨_, _, inMemory⟩ := stop_writesBack ⟨3, 3, by decide, rfl, rfl⟩ Dict.empty (State.init [])
    written stopped
  exact ⟨_, _, _, written, stopped, rfl, inMemory 0x80000000 7 rfl⟩

/-- A load keeps the channel D driver busy while the core acquires a block and
the adapter is stopped. -/
def stopUnderGrant : List Event :=
  [.aFire { opcode := .get, param := 0, size := 6, source := 1, address := 0x80000100,
            mask := 0xff, data := 0 }, .dPop, .aFire (acquireAt 6), .stop, .retriever]

/-- No block is held when the retriever lists them, so `drive` is cleared at once
although a trunk grant waits in the queue. -/
theorem stop_leavesGrant : ∃ s core,
    Execution tileConfig (fun _ _ => True) ((State.init []).start tileConfig Dict.empty) Core.new
        (stopUnderGrant.map .adapter) s core ∧
      s.drive = false ∧ ∃ entry ∈ s.dQueue, ∃ msg, entry.1 = some msg ∧ msg.GrantsTrunk := by
  let start := (State.init []).start tileConfig Dict.empty
  let reached := start.after tileConfig stopUnderGrant
  have ran : (run tileConfig start stopUnderGrant).isSome = true := by decide +kernel
  have free : (reached 2).view.SourceFree 2 := by
    constructor
    · decide +kernel
    · exact deferred_of_idle (by decide +kernel) _
  have stopped : (reached 5).drive = false := by decide +kernel
  have waits : (reached 5).dQueue.getLast? = some (some (grantData toT 6 2 0 0), none) := by
    decide +kernel
  have plain : ¬ AMessage.AcquiresTrunk
      { opcode := .get, param := 0, size := 6, source := 1, address := 0x80000100,
        mask := 0xff, data := 0 } := by
    decide
  have executed : ∃ core, Execution tileConfig (fun _ _ => True) start Core.new
      (stopUnderGrant.map .adapter) (reached 5) core := by
    apply Exists.intro
    apply Execution.adapter _ trivial (step_after ran 0 rfl)
    · apply Execution.adapter _ trivial (step_after ran 1 rfl)
      · apply Execution.adapter _ trivial (step_after ran 2 rfl)
        · apply Execution.adapter _ trivial (step_after ran 3 rfl)
          · apply Execution.adapter _ trivial (step_after ran 4 rfl)
            · exact Execution.nil _ _
            · trivial
          · trivial
        · exact fun _ => ⟨rfl, free⟩
      · trivial
    · exact fun asks => absurd asks plain
  obtain ⟨core, executed⟩ := executed
  exact ⟨_, _, executed, stopped, _, List.mem_of_getLast? waits, _, rfl, Or.inr rfl, rfl⟩

end Difftest.TileLink
