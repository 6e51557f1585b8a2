import Difftest.TileLink.Ledger

/-!
# The final sweep

`probe_blocks` lists the blocks to probe once and probes them one after the
other.  The invariant ties each callback of the sweep to the probe it waits for:
apart from that probe's block, only the blocks still listed can be held.  No
trunk grant may be pending once the list is made.
-/

namespace Difftest.TileLink

variable {config : Config}

/-- The probes sent and not answered: queued, driven, or with the core. -/
def View.outstanding (v : View) (probes : List BMessage) : List BMessage :=
  v.bQueue ++ v.bDriving.toList ++ probes

/-- A callback of the sweep waits for a probe that takes everything, and only the
probe's block and the listed blocks are held. -/
def SweepOk (perm : Nat → Nat) (param address : Nat) (callback : Callback) : Prop :=
  ∀ rest, callback = .probeBlocksRec rest →
    param = toN ∧ ∀ blockAddr, perm blockAddr ≠ tip → blockAddr ∈ address :: rest

/-- The state of the sweep. -/
structure Sweep (v : View) (probes : List BMessage) : Prop where
  /-- A source is free or has one probe outstanding, not both. -/
  sources : ((v.outstanding probes).map BMessage.source ++ v.ids.freeList).Nodup
  before : v.retrieved = false → v.Deferred fun callback => ∀ rest, callback ≠ .probeBlocksRec rest
  after : v.retrieved = true → v.NoTrunkGrant
  waiting : ∀ retrieval ∈ v.ids.eventQueue,
    SweepOk v.perm retrieval.param retrieval.address retrieval.callback
  sent : ∀ probe ∈ v.outstanding probes, ∀ callback, v.pending probe.source = some callback →
    SweepOk v.perm probe.param probe.address callback
  done : v.drive = false → v.retrieved = true ∧ ∀ blockAddr, v.perm blockAddr = tip

section Sweep

variable {v v' : View} {probes : List BMessage}

theorem SweepOk.shrink {perm perm' : Nat → Nat} {param address : Nat} {callback : Callback}
    (ok : SweepOk perm param address callback)
    (shrinks : ∀ blockAddr, perm' blockAddr ≠ tip → perm blockAddr ≠ tip) :
    SweepOk perm' param address callback := by
  intro rest sweeps
  obtain ⟨everything, cover⟩ := ok rest sweeps
  exact ⟨everything, fun blockAddr held => cover blockAddr (shrinks blockAddr held)⟩

theorem sweepOk_of_plain {perm : Nat → Nat} {param address : Nat} {callback : Callback}
    (plain : ∀ rest, callback ≠ .probeBlocksRec rest) : SweepOk perm param address callback :=
  fun rest sweeps => absurd sweeps (plain rest)

/-- Blocks are returned. -/
theorem Sweep.shrink (sweep : Sweep v probes) {perm : Nat → Nat}
    (shrinks : ∀ blockAddr, perm blockAddr ≠ tip → v.perm blockAddr ≠ tip) :
    Sweep { v with perm } probes := by
  constructor
  · exact sweep.sources
  · exact sweep.before
  · exact sweep.after
  · intro retrieval mem
    exact (sweep.waiting retrieval mem).shrink shrinks
  · intro probe mem callback found
    exact (sweep.sent probe mem callback found).shrink shrinks
  · intro stopped
    obtain ⟨begun, returned⟩ := sweep.done stopped
    refine ⟨begun, fun blockAddr => ?_⟩
    by_contra held
    exact shrinks blockAddr held (returned blockAddr)

theorem Sweep.push (sweep : Sweep v probes) {entries : List DEntry}
    (quiet : v.retrieved = true → ∀ entry ∈ entries, QuietEntry entry) :
    Sweep (v.push entries) probes := by
  constructor
  · exact sweep.sources
  · exact sweep.before
  · intro begun
    obtain ⟨none, deferred⟩ := sweep.after begun
    refine ⟨?_, deferred⟩
    intro msg mem
    rw [View.inFlight, View.push, List.filterMap_append, ← List.append_assoc] at mem
    rcases List.mem_append.mp mem with old | new
    · exact none msg old
    · obtain ⟨entry, added, carries⟩ := List.mem_filterMap.mp new
      exact (quiet begun entry added).2 msg carries
  · exact sweep.waiting
  · exact sweep.sent
  · exact sweep.done

/-- A probe is sent under a free source. -/
theorem Sweep.issue (sweep : Sweep v probes) {retrieval : Retrieval} {src : Nat}
    (free : src ∈ v.ids.freeList)
    (before : v.retrieved = false → ∀ rest, retrieval.callback ≠ .probeBlocksRec rest)
    (after : v.retrieved = true → retrieval.callback.trunkGrant = none)
    (ok : SweepOk v.perm retrieval.param retrieval.address retrieval.callback) :
    Sweep (v.issue retrieval src) probes := by
  have added : ((v.issue retrieval src).outstanding probes).Perm
      (View.probe retrieval src :: v.outstanding probes) := by
    simp only [View.outstanding, View.issue, View.setPending, List.append_assoc]
    exact List.perm_middle
  have used : ∀ probe ∈ v.outstanding probes, probe.source ≠ src := by
    rintro probe mem rfl
    exact List.disjoint_of_nodup_append sweep.sources
      (List.mem_map_of_mem mem) free
  constructor
  · have permuted : (((v.issue retrieval src).outstanding probes).map BMessage.source ++
        v.ids.freeList.erase src).Perm
          ((v.outstanding probes).map BMessage.source ++ v.ids.freeList) := by
      have sent := (added.map BMessage.source).append_right (v.ids.freeList.erase src)
      have taken := (List.perm_cons_erase free).symm.append_left
        ((v.outstanding probes).map BMessage.source)
      exact sent.trans (List.perm_middle.symm.trans taken)
    exact permuted.nodup_iff.mpr sweep.sources
  · intro fresh
    exact (sweep.before fresh).issue (before fresh) src
  · intro begun
    obtain ⟨none, deferred⟩ := sweep.after begun
    exact ⟨none, deferred.issue (after begun) src⟩
  · exact sweep.waiting
  · intro probe mem callback found
    rcases List.mem_cons.mp (added.mem_iff.mp mem) with rfl | old
    · have own : callback = retrieval.callback := by
        rw [View.issue, View.setPending] at found
        dsimp only [View.probe] at found
        rw [if_pos rfl] at found
        exact (Option.some.inj found).symm
      rw [own]
      exact ok
    · rw [View.issue, View.setPending] at found
      dsimp only at found
      rw [if_neg (used probe old)] at found
      exact sweep.sent probe old callback found
  · exact sweep.done

theorem Sweep.retrieves (sweep : Sweep v probes) {retrieval : Retrieval}
    (before : v.retrieved = false → ∀ rest, retrieval.callback ≠ .probeBlocksRec rest)
    (after : v.retrieved = true → retrieval.callback.trunkGrant = none)
    (ok : SweepOk v.perm retrieval.param retrieval.address retrieval.callback)
    (retrieved : v.Retrieves retrieval v') : Sweep v' probes := by
  cases retrieved with
  | waits busy =>
      have reserved : v.Retrieves retrieval { v with ids := v.ids.reserve retrieval } :=
        View.Retrieves.waits busy
      constructor
      · exact sweep.sources
      · intro fresh
        exact (sweep.before fresh).retrieves (before fresh) reserved
      · intro begun
        obtain ⟨none, deferred⟩ := sweep.after begun
        exact ⟨none, deferred.retrieves (after begun) reserved⟩
      · intro other mem
        rcases List.mem_append.mp mem with old | new
        · exact sweep.waiting other old
        · rw [List.mem_singleton.mp new]
          exact ok
      · exact sweep.sent
      · exact sweep.done
  | sends src free unused => exact sweep.issue free before after ok

/-- A source with an outstanding probe is not free. -/
theorem Sweep.notFree (sweep : Sweep v probes) {probe : BMessage}
    (mem : probe ∈ v.outstanding probes) : probe.source ∉ v.ids.freeList :=
  List.disjoint_of_nodup_append sweep.sources (List.mem_map_of_mem mem)

/-- An answered probe is no longer outstanding. -/
theorem Sweep.freed (sweep : Sweep v probes) {src : Nat}
    (answered : ∃ probe ∈ probes, probe.source = src) :
    Sweep (v.freed src) (probes.eraseP fun probe => probe.source = src) := by
  obtain ⟨probe, mem, own⟩ := answered
  obtain ⟨found, front, back, _, foundOwn, split, erased⟩ :=
    List.exists_of_eraseP (p := fun probe : BMessage => decide (probe.source = src)) mem
      (decide_eq_true own)
  have foundSource : found.source = src := of_decide_eq_true foundOwn
  have shorter : (v.outstanding probes).Perm
      (found :: v.outstanding (probes.eraseP fun probe => probe.source = src)) := by
    rw [View.outstanding, View.outstanding, erased, split, ← List.append_assoc,
      ← List.append_assoc]
    exact List.perm_middle
  have fewer : ∀ other ∈ v.outstanding (probes.eraseP fun probe => probe.source = src),
      other ∈ v.outstanding probes :=
    fun other kept => shorter.mem_iff.mpr (List.mem_cons_of_mem found kept)
  constructor
  · have permuted : ((v.outstanding probes).map BMessage.source ++ v.ids.freeList).Perm
        ((v.outstanding (probes.eraseP fun probe => probe.source = src)).map BMessage.source ++
          (v.ids.freeList ++ [src])) := by
      have moved := (shorter.map BMessage.source).append_right v.ids.freeList
      rw [List.map_cons, foundSource] at moved
      rw [← List.append_assoc]
      exact moved.trans (List.perm_append_singleton src _).symm
    exact permuted.nodup_iff.mp sweep.sources
  · intro fresh
    exact (sweep.before fresh).freed src
  · intro begun
    obtain ⟨none, deferred⟩ := sweep.after begun
    exact ⟨none, deferred.freed src⟩
  · intro retrieval waits
    exact sweep.waiting retrieval (List.mem_of_mem_tail waits)
  · intro other kept
    exact sweep.sent other (fewer other kept)
  · exact sweep.done

theorem Sweep.setPending (sweep : Sweep v probes) (src : Nat) :
    Sweep (v.setPending src none) probes := by
  constructor
  · exact sweep.sources
  · intro fresh
    exact (sweep.before fresh).setPending src
  · intro begun
    obtain ⟨none, deferred⟩ := sweep.after begun
    exact ⟨none, deferred.setPending src⟩
  · exact sweep.waiting
  · intro probe mem callback found
    rw [View.setPending] at found
    dsimp only at found
    split at found
    · cases found
    · exact sweep.sent probe mem callback found
  · exact sweep.done

/-- A callback runs; if it is the sweep's, only the blocks it lists are held. -/
theorem Sweep.calls (sweep : Sweep v probes) {callback : Callback}
    (begun : (∃ rest, callback = .probeBlocksRec rest) → v.retrieved = true)
    (capped : v.retrieved = true → callback.trunkGrant = none)
    (cover : ∀ rest, callback = .probeBlocksRec rest →
      ∀ blockAddr, v.perm blockAddr ≠ tip → blockAddr ∈ rest)
    (called : View.Calls config callback v v') : Sweep v' probes := by
  cases called with
  | answers plainCallback _ entries plain =>
      exact sweep.push fun _ entry mem => quiet_of_plain (plain entry mem)
  | grants burstLen addrAligned param sink size source blockAddr =>
      apply sweep.push
      intro snapshot
      apply quiet_of_capped
      rintro rfl
      have none := capped snapshot
      rw [Callback.trunkGrant, if_pos rfl] at none
      cases none
  | sweeps addr rest retrieved =>
      apply sweep.retrieves _ _ _ retrieved
      · intro fresh
        rw [begun ⟨_, rfl⟩] at fresh
        cases fresh
      · exact fun _ => rfl
      · intro later same
        cases same
        exact ⟨rfl, cover _ rfl⟩
  | stops =>
      constructor
      · exact sweep.sources
      · exact sweep.before
      · exact sweep.after
      · exact sweep.waiting
      · exact sweep.sent
      · refine fun _ => ⟨begun ⟨[], rfl⟩, fun blockAddr => ?_⟩
        by_contra held
        exact absurd (cover [] rfl blockAddr held) List.not_mem_nil

/-- A probe is answered: its callback runs and its source becomes free. -/
theorem Sweep.answers (sweep : Sweep v probes) {src : Nat}
    (answered : ∃ probe ∈ probes, probe.source = src)
    (cover : ∀ rest, v.pending src = some (.probeBlocksRec rest) →
      ∀ blockAddr, v.perm blockAddr ≠ tip → blockAddr ∈ rest)
    (answer : View.Answers config src v v') :
    Sweep v' (probes.eraseP fun probe => probe.source = src) := by
  obtain ⟨called, taken, released⟩ := answer
  have calledSweep : Sweep called probes := by
    cases taken with
    | empty => exact sweep
    | runs found ran =>
        apply (sweep.setPending src).calls _ _ _ ran
        · rintro ⟨rest, rfl⟩
          cases snapshot : v.retrieved with
          | true => exact snapshot
          | false => exact absurd rfl ((sweep.before snapshot).1 src _ found rest)
        · intro begun
          exact (sweep.after begun).2.1 src _ found
        · rintro rest rfl
          exact cover rest found
  cases released with
  | rests => exact calledSweep.freed answered
  | serves known used retrieval waiting next free =>
      have mem := List.mem_of_head? waiting
      apply (calledSweep.freed answered).issue free
      · intro fresh
        exact (calledSweep.before fresh).2 retrieval mem
      · intro begun
        exact (calledSweep.after begun).2.2 retrieval mem
      · exact calledSweep.waiting retrieval mem

/-- Messages leave channel D. -/
theorem Sweep.drain (sweep : Sweep v probes) {dQueue : List DEntry} {dDriving : Option DMessage}
    (fewer : ∀ msg ∈ dDriving.toList ++ dQueue.filterMap Prod.fst, msg ∈ v.inFlight) :
    Sweep { v with dQueue, dDriving } probes := by
  constructor
  · exact sweep.sources
  · exact sweep.before
  · intro begun
    obtain ⟨none, deferred⟩ := sweep.after begun
    exact ⟨fun msg mem => none msg (fewer msg mem), deferred⟩
  · exact sweep.waiting
  · exact sweep.sent
  · exact sweep.done

/-- Before the sweep begins blocks may be given to the core. -/
theorem Sweep.opens (sweep : Sweep v probes) (fresh : v.retrieved = false)
    (driving : v.drive = true) (perm : Nat → Nat) : Sweep { v with perm } probes := by
  have plain := sweep.before fresh
  constructor
  · exact sweep.sources
  · exact sweep.before
  · exact sweep.after
  · exact fun retrieval mem => sweepOk_of_plain (plain.2 retrieval mem)
  · exact fun probe _ callback found => sweepOk_of_plain (plain.1 probe.source callback found)
  · intro stopped
    rw [show v.drive = false from stopped] at driving
    cases driving

variable {core : Core}

theorem Sweep.pops (sweep : Sweep v probes) (ledger : Ledger config v core)
    (driving : v.drive = true) (popped : v.Pops v') : Sweep v' probes := by
  have drained : ∀ msg callback rest, v.dQueue = (some msg, callback) :: rest →
      v.dDriving = none → Sweep { v with dQueue := rest, dDriving := some msg } probes := by
    intro msg callback rest head idle
    apply sweep.drain
    intro other mem
    rw [View.inFlight, head, idle]
    exact mem
  cases popped with
  | waits => exact sweep
  | bubble callback rest head =>
      apply sweep.drain
      intro other mem
      rw [View.inFlight, head]
      exact mem
  | plain msg callback rest head idle => exact drained msg callback rest head idle
  | grant msg blockAddr param rest head idle =>
      split
      · rename_i trunkCap
        subst trunkCap
        rcases Bool.eq_false_or_eq_true v.retrieved with snapshot | fresh
        · have queued := ledger.queued
          rw [head] at queued
          obtain ⟨other, carries, grants, _⟩ := queued.1.change blockAddr rfl
          cases carries
          have mem : msg ∈ v.inFlight := by
            rw [View.inFlight, head]
            exact List.mem_append_right _ List.mem_cons_self
          exact absurd grants ((sweep.after snapshot).1 msg mem)
        · exact (drained msg _ rest head idle).opens fresh driving _
      · exact drained msg _ rest head idle

/-- A beat of channel A; after the list is made none asks for a trunk. -/
theorem Sweep.accepts (sweep : Sweep v probes) {msg : AMessage}
    (allowed : v.retrieved = true → ¬ msg.AcquiresTrunk)
    (accepted : v.Accepts config msg v') : Sweep v' probes := by
  have capped : msg.opcode = .acquireBlock ∨ msg.opcode = .acquirePerm →
      v.retrieved = true → grantParam msg.param ≠ toT :=
    fun opcode begun trunkCap => allowed begun (acquiresTrunk_of_grantParam opcode trunkCap)
  cases accepted with
  | answers entries plain => exact sweep.push fun _ entry mem => quiet_of_plain (plain entry mem)
  | writes value entries aOngoings plain owned opcode =>
      have pushed := sweep.push fun _ entry mem => quiet_of_plain (plain entry mem)
      exact ⟨pushed.sources, pushed.before, pushed.after, pushed.waiting, pushed.sent, pushed.done⟩
  | retrieves retrieval plain retrieved =>
      have ordinary : ∀ rest, retrieval.callback ≠ .probeBlocksRec rest := by
        intro rest sweeps
        rw [sweeps] at plain
        exact plain
      have quiet : retrieval.callback.trunkGrant = none := by
        cases found : retrieval.callback with
        | grant => exact absurd plain (by rw [found]; exact id)
        | grantData => exact absurd plain (by rw [found]; exact id)
        | _ => rfl
      exact sweep.retrieves (fun _ => ordinary) (fun _ => quiet) (sweepOk_of_plain ordinary)
        retrieved
  | grants sink opcode owned =>
      exact sweep.push fun begun => quiet_of_capped (capped (Or.inl opcode) begun)
  | grantsLater sink opcode retrieval callback retrieved =>
      have ordinary : ∀ rest, retrieval.callback ≠ .probeBlocksRec rest := by
        intro rest sweeps
        rw [sweeps] at callback
        cases callback
      apply sweep.retrieves (fun _ => ordinary) _ (sweepOk_of_plain ordinary) retrieved
      intro begun
      rw [callback, grantCallback, Callback.trunkGrant]
      exact if_neg (capped (Or.inl opcode) begun)
  | grantsPerm sink opcode owned =>
      apply sweep.push
      intro begun entry mem
      have trunkless := capped (Or.inr opcode) begun
      rw [List.mem_singleton.mp mem]
      constructor
      · intro blockAddr opens
        have change := Option.some.inj opens
        injection change with _ trunkCap
        exact trunkless trunkCap
      · rintro msg carries ⟨_, trunkCap⟩
        cases carries
        exact trunkless trunkCap

/-- A message with a trunk parameter returns its block. -/
theorem Sweep.returns (sweep : Sweep v probes) (msg : CMessage) :
    Sweep (v.returns config msg) probes := by
  rw [View.returns]
  split
  · apply sweep.shrink
    intro blockAddr held
    split at held
    · exact absurd rfl held
    · exact held
  · exact sweep

/-- An answer to the sweep's probe returns the block the sweep waits for. -/
theorem Sweep.cover (sweep : Sweep v core.probes) (ledger : Ledger config v core) {msg : CMessage}
    (rule : core.MaySend config v msg) (answers : msg.opcode.answersProbe = true)
    {rest : List Nat} (pending : v.pending msg.source = some (.probeBlocksRec rest))
    {blockAddr : Nat} (held : (v.returns config msg).perm blockAddr ≠ tip) : blockAddr ∈ rest := by
  have begun : v.retrieved = true := by
    cases snapshot : v.retrieved with
    | true => rfl
    | false => exact absurd rfl ((sweep.before snapshot).1 msg.source _ pending rest)
  have before : v.perm blockAddr ≠ tip := by
    unfold View.returns at held
    split at held
    · rw [View.setPerm] at held
      dsimp only at held
      split at held
      · exact absurd rfl held
      · exact held
    · exact held
  obtain ⟨probe, mem, own, sameBlock, surrenders⟩ := rule.probe answers
  obtain ⟨everything, cover⟩ := sweep.sent probe (List.mem_append_right _ mem) _
    (own ▸ pending) rest rfl
  rcases List.mem_cons.mp (cover blockAddr before) with probed | listed
  · have block : blockAddr = config.blockAddr msg.address := by
      rw [← sameBlock, ← probed]
      exact (ledger.blocks blockAddr before).symm
    have owned : core.owns (config.blockAddr msg.address) = true := by
      rw [← block]
      rcases ledger.held blockAddr before with owned | ⟨coming, flying, grants, _⟩
      · exact owned
      · exact absurd grants ((sweep.after begun).1 coming flying)
    have gone : (v.returns config msg).perm blockAddr = tip := by
      rw [View.returns, if_pos (Or.inr (surrenders everything owned)), block]
      exact if_pos rfl
    exact absurd gone held
  · exact listed

/-- A beat of channel C. -/
theorem Sweep.receives (sweep : Sweep v core.probes) (ledger : Ledger config v core)
    {msg : CMessage} (rule : core.MaySend config v msg)
    (counted : v.cOngoings.getD msg.source 0 = (beatIndex core.cBurst msg.header).getD 0)
    (received : v.Receives config msg v') : Sweep v' (core.send config msg).probes := by
  have probesOf : (core.send config msg).probes =
      if (msg.opcode.carriesData = true →
          (beatIndex core.cBurst msg.header).getD 0 + 1 = config.burstLen msg.size) ∧
          msg.opcode.answersProbe = true then
        core.probes.eraseP fun probe => probe.source = msg.source
      else core.probes := rfl
  have answered : msg.opcode.answersProbe = true → ∃ probe ∈ core.probes,
      probe.source = msg.source := by
    intro answers
    obtain ⟨probe, mem, own, _⟩ := rule.probe answers
    exact ⟨probe, mem, own⟩
  have stored : Sweep (v.storeBeat config msg) core.probes :=
    ⟨sweep.sources, sweep.before, sweep.after, sweep.waiting, sweep.sent, sweep.done⟩
  have quiet : ∀ entry ∈ [(some (releaseAck msg.size msg.source), (none : Option DCallback))],
      QuietEntry entry :=
    fun entry mem => quiet_of_plain (plain_singleton (by simp) (by simp [releaseAck]) entry mem)
  cases received with
  | reserved opcode =>
      have kind := rule.kind
      rw [opcode] at kind
      simp [COpcode.answersProbe] at kind
  | probeAck opcode answer =>
      have answers : msg.opcode.answersProbe = true := by rw [opcode]; rfl
      have noData : msg.opcode.carriesData = false := by rw [opcode]; rfl
      rw [probesOf, if_pos ⟨by simp [noData], answers⟩]
      apply (sweep.returns msg).answers (answered answers) _ answer
      intro rest pending blockAddr held
      have pendingBefore : v.pending msg.source = some (.probeBlocksRec rest) := by
        unfold View.returns at pending
        split at pending
        · exact pending
        · exact pending
      exact sweep.cover ledger rule answers pendingBefore held
  | release opcode =>
      have noAnswer : msg.opcode.answersProbe = false := by rw [opcode]; rfl
      rw [probesOf, if_neg (by simp [noAnswer])]
      exact (sweep.returns msg).push fun _ => quiet
  | beat opcode more =>
      have data : msg.opcode.carriesData = true := by
        rcases opcode with answer | release
        · rw [answer]
          rfl
        · rw [release]
          rfl
      have unfinished : ¬ ((msg.opcode.carriesData = true →
          (beatIndex core.cBurst msg.header).getD 0 + 1 = config.burstLen msg.size) ∧
            msg.opcode.answersProbe = true) := by
        rintro ⟨last, _⟩
        apply more
        rw [View.LastBeat, lastBeat, counted]
        exact decide_eq_true (last data)
      rw [probesOf, if_neg unfinished]
      exact ⟨stored.sources, stored.before, stored.after, stored.waiting, stored.sent, stored.done⟩
  | probeAckData opcode last answer =>
      have answers : msg.opcode.answersProbe = true := by rw [opcode]; rfl
      have final : (beatIndex core.cBurst msg.header).getD 0 + 1 = config.burstLen msg.size := by
        rw [← counted]
        exact of_decide_eq_true last
      rw [probesOf, if_pos ⟨fun _ => final, answers⟩]
      have done := (stored.returns msg).answers (answered answers) (by
        intro rest pending blockAddr held
        have pendingBefore : v.pending msg.source = some (.probeBlocksRec rest) := by
          unfold View.returns at pending
          split at pending
          · exact pending
          · exact pending
        have heldBefore : (v.returns config msg).perm blockAddr ≠ tip := by
          unfold View.returns at held ⊢
          split
          · rename_i gives
            rw [if_pos gives] at held
            exact held
          · rename_i keeps
            rw [if_neg keeps] at held
            exact held
        exact sweep.cover ledger rule answers pendingBefore heldBefore) answer
      exact ⟨done.sources, done.before, done.after, done.waiting, done.sent, done.done⟩
  | releaseData opcode last =>
      have noAnswer : msg.opcode.answersProbe = false := by rw [opcode]; rfl
      rw [probesOf, if_neg (by simp [noAnswer])]
      have returned : Sweep ((v.storeBeat config msg).returns config msg) core.probes :=
        stored.returns msg
      have released := returned.push fun _ => quiet
      exact ⟨released.sources, released.before, released.after, released.waiting, released.sent,
        released.done⟩

end Sweep

end Difftest.TileLink
