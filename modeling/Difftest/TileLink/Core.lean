import Difftest.TileLink.Burst
import Difftest.TileLink.Grant

/-!
# A protocol-conforming core

The core is known by what it holds: the blocks whose trunk it was granted, the
words it stored to, and the probes it has received.  Its rules say which messages
it may send.  An execution interleaves the adapter's events with the stores of
such a core.
-/

namespace Difftest.TileLink

variable (config : Config)

/-! ## Messages -/

/-- An acquire that asks for the trunk. -/
def AMessage.AcquiresTrunk (msg : AMessage) : Prop :=
  (msg.opcode = .acquireBlock ∨ msg.opcode = .acquirePerm) ∧ msg.param ≠ nToB

instance (msg : AMessage) : Decidable msg.AcquiresTrunk := by
  unfold AMessage.AcquiresTrunk
  infer_instance

/-- A message that gives the trunk up. -/
def CMessage.GivesUp (msg : CMessage) : Prop := msg.param = tToB ∨ msg.param = tToN

instance (msg : CMessage) : Decidable msg.GivesUp := by
  unfold CMessage.GivesUp
  infer_instance

/-- A message with data, hence with one beat for each word. -/
def COpcode.carriesData : COpcode → Bool
  | .probeAckData | .releaseData => true
  | _ => false

/-- A message that answers a probe. -/
def COpcode.answersProbe : COpcode → Bool
  | .probeAck | .probeAckData => true
  | _ => false

/-- A beat of a grant of the trunk. -/
def DMessage.GrantsTrunk (msg : DMessage) : Prop :=
  (msg.opcode = .grant ∨ msg.opcode = .grantData) ∧ msg.param = toT

instance (msg : DMessage) : Decidable msg.GrantsTrunk := by
  unfold DMessage.GrantsTrunk
  infer_instance

/-- The source and the block of a deferred grant of the trunk. -/
def Callback.trunkGrant : Callback → Option (Nat × Nat)
  | .grantData _ _ param _ _ source blockAddr => if param = toT then some (source, blockAddr) else none
  | .grant param _ _ source blockAddr => if param = toT then some (source, blockAddr) else none
  | _ => none

/-! ## The core -/

/-- What the core holds and expects. -/
structure Core where
  /-- The blocks whose trunk it holds. -/
  owns : Nat → Bool
  /-- The block that each source last acquired the trunk of. -/
  acquiring : Nat → Option Nat
  /-- The value it last stored to each word, until an uncached write replaces it. -/
  stored : Nat → Option Nat
  /-- The words it stored to and has not written back. -/
  dirty : Nat → Bool
  /-- The probes it has received and not answered. -/
  probes : List BMessage
  /-- The channel C burst in progress and its accepted beats. -/
  cBurst : Option (CMessage × Nat)

/-- A core that holds nothing. -/
def Core.new : Core where
  owns := fun _ => false
  acquiring := fun _ => none
  stored := fun _ => none
  dirty := fun _ => false
  probes := []
  cBurst := none

/-- The channel D messages on their way: the one driven and those queued. -/
def View.inFlight (v : View) : List DMessage := v.dDriving.toList ++ v.dQueue.filterMap Prod.fst

/-- A trunk grant of the block is on its way. -/
def Core.Coming (core : Core) (v : View) (blockAddr : Nat) : Prop :=
  ∃ msg ∈ v.inFlight, msg.GrantsTrunk ∧ core.acquiring msg.source = some blockAddr

/-- No trunk grant for the source is on its way or deferred. -/
def View.SourceFree (v : View) (source : Nat) : Prop :=
  (∀ msg ∈ v.inFlight, msg.GrantsTrunk → msg.source ≠ source) ∧
    v.Deferred fun callback => ∀ blockAddr, callback.trunkGrant ≠ some (source, blockAddr)

/-! ## The rules of the protocol -/

/-- When the core may send a beat on channel C. -/
structure Core.MaySend (core : Core) (v : View) (msg : CMessage) : Prop where
  /-- The core sends its own kinds of messages. -/
  kind : msg.opcode.answersProbe ∨ msg.opcode = .release ∨ msg.opcode = .releaseData
  /-- Bursts are not interleaved. -/
  inOrder : (beatIndex core.cBurst msg.header).isSome
  /-- It gives up only a trunk that it holds and that no grant is pending for. -/
  gives : msg.GivesUp →
    core.owns (config.blockAddr msg.address) = true ∧
      ¬ core.Coming v (config.blockAddr msg.address)
  /-- Data is sent for whole blocks it holds, and carries its stores. -/
  data : msg.opcode.carriesData →
    core.owns (config.blockAddr msg.address) = true ∧ 2 ^ msg.size = config.blockSize ∧
      config.IsBlock msg.address ∧ ∀ index value, beatIndex core.cBurst msg.header = some index →
        core.stored (msg.address + index * config.dataBytes) = some value → msg.data = value
  /-- A dirty block is not given up without data. -/
  clean : msg.opcode.carriesData = false → msg.GivesUp →
    ∀ addr, config.blockAddr addr = config.blockAddr msg.address → core.dirty addr = false
  /-- Probes that were received are answered; one that asks for everything takes
  the trunk. -/
  probe : msg.opcode.answersProbe → ∃ probe ∈ core.probes, probe.source = msg.source ∧
    config.blockAddr probe.address = config.blockAddr msg.address ∧
      (probe.param = toN → core.owns (config.blockAddr msg.address) = true → msg.param = tToN)

/-- What happens in the system: an event of the adapter or a store of the core. -/
inductive SystemEvent where
  | adapter (event : Event)
  | store (addr value : Nat)

/-- The rules for each event. -/
def Core.Obeys (core : Core) (v : View) : SystemEvent → Prop
  | .adapter (.aFire msg) =>
      msg.AcquiresTrunk →
        core.owns (config.blockAddr msg.address) = false ∧ v.SourceFree msg.source
  | .adapter (.cFire msg) => core.MaySend config v msg
  | .store addr _ =>
      config.dataBytes ∣ addr ∧ core.owns (config.blockAddr addr) = true ∧
        ∀ header count, core.cBurst = some (header, count) →
          config.blockAddr header.address ≠ config.blockAddr addr
  | _ => True

/-! ## The core after an event -/

/-- The core after it sent a beat on channel C. -/
def Core.send (msg : CMessage) (core : Core) : Core :=
  let index := (beatIndex core.cBurst msg.header).getD 0
  let burstLen := config.burstLen msg.size
  let last := msg.opcode.carriesData → index + 1 = burstLen
  { core with
    dirty := if msg.opcode.carriesData then
        fun other =>
          if other = msg.address + index * config.dataBytes then false else core.dirty other
      else core.dirty
    cBurst := if msg.opcode.carriesData then burstAfter msg.header burstLen index else core.cBurst
    owns := if last ∧ msg.GivesUp then
        fun other => if other = config.blockAddr msg.address then false else core.owns other
      else core.owns
    probes := if last ∧ msg.opcode.answersProbe then
        core.probes.eraseP fun probe => probe.source = msg.source
      else core.probes }

/-- The core after it received a beat on channel D. -/
def Core.receive (msg : DMessage) (core : Core) : Core :=
  match core.acquiring msg.source with
  | some blockAddr =>
      if msg.GrantsTrunk then
        { core with owns := fun other => if other = blockAddr then true else core.owns other }
      else core
  | none => core

/-- The core after its request was accepted on channel A. -/
def Core.request (msg : AMessage) (before after : View) (core : Core) : Core :=
  { core with
    acquiring := if msg.AcquiresTrunk then
        fun other =>
          if other = msg.source then some (config.blockAddr msg.address) else core.acquiring other
      else core.acquiring
    stored := fun addr => if after.word addr = before.word addr then core.stored addr else none }

/-- The core after an event of the adapter. -/
def Core.next (event : Event) (before after : View) (core : Core) : Core :=
  match event with
  | .aFire msg => core.request config msg before after
  | .cFire msg => core.send config msg
  | .dFire =>
      match before.dDriving with
      | some msg => core.receive msg
      | none => core
  | .bFire => { core with probes := core.probes ++ before.bDriving.toList }
  | _ => core

/-- The core after a store. -/
def Core.store (addr value : Nat) (core : Core) : Core :=
  { core with
    stored := fun other => if other = addr then some value else core.stored other
    dirty := fun other => if other = addr then true else core.dirty other }

/-! ## Executions -/

/-- An execution in which the core obeys the rules and every event meets the
condition. -/
inductive Execution (condition : View → SystemEvent → Prop) :
    State → Core → List SystemEvent → State → Core → Prop
  | nil (s : State) (core : Core) : Execution condition s core [] s core
  | adapter {s next last : State} {core final : Core} {event : Event}
      {events : List SystemEvent} (obeys : core.Obeys config s.view (.adapter event))
      (allowed : condition s.view (.adapter event)) (stepped : step config s event = some next)
      (rest : Execution condition next (core.next config event s.view next.view) events last final) :
      Execution condition s core (.adapter event :: events) last final
  | store {s last : State} {core final : Core} {addr value : Nat} {events : List SystemEvent}
      (obeys : core.Obeys config s.view (.store addr value))
      (allowed : condition s.view (.store addr value))
      (rest : Execution condition s (core.store addr value) events last final) :
      Execution condition s core (.store addr value :: events) last final

/-- Entries that neither grant a trunk nor open a block. -/
def QuietEntry (entry : DEntry) : Prop :=
  (∀ blockAddr, entry.2 ≠ some (.updatePerm blockAddr toT)) ∧
    ∀ msg, entry.1 = some msg → ¬ msg.GrantsTrunk

theorem quiet_of_plain {entry : DEntry} (plain : PlainEntry entry) : QuietEntry entry := by
  constructor
  · intro blockAddr
    exact plain.1 blockAddr toT
  · rintro msg carries ⟨grant | data, _⟩
    · exact (plain.2 msg carries).1 grant
    · exact (plain.2 msg carries).2 data

/-- A grant with another cap does not grant a trunk. -/
theorem quiet_of_capped {config : Config} {burstLen base param sink size source blockAddr : Nat}
    {word : Nat → Nat} (capped : param ≠ toT) :
    ∀ entry ∈ grantEntries config burstLen base param sink size source blockAddr word,
      QuietEntry entry := by
  intro entry mem
  obtain ⟨⟨data, carries⟩, callback⟩ := of_mem_wordEntries mem
  constructor
  · intro other opens
    rcases callback with change | none
    · rw [change] at opens
      cases opens
      exact capped rfl
    · rw [none] at opens
      cases opens
  · rintro msg found ⟨_, trunkCap⟩
    rw [carries] at found
    cases found
    exact capped trunkCap

/-- No trunk grant is on its way or deferred. -/
def View.NoTrunkGrant (v : View) : Prop :=
  (∀ msg ∈ v.inFlight, ¬ msg.GrantsTrunk) ∧ v.Deferred fun callback => callback.trunkGrant = none

/-- No trunk grant is pending when the retriever lists the blocks to probe, and
none is asked for afterwards. -/
def SnapshotSafe (v : View) : SystemEvent → Prop
  | .adapter .retriever => v.retrieve = true → v.retrieved = false → v.NoTrunkGrant
  | .adapter (.aFire msg) => v.retrieved = true → ¬ msg.AcquiresTrunk
  | _ => True

end Difftest.TileLink
