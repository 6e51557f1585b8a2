import Difftest.TileLink.Core

/-!
# Who holds which block

The permission table follows the core: a block that is not the adapter's belongs
to the core or is about to, and the core's blocks are never the adapter's.  The
invariant is carried through the moves of the adapter one field of the state at
a time.
-/

namespace Difftest.TileLink

variable {config : Config}

/-! ## Queued grants -/

/-- A permission change comes with its trunk grant, and a trunk grant is for a
block that is open already or that this entry opens. -/
structure EntryOk (acquiring : Nat → Option Nat) (opened : Nat → Prop) (entry : DEntry) : Prop where
  change : ∀ blockAddr, entry.2 = some (.updatePerm blockAddr toT) →
    ∃ msg, entry.1 = some msg ∧ msg.GrantsTrunk ∧ acquiring msg.source = some blockAddr
  grant : ∀ msg, entry.1 = some msg → msg.GrantsTrunk →
    ∃ blockAddr, acquiring msg.source = some blockAddr ∧
      (opened blockAddr ∨ entry.2 = some (.updatePerm blockAddr toT))

/-- The blocks that are open once the entry is popped. -/
def openedBy (opened : Nat → Prop) (entry : DEntry) (blockAddr : Nat) : Prop :=
  opened blockAddr ∨ entry.2 = some (.updatePerm blockAddr toT)

/-- Every entry is in order when the entries before it have been popped. -/
def QueueOk (acquiring : Nat → Option Nat) : (Nat → Prop) → List DEntry → Prop
  | _, [] => True
  | opened, entry :: rest =>
      EntryOk acquiring opened entry ∧ QueueOk acquiring (openedBy opened entry) rest

section Queue

variable {acquiring : Nat → Option Nat} {opened opened' : Nat → Prop} {queue entries : List DEntry}

/-- The block of every queued trunk grant is known. -/
theorem QueueOk.known (ok : QueueOk acquiring opened queue) {msg : DMessage}
    (mem : msg ∈ queue.filterMap Prod.fst) (grants : msg.GrantsTrunk) :
    ∃ blockAddr, acquiring msg.source = some blockAddr := by
  induction queue generalizing opened with
  | nil => cases mem
  | cons entry rest ih =>
      rcases ok with ⟨first, later⟩
      obtain ⟨other, otherMem, carries⟩ := List.mem_filterMap.mp mem
      rcases List.mem_cons.mp otherMem with rfl | inRest
      · obtain ⟨blockAddr, found, _⟩ := first.grant msg carries grants
        exact ⟨blockAddr, found⟩
      · exact ih later (List.mem_filterMap.mpr ⟨other, inRest, carries⟩)

/-- Only the blocks of queued trunk grants have to stay open. -/
theorem QueueOk.reopen (ok : QueueOk acquiring opened queue)
    (keeps : ∀ msg ∈ queue.filterMap Prod.fst, msg.GrantsTrunk → ∀ blockAddr,
      acquiring msg.source = some blockAddr → opened blockAddr → opened' blockAddr) :
    QueueOk acquiring opened' queue := by
  induction queue generalizing opened opened' with
  | nil => trivial
  | cons entry rest ih =>
      rcases ok with ⟨first, later⟩
      constructor
      · constructor
        · exact first.change
        · intro msg carries grants
          obtain ⟨blockAddr, found, isOpen | opens⟩ := first.grant msg carries grants
          · have mem : msg ∈ (entry :: rest).filterMap Prod.fst :=
              List.mem_filterMap.mpr ⟨entry, List.mem_cons_self, carries⟩
            exact ⟨blockAddr, found, Or.inl (keeps msg mem grants blockAddr found isOpen)⟩
          · exact ⟨blockAddr, found, Or.inr opens⟩
      · apply ih later
        intro msg mem grants blockAddr found
        rintro (isOpen | opens)
        · obtain ⟨other, inRest, carries⟩ := List.mem_filterMap.mp mem
          have whole : msg ∈ (entry :: rest).filterMap Prod.fst :=
            List.mem_filterMap.mpr ⟨other, List.mem_cons_of_mem entry inRest, carries⟩
          exact Or.inl (keeps msg whole grants blockAddr found isOpen)
        · exact Or.inr opens

theorem QueueOk.append (ok : QueueOk acquiring opened queue)
    (added : QueueOk acquiring opened entries) : QueueOk acquiring opened (queue ++ entries) := by
  induction queue generalizing opened with
  | nil => exact added
  | cons entry rest ih =>
      rcases ok with ⟨first, later⟩
      refine ⟨first, ih later ?_⟩
      apply added.reopen
      intro msg _ _ blockAddr _ isOpen
      exact Or.inl isOpen

/-- Only the acquires of queued trunk grants matter. -/
theorem QueueOk.reacquire (ok : QueueOk acquiring opened queue) {acquiring' : Nat → Option Nat}
    (same : ∀ msg ∈ queue.filterMap Prod.fst, msg.GrantsTrunk →
      acquiring' msg.source = acquiring msg.source) : QueueOk acquiring' opened queue := by
  induction queue generalizing opened with
  | nil => trivial
  | cons entry rest ih =>
      rcases ok with ⟨first, later⟩
      have here : ∀ msg, entry.1 = some msg → msg.GrantsTrunk →
          acquiring' msg.source = acquiring msg.source := by
        intro msg carries
        exact same msg (List.mem_filterMap.mpr ⟨entry, List.mem_cons_self, carries⟩)
      constructor
      · constructor
        · intro blockAddr opens
          obtain ⟨msg, carries, grants, found⟩ := first.change blockAddr opens
          exact ⟨msg, carries, grants, (here msg carries grants).trans found⟩
        · intro msg carries grants
          obtain ⟨blockAddr, found, isOpen⟩ := first.grant msg carries grants
          exact ⟨blockAddr, (here msg carries grants).trans found, isOpen⟩
      · apply ih later
        intro msg mem
        obtain ⟨other, inRest, carries⟩ := List.mem_filterMap.mp mem
        exact same msg (List.mem_filterMap.mpr ⟨other, List.mem_cons_of_mem entry inRest, carries⟩)

theorem queueOk_of_quiet (quiet : ∀ entry ∈ entries, QuietEntry entry) :
    QueueOk acquiring opened entries := by
  induction entries generalizing opened with
  | nil => trivial
  | cons entry rest ih =>
      have first := quiet entry List.mem_cons_self
      refine ⟨⟨?_, ?_⟩, ih fun other mem => quiet other (List.mem_cons_of_mem entry mem)⟩
      · intro blockAddr opens
        exact absurd opens (first.1 blockAddr)
      · intro msg carries grants
        exact absurd grants (first.2 msg carries)

/-- Beats without a permission change, all of one open block. -/
theorem queueOk_of_open {blockAddr : Nat} (isOpen : opened blockAddr)
    (beats : ∀ entry ∈ entries, entry.2 = none ∧
      ∀ msg, entry.1 = some msg → msg.GrantsTrunk → acquiring msg.source = some blockAddr) :
    QueueOk acquiring opened entries := by
  induction entries generalizing opened with
  | nil => trivial
  | cons entry rest ih =>
      obtain ⟨keeps, known⟩ := beats entry List.mem_cons_self
      refine ⟨⟨?_, ?_⟩, ih (Or.inl isOpen) fun other mem =>
        beats other (List.mem_cons_of_mem entry mem)⟩
      · intro other opens
        rw [keeps] at opens
        cases opens
      · intro msg carries grants
        exact ⟨blockAddr, known msg carries grants, Or.inl isOpen⟩

/-- A whole trunk grant opens its block with its first beat. -/
theorem queueOk_grantEntries {burstLen base param sink size source blockAddr : Nat}
    {word : Nat → Nat} (known : param = toT → acquiring source = some blockAddr) :
    QueueOk acquiring opened
      (grantEntries config burstLen base param sink size source blockAddr word) := by
  by_cases trunkCap : param = toT
  · subst trunkCap
    rw [grantEntries, wordEntries_eq_map]
    cases burstLen with
    | zero => trivial
    | succ beats =>
        rw [List.range_succ_eq_map, List.map_cons, List.map_map]
        constructor
        · constructor
          · intro other opens
            rw [if_pos rfl] at opens
            cases opens
            exact ⟨_, rfl, ⟨Or.inr rfl, rfl⟩, known rfl⟩
          · rintro msg carries _
            cases carries
            exact ⟨blockAddr, known rfl, Or.inr rfl⟩
        · have isOpen : openedBy opened (some (grantData toT size source sink (word base)),
              some (.updatePerm blockAddr toT)) blockAddr := Or.inr rfl
          simp only [Nat.zero_mul, Nat.add_zero, if_true]
          apply queueOk_of_open isOpen
          intro entry mem
          obtain ⟨i, _, rfl⟩ := List.mem_map.mp mem
          constructor
          · rfl
          · rintro msg carries _
            cases carries
            exact known rfl
  · exact queueOk_of_quiet (quiet_of_capped trunkCap)

/-- A trunk grant without data opens its block. -/
theorem queueOk_grant {param sink size source blockAddr : Nat}
    (known : param = toT → acquiring source = some blockAddr) :
    QueueOk acquiring opened
      [(some (grant param size source sink), some (.updatePerm blockAddr param))] := by
  refine ⟨⟨?_, ?_⟩, trivial⟩
  · intro other opens
    cases opens
    exact ⟨_, rfl, ⟨Or.inl rfl, rfl⟩, known rfl⟩
  · intro msg carries grants
    cases carries
    have trunkCap : param = toT := grants.2
    subst trunkCap
    exact ⟨blockAddr, known rfl, Or.inr rfl⟩

end Queue

/-! ## The ledger -/

/-- The permission table, the grants on their way and the core agree. -/
structure Ledger (config : Config) (v : View) (core : Core) : Prop where
  /-- A block that is not the adapter's is the core's, or is about to be. -/
  held : ∀ blockAddr, v.perm blockAddr ≠ tip →
    core.owns blockAddr = true ∨ core.Coming v blockAddr
  /-- A block of the core is not the adapter's. -/
  owned : ∀ blockAddr, core.owns blockAddr = true → v.perm blockAddr ≠ tip
  queued : QueueOk core.acquiring (fun blockAddr => v.perm blockAddr ≠ tip) v.dQueue
  driven : ∀ msg, v.dDriving = some msg → msg.GrantsTrunk →
    ∃ blockAddr, core.acquiring msg.source = some blockAddr ∧ v.perm blockAddr ≠ tip
  deferred : v.Deferred fun callback => ∀ source blockAddr,
    callback.trunkGrant = some (source, blockAddr) → core.acquiring source = some blockAddr
  acquired : ∀ source blockAddr, core.acquiring source = some blockAddr →
    config.blockAddr blockAddr = blockAddr
  blocks : ∀ blockAddr, v.perm blockAddr ≠ tip → config.blockAddr blockAddr = blockAddr

section Ledger

variable {v v' : View} {core : Core}

theorem Ledger.push (ledger : Ledger config v core) {entries : List DEntry}
    (added : QueueOk core.acquiring (fun blockAddr => v.perm blockAddr ≠ tip) entries) :
    Ledger config (v.push entries) core := by
  constructor
  · intro blockAddr held
    rcases ledger.held blockAddr held with owned | ⟨msg, mem, grants, known⟩
    · exact Or.inl owned
    · refine Or.inr ⟨msg, ?_, grants, known⟩
      rw [View.inFlight, View.push, List.filterMap_append, ← List.append_assoc]
      exact List.mem_append_left _ mem
  · exact ledger.owned
  · exact ledger.queued.append added
  · exact ledger.driven
  · exact ledger.deferred
  · exact ledger.acquired
  · exact ledger.blocks

theorem Ledger.retrieves (ledger : Ledger config v core) {retrieval : Retrieval}
    (known : ∀ source blockAddr, retrieval.callback.trunkGrant = some (source, blockAddr) →
      core.acquiring source = some blockAddr)
    (retrieved : v.Retrieves retrieval v') : Ledger config v' core := by
  have deferred := ledger.deferred.retrieves known retrieved
  cases retrieved with
  | waits =>
      exact ⟨ledger.held, ledger.owned, ledger.queued, ledger.driven, deferred, ledger.acquired,
        ledger.blocks⟩
  | sends =>
      exact ⟨ledger.held, ledger.owned, ledger.queued, ledger.driven, deferred, ledger.acquired,
        ledger.blocks⟩

/-- The core acquires a trunk under a source that is free. -/
theorem Ledger.acquire (ledger : Ledger config v core) {source block : Nat}
    (free : v.SourceFree source) (isBlock : config.blockAddr block = block) :
    Ledger config v
      { core with
        acquiring := fun other => if other = source then some block else core.acquiring other } := by
  have same : ∀ msg ∈ v.inFlight, msg.GrantsTrunk →
      (if msg.source = source then some block else core.acquiring msg.source) =
        core.acquiring msg.source :=
    fun msg mem grants => if_neg (free.1 msg mem grants)
  constructor
  · intro blockAddr held
    rcases ledger.held blockAddr held with owned | ⟨msg, mem, grants, known⟩
    · exact Or.inl owned
    · exact Or.inr ⟨msg, mem, grants, (same msg mem grants).trans known⟩
  · exact ledger.owned
  · apply ledger.queued.reacquire
    intro msg mem grants
    exact same msg (List.mem_append_right _ mem) grants
  · intro msg driving grants
    have mem : msg ∈ v.inFlight := by
      rw [View.inFlight, driving]
      exact List.mem_append_left _ List.mem_cons_self
    obtain ⟨blockAddr, known, isOpen⟩ := ledger.driven msg driving grants
    exact ⟨blockAddr, (same msg mem grants).trans known, isOpen⟩
  · constructor
    · intro src callback found other blockAddr grants
      have apart : other ≠ source := by
        rintro rfl
        exact free.2.1 src callback found blockAddr grants
      exact (if_neg apart).trans (ledger.deferred.1 src callback found other blockAddr grants)
    · intro retrieval mem other blockAddr grants
      have apart : other ≠ source := by
        rintro rfl
        exact free.2.2 retrieval mem blockAddr grants
      exact (if_neg apart).trans (ledger.deferred.2 retrieval mem other blockAddr grants)
  · intro other blockAddr known
    dsimp only at known
    split at known
    · cases known
      exact isBlock
    · exact ledger.acquired other blockAddr known
  · exact ledger.blocks

/-- The core gives a trunk up that no grant is pending for. -/
theorem Ledger.giveUp (ledger : Ledger config v core) {block : Nat} (quiet : ¬ core.Coming v block) :
    Ledger config (v.setPerm block tip)
      { core with owns := fun other => if other = block then false else core.owns other } := by
  have apart : ∀ blockAddr, (v.setPerm block tip).perm blockAddr ≠ tip →
      blockAddr ≠ block ∧ v.perm blockAddr ≠ tip := by
    intro blockAddr held
    rw [View.setPerm] at held
    dsimp only at held
    split at held
    · exact absurd rfl held
    · rename_i other
      exact ⟨other, held⟩
  have kept : ∀ blockAddr, blockAddr ≠ block → v.perm blockAddr ≠ tip →
      (v.setPerm block tip).perm blockAddr ≠ tip := by
    intro blockAddr other held
    rw [View.setPerm]
    dsimp only
    rw [if_neg other]
    exact held
  have away : ∀ msg ∈ v.inFlight, msg.GrantsTrunk → ∀ blockAddr,
      core.acquiring msg.source = some blockAddr → blockAddr ≠ block := by
    rintro msg mem grants _ known rfl
    exact quiet ⟨msg, mem, grants, known⟩
  constructor
  · intro blockAddr held
    obtain ⟨other, before⟩ := apart blockAddr held
    rcases ledger.held blockAddr before with owned | coming
    · left
      dsimp only
      rw [if_neg other]
      exact owned
    · exact Or.inr coming
  · intro blockAddr owned
    dsimp only at owned
    split at owned
    · cases owned
    · rename_i other
      exact kept blockAddr other (ledger.owned blockAddr owned)
  · apply ledger.queued.reopen
    intro msg mem grants blockAddr known isOpen
    have other := away msg (List.mem_append_right _ mem) grants blockAddr known
    exact kept blockAddr other isOpen
  · intro msg driving grants
    have mem : msg ∈ v.inFlight := by
      rw [View.inFlight, show v.dDriving = some msg from driving]
      exact List.mem_append_left _ List.mem_cons_self
    obtain ⟨blockAddr, known, isOpen⟩ := ledger.driven msg driving grants
    exact ⟨blockAddr, known, kept blockAddr (away msg mem grants blockAddr known) isOpen⟩
  · exact ledger.deferred
  · exact ledger.acquired
  · intro blockAddr held
    exact ledger.blocks blockAddr (apart blockAddr held).2

/-- The driver pops a message, which opens the block of its callback. -/
theorem Ledger.drives (ledger : Ledger config v core) {msg : DMessage}
    {callback : Option DCallback} {rest : List DEntry}
    (head : v.dQueue = (some msg, callback) :: rest) (idle : v.dDriving = none)
    {perm : Nat → Nat} (opens : ∀ blockAddr, perm blockAddr ≠ tip ↔
      openedBy (fun blockAddr => v.perm blockAddr ≠ tip) (some msg, callback) blockAddr) :
    Ledger config { v with dQueue := rest, dDriving := some msg, perm } core := by
  have queued := ledger.queued
  rw [head] at queued
  rcases queued with ⟨first, later⟩
  have same : View.inFlight { v with dQueue := rest, dDriving := some msg, perm } = v.inFlight := by
    rw [View.inFlight, View.inFlight, head, idle]
    rfl
  have changed : ∀ blockAddr, callback = some (.updatePerm blockAddr toT) →
      msg.GrantsTrunk ∧ core.acquiring msg.source = some blockAddr := by
    intro blockAddr change
    obtain ⟨other, carries, grants, known⟩ := first.change blockAddr change
    cases carries
    exact ⟨grants, known⟩
  have coming : ∀ blockAddr, core.Coming v blockAddr →
      core.Coming { v with dQueue := rest, dDriving := some msg, perm } blockAddr := by
    rintro blockAddr ⟨other, mem, grants, known⟩
    exact ⟨other, same ▸ mem, grants, known⟩
  constructor
  · intro blockAddr held
    rcases (opens blockAddr).mp held with before | change
    · rcases ledger.held blockAddr before with owned | comes
      · exact Or.inl owned
      · exact Or.inr (coming blockAddr comes)
    · obtain ⟨grants, known⟩ := changed blockAddr change
      exact Or.inr ⟨msg, List.mem_append_left _ List.mem_cons_self, grants, known⟩
  · intro blockAddr owned
    exact (opens blockAddr).mpr (Or.inl (ledger.owned blockAddr owned))
  · apply later.reopen
    intro _ _ _ blockAddr _ isOpen
    exact (opens blockAddr).mpr isOpen
  · intro other driving grants
    cases driving
    obtain ⟨blockAddr, known, isOpen⟩ := first.grant msg rfl grants
    exact ⟨blockAddr, known, (opens blockAddr).mpr isOpen⟩
  · exact ledger.deferred
  · exact ledger.acquired
  · intro blockAddr held
    rcases (opens blockAddr).mp held with before | change
    · exact ledger.blocks blockAddr before
    · exact ledger.acquired msg.source blockAddr (changed blockAddr change).2

theorem Ledger.pops (ledger : Ledger config v core) (popped : v.Pops v') :
    Ledger config v' core := by
  cases popped with
  | waits => exact ledger
  | bubble callback rest head =>
      have queued := ledger.queued
      rw [head] at queued
      rcases queued with ⟨first, later⟩
      have same : View.inFlight { v with dQueue := rest } = v.inFlight := by
        rw [View.inFlight, View.inFlight, head]
        rfl
      constructor
      · intro blockAddr held
        rcases ledger.held blockAddr held with owned | ⟨msg, mem, grants, known⟩
        · exact Or.inl owned
        · exact Or.inr ⟨msg, same ▸ mem, grants, known⟩
      · exact ledger.owned
      · apply later.reopen
        rintro _ _ _ blockAddr _ (isOpen | change)
        · exact isOpen
        · obtain ⟨msg, carries, _⟩ := first.change blockAddr change
          cases carries
      · exact ledger.driven
      · exact ledger.deferred
      · exact ledger.acquired
      · exact ledger.blocks
  | plain msg callback rest head idle keeps =>
      apply ledger.drives head idle
      intro blockAddr
      constructor
      · exact Or.inl
      · rintro (isOpen | change)
        · exact isOpen
        · exact absurd change (keeps blockAddr toT)
  | grant msg blockAddr param rest head idle =>
      split
      · rename_i trunkCap
        subst trunkCap
        apply ledger.drives head idle
        intro other
        dsimp only
        split
        · rename_i same
          subst same
          constructor
          · exact fun _ => Or.inr rfl
          · exact fun _ => by decide
        · rename_i apart
          constructor
          · exact Or.inl
          · rintro (isOpen | change)
            · exact isOpen
            · cases change
              exact absurd rfl apart
      · rename_i capped
        apply ledger.drives head idle
        intro other
        constructor
        · exact Or.inl
        · rintro (isOpen | change)
          · exact isOpen
          · cases change
            exact absurd rfl capped

theorem receive_of_not_grants {msg : DMessage} (other : ¬ msg.GrantsTrunk) :
    core.receive msg = core := by
  unfold Core.receive
  split
  · exact if_neg other
  · rfl

/-- The core receives the beat that is driven. -/
theorem Ledger.receive (ledger : Ledger config v core) {msg : DMessage}
    (driving : v.dDriving = some msg) :
    Ledger config { v with dDriving := none } (core.receive msg) := by
  have flight : v.inFlight = msg :: View.inFlight { v with dDriving := none } := by
    rw [View.inFlight, View.inFlight, driving]
    rfl
  by_cases grants : msg.GrantsTrunk
  · obtain ⟨block, known, isOpen⟩ := ledger.driven msg driving grants
    have received : core.receive msg =
        { core with owns := fun other => if other = block then true else core.owns other } := by
      unfold Core.receive
      rw [known]
      exact if_pos grants
    rw [received]
    constructor
    · intro blockAddr held
      by_cases same : blockAddr = block
      · exact Or.inl (if_pos same)
      · rcases ledger.held blockAddr held with owned | ⟨other, mem, otherGrants, otherKnown⟩
        · exact Or.inl ((if_neg same).trans owned)
        · rw [flight] at mem
          rcases List.mem_cons.mp mem with rfl | later
          · rw [known] at otherKnown
            cases otherKnown
            exact absurd rfl same
          · exact Or.inr ⟨other, later, otherGrants, otherKnown⟩
    · intro blockAddr owned
      dsimp only at owned
      split at owned
      · rename_i same
        rw [same]
        exact isOpen
      · exact ledger.owned blockAddr owned
    · exact ledger.queued
    · intro other driven
      cases driven
    · exact ledger.deferred
    · exact ledger.acquired
    · exact ledger.blocks
  · rw [receive_of_not_grants grants]
    constructor
    · intro blockAddr held
      rcases ledger.held blockAddr held with owned | ⟨other, mem, otherGrants, otherKnown⟩
      · exact Or.inl owned
      · rw [flight] at mem
        rcases List.mem_cons.mp mem with rfl | later
        · exact absurd otherGrants grants
        · exact Or.inr ⟨other, later, otherGrants, otherKnown⟩
    · exact ledger.owned
    · exact ledger.queued
    · intro other driven
      cases driven
    · exact ledger.deferred
    · exact ledger.acquired
    · exact ledger.blocks

theorem Ledger.calls (ledger : Ledger config v core) {callback : Callback}
    (known : ∀ source blockAddr, callback.trunkGrant = some (source, blockAddr) →
      core.acquiring source = some blockAddr)
    (called : View.Calls config callback v v') : Ledger config v' core := by
  cases called with
  | answers plainCallback _ entries plain =>
      exact ledger.push (queueOk_of_quiet fun entry mem => quiet_of_plain (plain entry mem))
  | grants burstLen addrAligned param sink size source blockAddr =>
      apply ledger.push
      apply queueOk_grantEntries
      intro trunkCap
      exact known source blockAddr (if_pos trunkCap)
  | sweeps addr rest retrieved =>
      apply ledger.retrieves _ retrieved
      intro source blockAddr grants
      cases grants
  | stops =>
      exact ⟨ledger.held, ledger.owned, ledger.queued, ledger.driven, ledger.deferred,
        ledger.acquired, ledger.blocks⟩

theorem Ledger.answers (ledger : Ledger config v core) {src : Nat}
    (answered : View.Answers config src v v') : Ledger config v' core := by
  obtain ⟨called, taken, released⟩ := answered
  have calledLedger : Ledger config called core := by
    cases taken with
    | empty => exact ledger
    | runs found ran =>
        have remaining : Ledger config (v.setPending src none) core :=
          ⟨ledger.held, ledger.owned, ledger.queued, ledger.driven, ledger.deferred.setPending src,
            ledger.acquired, ledger.blocks⟩
        exact remaining.calls (ledger.deferred.1 src _ found) ran
  have deferred := calledLedger.deferred.releases released
  cases released with
  | rests =>
      exact ⟨calledLedger.held, calledLedger.owned, calledLedger.queued, calledLedger.driven,
        deferred, calledLedger.acquired, calledLedger.blocks⟩
  | serves =>
      exact ⟨calledLedger.held, calledLedger.owned, calledLedger.queued, calledLedger.driven,
        deferred, calledLedger.acquired, calledLedger.blocks⟩

theorem blockAddr_blockAddr (addr : Nat) :
    config.blockAddr (config.blockAddr addr) = config.blockAddr addr := by
  apply Nat.eq_of_testBit_eq
  intro i
  simp only [Config.blockAddr, Nat.testBit_ldiff]
  cases addr.testBit i <;> cases (config.blockSize - 1).testBit i <;> rfl

theorem acquiresTrunk_of_grantParam {msg : AMessage}
    (opcode : msg.opcode = .acquireBlock ∨ msg.opcode = .acquirePerm)
    (trunkCap : grantParam msg.param = toT) : msg.AcquiresTrunk := by
  refine ⟨opcode, ?_⟩
  intro branchOnly
  rw [grantParam, if_pos branchOnly] at trunkCap
  cases trunkCap

theorem Ledger.congr {after : Core} (ledger : Ledger config v core)
    (owns : after.owns = core.owns) (acquiring : after.acquiring = core.acquiring) :
    Ledger config v after := by
  constructor
  · intro blockAddr held
    rcases ledger.held blockAddr held with owned | ⟨msg, mem, grants, known⟩
    · exact Or.inl (owns ▸ owned)
    · exact Or.inr ⟨msg, mem, grants, acquiring ▸ known⟩
  · exact owns ▸ ledger.owned
  · exact acquiring ▸ ledger.queued
  · exact acquiring ▸ ledger.driven
  · exact acquiring ▸ ledger.deferred
  · exact acquiring ▸ ledger.acquired
  · exact ledger.blocks

/-- A beat of channel A keeps the ledger, with the acquire it may be. -/
theorem Ledger.accepts (ledger : Ledger config v core) {msg : AMessage}
    (rule : core.Obeys config v (.adapter (.aFire msg))) (accepted : v.Accepts config msg v') :
    Ledger config v' (core.request config msg v v') := by
  have acquired : Ledger config v (core.request config msg v v') := by
    by_cases asks : msg.AcquiresTrunk
    · have asked := ledger.acquire (rule asks).2 (blockAddr_blockAddr msg.address)
      exact asked.congr rfl (if_pos asks)
    · exact ledger.congr rfl (if_neg asks)
  have known : msg.opcode = .acquireBlock ∨ msg.opcode = .acquirePerm →
      grantParam msg.param = toT →
        (core.request config msg v v').acquiring msg.source =
          some (config.blockAddr msg.address) := by
    intro opcode trunkCap
    rw [Core.request]
    dsimp only
    rw [if_pos (acquiresTrunk_of_grantParam opcode trunkCap)]
    exact if_pos rfl
  generalize core.request config msg v v' = after at acquired known ⊢
  cases accepted with
  | answers entries plain =>
      exact acquired.push (queueOk_of_quiet fun entry mem => quiet_of_plain (plain entry mem))
  | writes value entries aOngoings plain owned opcode =>
      have pushed := acquired.push
        (queueOk_of_quiet fun entry mem => quiet_of_plain (plain entry mem))
      exact ⟨pushed.held, pushed.owned, pushed.queued, pushed.driven, pushed.deferred,
        pushed.acquired, pushed.blocks⟩
  | retrieves retrieval plain retrieved =>
      apply acquired.retrieves _ retrieved
      intro source blockAddr grants
      cases found : retrieval.callback with
      | grant => exact absurd plain (by rw [found]; exact id)
      | grantData => exact absurd plain (by rw [found]; exact id)
      | _ =>
          rw [found] at grants
          cases grants
  | grants sink opcode owned =>
      exact acquired.push (queueOk_grantEntries (known (Or.inl opcode)))
  | grantsLater sink opcode retrieval callback retrieved =>
      apply acquired.retrieves _ retrieved
      intro source blockAddr grants
      rw [callback, grantCallback, Callback.trunkGrant] at grants
      split at grants
      · rename_i trunkCap
        cases grants
        exact known (Or.inl opcode) trunkCap
      · cases grants
  | grantsPerm sink opcode owned => exact acquired.push (queueOk_grant (known (Or.inr opcode)))

/-- The last beat of a message returns its block if it gives the trunk up. -/
theorem Ledger.returns (ledger : Ledger config v core) {msg : CMessage}
    (rule : core.MaySend config v msg)
    (last : msg.opcode.carriesData = true →
      (beatIndex core.cBurst msg.header).getD 0 + 1 = config.burstLen msg.size) :
    Ledger config (v.returns config msg) (core.send config msg) := by
  by_cases gives : msg.GivesUp
  · have returned : v.returns config msg = v.setPerm (config.blockAddr msg.address) tip :=
      if_pos gives
    have sent : (core.send config msg).owns = fun other =>
        if other = config.blockAddr msg.address then false else core.owns other :=
      if_pos ⟨last, gives⟩
    rw [returned]
    exact (ledger.giveUp (rule.gives gives).2).congr sent rfl
  · have returned : v.returns config msg = v := if_neg gives
    have sent : (core.send config msg).owns = core.owns :=
      if_neg fun both => gives both.2
    rw [returned]
    exact ledger.congr sent rfl

/-- A beat of channel C keeps the ledger. -/
theorem Ledger.receives (ledger : Ledger config v core) {msg : CMessage}
    (rule : core.MaySend config v msg)
    (counted : v.cOngoings.getD msg.source 0 = (beatIndex core.cBurst msg.header).getD 0)
    (received : v.Receives config msg v') : Ledger config v' (core.send config msg) := by
  have lastOf : v.LastBeat config msg →
      (beatIndex core.cBurst msg.header).getD 0 + 1 = config.burstLen msg.size := by
    intro last
    rw [← counted]
    exact of_decide_eq_true last
  have stored : Ledger config (v.storeBeat config msg) core :=
    ⟨ledger.held, ledger.owned, ledger.queued, ledger.driven, ledger.deferred, ledger.acquired,
      ledger.blocks⟩
  have storedRule : core.MaySend config (v.storeBeat config msg) msg :=
    ⟨rule.kind, rule.inOrder, rule.gives, rule.data, rule.clean, rule.probe⟩
  have acked : ∀ entry ∈ [(some (releaseAck msg.size msg.source), (none : Option DCallback))],
      QuietEntry entry :=
    fun entry mem => quiet_of_plain (plain_singleton (by simp) (by simp [releaseAck]) entry mem)
  cases received with
  | reserved opcode =>
      have kind := rule.kind
      rw [opcode] at kind
      simp [COpcode.answersProbe] at kind
  | probeAck opcode answered =>
      have noData : msg.opcode.carriesData = true →
          (beatIndex core.cBurst msg.header).getD 0 + 1 = config.burstLen msg.size := by
        rw [opcode]
        intro data
        cases data
      exact (ledger.returns rule noData).answers answered
  | release opcode =>
      have noData : msg.opcode.carriesData = true →
          (beatIndex core.cBurst msg.header).getD 0 + 1 = config.burstLen msg.size := by
        rw [opcode]
        intro data
        cases data
      exact (ledger.returns rule noData).push (queueOk_of_quiet acked)
  | beat opcode more =>
      have data : msg.opcode.carriesData = true := by
        rcases opcode with answer | release
        · rw [answer]
          rfl
        · rw [release]
          rfl
      have unfinished : ¬ ((msg.opcode.carriesData = true →
          (beatIndex core.cBurst msg.header).getD 0 + 1 = config.burstLen msg.size) ∧
            msg.GivesUp) := by
        rintro ⟨last, _⟩
        apply more
        rw [View.LastBeat, lastBeat, counted]
        exact decide_eq_true (last data)
      have kept : Ledger config (v.storeBeat config msg) (core.send config msg) :=
        stored.congr (if_neg unfinished) rfl
      exact ⟨kept.held, kept.owned, kept.queued, kept.driven, kept.deferred, kept.acquired,
        kept.blocks⟩
  | probeAckData opcode last answered =>
      have answeredLedger := (stored.returns storedRule fun _ => lastOf last).answers answered
      exact ⟨answeredLedger.held, answeredLedger.owned, answeredLedger.queued,
        answeredLedger.driven, answeredLedger.deferred, answeredLedger.acquired,
        answeredLedger.blocks⟩
  | releaseData opcode last =>
      have released := (stored.returns storedRule fun _ => lastOf last).push
        (queueOk_of_quiet acked)
      exact ⟨released.held, released.owned, released.queued, released.driven, released.deferred,
        released.acquired, released.blocks⟩

end Ledger

end Difftest.TileLink
