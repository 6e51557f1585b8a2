import Difftest.TileLink.Uncached

/-!
# Turns of the drivers

Between messages only the drivers of channels B and D take turns.  They empty the
queues, and the callbacks of granted blocks change permissions.  Whatever turns are
taken, the messages sent, driven and queued stay the same in order, and so do the
permissions once the queued grants have been sent.
-/

namespace Difftest.TileLink

/-- A turn of one of the two drivers. -/
def Event.isTurn : Event → Bool
  | .dPop => true
  | .dFire => true
  | .bPop => true
  | .bFire => true
  | _ => false

/-- The entry changes at most permissions. -/
def PermEntry (entry : DEntry) : Prop :=
  ∀ callback, entry.2 = some callback → ∃ blockAddr param, callback = .updatePerm blockAddr param

/-- The permissions after an entry is taken from the queue; a bubble's callback is
never run. -/
def entryPerm (perm : Nat → Nat) (entry : DEntry) : Nat → Nat :=
  match entry with
  | (some _, some (.updatePerm blockAddr param)) =>
      if param = toT then Function.update perm blockAddr trunk else perm
  | _ => perm

/-- The permissions after a whole queue is taken. -/
def drainedPerm (entries : List DEntry) (perm : Nat → Nat) : Nat → Nat :=
  entries.foldl entryPerm perm

/-- The messages of a queue. -/
def queuedMessages (entries : List DEntry) : List DMessage := entries.filterMap Prod.fst

/-- What turns can change and what they keep. -/
structure TurnsTo (s s' : State) (sent : List DMessage) : Prop where
  frame : ∃ blockPerm dQueue dDriving bQueue bDriving,
    s' = { s with blockPerm, dQueue, dDriving, bQueue, bDriving }
  remains : s'.dQueue <:+ s.dQueue
  perm : drainedPerm s'.dQueue s'.perm = drainedPerm s.dQueue s.perm
  messages : sent ++ (s'.dDriving.toList ++ queuedMessages s'.dQueue) =
    s.dDriving.toList ++ queuedMessages s.dQueue

theorem TurnsTo.refl (s : State) : TurnsTo s s [] :=
  ⟨⟨_, _, _, _, _, rfl⟩, List.suffix_refl _, rfl, rfl⟩

theorem TurnsTo.trans {s s' s'' : State} {sent sent' : List DMessage} (first : TurnsTo s s' sent)
    (second : TurnsTo s' s'' sent') : TurnsTo s s'' (sent ++ sent') := by
  constructor
  · obtain ⟨_, _, _, _, _, same⟩ := first.frame
    obtain ⟨blockPerm, dQueue, dDriving, bQueue, bDriving, same'⟩ := second.frame
    exact ⟨blockPerm, dQueue, dDriving, bQueue, bDriving, by rw [same', same]⟩
  · exact second.remains.trans first.remains
  · exact second.perm.trans first.perm
  · rw [List.append_assoc, second.messages]
    exact first.messages

section Turns

variable {config : Config} {s : State}

/-- The permissions after the callback of an entry. -/
theorem runDCallback_updatePerm (blockAddr param : Nat) :
    ∃ blockPerm, runDCallback (.updatePerm blockAddr param) s = some { s with blockPerm } ∧
      ({ s with blockPerm } : State).perm =
        if param = toT then Function.update s.perm blockAddr trunk else s.perm := by
  by_cases grants : param = toT
  · refine ⟨s.blockPerm.set blockAddr trunk, ?_, ?_⟩
    · rw [runDCallback, if_pos grants]
      rfl
    · rw [if_pos grants]
      funext other
      rw [Function.update_apply]
      exact Dict.getD_set s.blockPerm blockAddr other trunk tip
  · refine ⟨s.blockPerm, ?_, ?_⟩
    · rw [runDCallback, if_neg grants]
    · rw [if_neg grants]

/-- A turn of the channel D driver. -/
theorem popD_turnsTo (idle : s.dDriving = none) (entries : ∀ entry ∈ s.dQueue, PermEntry entry) :
    ∃ s', popD s = some s' ∧ TurnsTo s s' [] := by
  cases queue : s.dQueue with
  | nil =>
      refine ⟨s, ?_, TurnsTo.refl s⟩
      rw [popD, queue]
  | cons entry rest =>
      obtain ⟨message, callback⟩ := entry
      have isPerm := entries (message, callback) (by rw [queue]; exact List.mem_cons_self)
      cases message with
      | none =>
          refine ⟨{ s with dQueue := rest }, ?_, ⟨_, _, _, _, _, rfl⟩, ?_, ?_, ?_⟩
          · rw [popD, queue]
          · rw [queue]
            exact List.suffix_cons _ _
          · rw [queue]
            rfl
          · rw [queue]
            rfl
      | some message =>
          cases callback with
          | none =>
              refine ⟨{ s with dQueue := rest, dDriving := some message }, ?_, ⟨_, _, _, _, _, rfl⟩,
                ?_, ?_, ?_⟩
              · rw [popD, queue]
              · rw [queue]
                exact List.suffix_cons _ _
              · rw [queue]
                rfl
              · rw [queue, idle]
                rfl
          | some callback =>
              obtain ⟨blockAddr, param, rfl⟩ := isPerm callback rfl
              obtain ⟨blockPerm, ran, perm⟩ :=
                @runDCallback_updatePerm { s with dQueue := rest, dDriving := some message }
                  blockAddr param
              refine ⟨{ s with blockPerm, dQueue := rest, dDriving := some message }, ?_,
                ⟨_, _, _, _, _, rfl⟩, ?_, ?_, ?_⟩
              · rw [popD, queue]
                exact ran
              · rw [queue]
                exact List.suffix_cons _ _
              · rw [perm, queue]
                rfl
              · rw [queue, idle]
                rfl

/-- One turn. -/
theorem step_turnsTo {event : Event} (turn : event.isTurn = true)
    (entries : ∀ entry ∈ s.dQueue, PermEntry entry) :
    ∃ s', step config s event = some s' ∧ TurnsTo s s' (sentAt s event) := by
  cases event with
  | dPop =>
      rw [step]
      by_cases takes : s.drive ∧ s.dDriving = none
      · rw [if_pos takes]
        exact popD_turnsTo takes.2 entries
      · rw [if_neg takes]
        exact ⟨s, rfl, TurnsTo.refl s⟩
  | dFire =>
      refine ⟨_, rfl, ⟨_, _, _, _, _, rfl⟩, List.suffix_refl _, rfl, ?_⟩
      rfl
  | bPop =>
      rw [step]
      by_cases takes : s.drive ∧ s.bDriving = none
      · rw [if_pos takes, popB]
        cases queue : s.bQueue with
        | nil => exact ⟨s, rfl, TurnsTo.refl s⟩
        | cons probe rest =>
            exact ⟨_, rfl, ⟨_, _, _, _, _, rfl⟩, List.suffix_refl _, rfl, rfl⟩
      · rw [if_neg takes]
        exact ⟨s, rfl, TurnsTo.refl s⟩
  | bFire => exact ⟨_, rfl, ⟨_, _, _, _, _, rfl⟩, List.suffix_refl _, rfl, rfl⟩
  | aFire msg => cases turn
  | cFire msg => cases turn
  | eFire sink => cases turn
  | host => cases turn
  | retriever => cases turn
  | probeBlock addr => cases turn
  | stop => cases turn

/-- Any number of turns. -/
theorem run_turnsTo {turns : List Event} (all : ∀ event ∈ turns, event.isTurn = true)
    (entries : ∀ entry ∈ s.dQueue, PermEntry entry) :
    ∃ s', run config s turns = some s' ∧ TurnsTo s s' (sentBy config s turns) := by
  induction turns generalizing s with
  | nil => exact ⟨s, rfl, TurnsTo.refl s⟩
  | cons event turns ih =>
      obtain ⟨next, stepped, first⟩ :=
        @step_turnsTo config s event (all event List.mem_cons_self) entries
      obtain ⟨s', ran, rest⟩ := ih (fun other mem => all other (List.mem_cons_of_mem _ mem))
        fun entry mem => entries entry (first.remains.subset mem)
      refine ⟨s', ?_, ?_⟩
      · rw [run, stepped, Option.bind_some, ran]
      · rw [sentBy, stepped]
        exact first.trans rest

/-- With nothing queued or driven on channel D, turns change channel B only. -/
theorem TurnsTo.idle {s' : State} {sent : List DMessage} (turned : TurnsTo s s' sent)
    (queue : s.dQueue = []) (driving : s.dDriving = none) :
    sent = [] ∧ s'.dQueue = [] ∧ s'.dDriving = none ∧ s'.perm = s.perm := by
  have empty : s'.dQueue = [] := List.suffix_nil.mp (queue ▸ turned.remains)
  have messages := turned.messages
  rw [queue, driving, empty] at messages
  have perm := turned.perm
  rw [queue, empty] at perm
  have nothing : sent ++ (s'.dDriving.toList ++ []) = [] := messages
  rw [List.append_eq_nil_iff, List.append_nil, Option.toList_eq_nil_iff] at nothing
  exact ⟨nothing.1, empty, nothing.2, perm⟩

/-- Turns that empty channel D have sent all messages and applied all grants. -/
theorem TurnsTo.drained {s' : State} {sent : List DMessage} (turned : TurnsTo s s' sent)
    (queue : s'.dQueue = []) (driving : s'.dDriving = none) :
    sent = s.dDriving.toList ++ queuedMessages s.dQueue ∧ s'.perm = drainedPerm s.dQueue s.perm := by
  have messages := turned.messages
  rw [queue, driving] at messages
  have perm := turned.perm
  rw [queue] at perm
  exact ⟨by simpa [queuedMessages] using messages, perm⟩

end Turns

theorem sentBy_append {config : Config} {s s' : State} {first : List Event}
    (ran : run config s first = some s') (second : List Event) :
    sentBy config s (first ++ second) = sentBy config s first ++ sentBy config s' second := by
  induction first generalizing s with
  | nil =>
      cases ran
      rfl
  | cons event first ih =>
      obtain ⟨next, stepped, ran⟩ := Option.bind_eq_some_iff.mp ran
      rw [List.cons_append, sentBy, sentBy, stepped, List.append_assoc]
      exact congrArg (sentAt s event ++ ·) (ih ran)

end Difftest.TileLink
