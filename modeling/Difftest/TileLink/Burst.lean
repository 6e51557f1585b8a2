import Difftest.TileLink.Adapter

/-!
# Bursts

A burst is a run of beats with one header.  The adapter knows of it only a count
for its source; these lemmas relate that table to the burst in progress, on
either channel.
-/

namespace Difftest.TileLink

/-- The fields that stay the same through a burst. -/
def AMessage.header (msg : AMessage) : AMessage := { msg with mask := 0, data := 0 }

/-- The fields that stay the same through a burst. -/
def CMessage.header (msg : CMessage) : CMessage := { msg with data := 0 }

/-- The number of the beat in its burst, unless another burst is in progress. -/
def beatIndex {α : Type} [DecidableEq α] (burst : Option (α × Nat)) (header : α) : Option Nat :=
  match burst with
  | none => some 0
  | some (opened, count) => if opened = header then some count else none

/-- The burst in progress after beat `index`. -/
def burstAfter {α : Type} (header : α) (burstLen index : Nat) : Option (α × Nat) :=
  if index + 1 = burstLen then none else some (header, index + 1)

/-- The counter table while a burst is in progress. -/
def burstTable (burst : Option (Nat × Nat)) : Dict Nat Nat :=
  match burst with
  | none => Dict.empty
  | some (source, count) => Dict.empty.set source count

/-! ## Beat counters -/

section Counters

variable {α : Type} [DecidableEq α] {burst : Option (α × Nat)} {header : α} {index : Nat}
  (source : α → Nat)

/-- The counter table of a burst whose next beat is legal. -/
theorem burstTable_of_beatIndex (next : beatIndex burst header = some index) :
    (burstTable (burst.map fun opened => (source opened.1, opened.2))).getD (source header) 0 =
        index ∧
      notInterleaved (burstTable (burst.map fun opened => (source opened.1, opened.2)))
        (source header) = true := by
  cases burst with
  | none =>
      cases next
      exact ⟨rfl, rfl⟩
  | some opened =>
      rcases opened with ⟨opened, count⟩
      by_cases same : opened = header
      · subst same
        rw [beatIndex, if_pos rfl] at next
        cases next
        simp [burstTable, Dict.getD, notInterleaved]
      · simp [beatIndex, same] at next

/-- Counting a legal beat keeps the table of the burst in progress. -/
theorem countBeat_burstTable (next : beatIndex burst header = some index)
    (started : ∀ opened count, burst = some (opened, count) → 0 < count) (burstLen : Nat) :
    countBeat burstLen (source header)
        (burstTable (burst.map fun opened => (source opened.1, opened.2))) =
      burstTable ((burstAfter header burstLen index).map
        fun opened => (source opened.1, opened.2)) := by
  have count_eq := (burstTable_of_beatIndex source next).1
  rw [countBeat, count_eq, burstAfter]
  by_cases last : index + 1 = burstLen
  · cases burst with
    | none =>
        cases next
        simp [last, burstTable]
    | some opened =>
        rcases opened with ⟨opened, count⟩
        by_cases same : opened = header
        · subst same
          rw [beatIndex, if_pos rfl] at next
          cases next
          have positive := started opened index rfl
          simp [last, burstTable, Nat.ne_of_gt positive]
        · simp [beatIndex, same] at next
  · cases burst with
    | none =>
        cases next
        simp [last, burstTable]
    | some opened =>
        rcases opened with ⟨opened, count⟩
        by_cases same : opened = header
        · subst same
          simp [last, burstTable]
        · simp [beatIndex, same] at next

/-- The burst in progress after a legal beat is neither empty nor complete. -/
theorem burstAfter_bounds (next : beatIndex burst header = some index) (burstLen : α → Nat)
    (nonempty : 0 < burstLen header)
    (bounds : ∀ opened count, burst = some (opened, count) → 0 < count ∧ count < burstLen opened)
    {opened : α} {count : Nat}
    (after : burstAfter header (burstLen header) index = some (opened, count)) :
    0 < count ∧ count < burstLen opened := by
  have below : index < burstLen header := by
    cases burst with
    | none =>
        cases next
        exact nonempty
    | some running =>
        rcases running with ⟨running, done⟩
        by_cases same : running = header
        · subst same
          rw [beatIndex, if_pos rfl] at next
          cases next
          exact (bounds running index rfl).2
        · simp [beatIndex, same] at next
  rw [burstAfter] at after
  split at after
  · cases after
  · cases after
    omega

end Counters

theorem burstLen_pos {config : Config} (size : Nat) : 0 < config.burstLen size := by
  rw [Config.burstLen]
  omega

end Difftest.TileLink
