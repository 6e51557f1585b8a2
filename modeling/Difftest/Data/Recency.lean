import Mathlib.Data.List.Dedup
import Mathlib.Tactic

/-!
# The order of last uses

A queue that moves every used element to its end holds the elements in the order of their
last uses: it is the history of the uses without the repetitions, each element at its last
place.  Its head is the least recently used element.
-/

namespace Difftest.Recency

variable {α : Type} [DecidableEq α]

/-- No element was used before the last use of this one and not again. -/
def LeastRecent (uses : List α) (a : α) : Prop :=
  ∃ before after, uses = before ++ a :: after ∧ a ∉ after ∧ ∀ b ∈ uses, b ≠ a → b ∈ after

/-- A use moves the element to the end. -/
theorem dedup_concat (uses : List α) (a : α) :
    (uses ++ [a]).dedup = uses.dedup.erase a ++ [a] := by
  induction uses with
  | nil => rfl
  | cons b uses ih =>
      rw [List.cons_append]
      by_cases again : b ∈ uses
      · rw [List.dedup_cons_of_mem (List.mem_append_left _ again), ih,
          List.dedup_cons_of_mem again]
      · by_cases same : b = a
        · subst same
          have absent : b ∉ uses.dedup := fun mem => again (List.mem_dedup.mp mem)
          rw [List.dedup_cons_of_mem (List.mem_append_right _ (List.mem_singleton_self b)), ih,
            List.dedup_cons_of_notMem again, List.erase_cons_head, List.erase_of_not_mem absent]
        · have fresh : b ∉ uses ++ [a] := by
            rw [List.mem_append, List.mem_singleton]
            exact not_or.mpr ⟨again, same⟩
          rw [List.dedup_cons_of_notMem fresh, ih, List.dedup_cons_of_notMem again,
            List.erase_cons_tail (by simpa using same), List.cons_append]

/-- The head of the queue is the least recently used element. -/
theorem leastRecent_of_dedup {uses : List α} {a : α} {rest : List α}
    (queue : uses.dedup = a :: rest) : LeastRecent uses a := by
  induction uses with
  | nil => cases queue
  | cons b uses ih =>
      by_cases again : b ∈ uses
      · rw [List.dedup_cons_of_mem again] at queue
        rcases ih queue with ⟨before, after, parts, last, others⟩
        refine ⟨b :: before, after, congrArg (b :: ·) parts, last, ?_⟩
        intro c mem other
        rcases List.mem_cons.mp mem with rfl | used
        · exact others c again other
        · exact others c used other
      · rw [List.dedup_cons_of_notMem again] at queue
        cases queue
        refine ⟨[], uses, rfl, again, ?_⟩
        intro c mem other
        exact (List.mem_cons.mp mem).resolve_left other

end Difftest.Recency
