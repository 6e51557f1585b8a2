import Mathlib.Data.Finset.Card
import Mathlib.Data.Finset.Image
import Mathlib.Data.Finset.Range

/-!
# Counting visited values

A sequence of values is sampled in the steps that tick.  Marks that are set at the
sampled value, and a counter that goes up when the sampled value has no mark yet, stay in
step with the set of values sampled so far.
-/

namespace Difftest

variable {α : Type*} [DecidableEq α]

/-- The values sampled before a step. -/
def visited (value : Nat → α) (ticks : Nat → Prop) [DecidablePred ticks] (t : Nat) : Finset α :=
  ((Finset.range t).filter ticks).image value

/-- Marks and a counter below a modulus that follow a sampled sequence. -/
structure Marking (value : Nat → α) (ticks : Nat → Prop) (marked : Nat → α → Prop)
    (count : Nat → Int) (modulus : Int) : Prop where
  noMark : ∀ x, ¬ marked 0 x
  zero : count 0 = 0
  hold : ∀ t, ¬ ticks t → (∀ x, marked (t + 1) x ↔ marked t x) ∧ count (t + 1) = count t
  mark : ∀ t, ticks t → ∀ x, marked (t + 1) x ↔ x = value t ∨ marked t x
  again : ∀ t, ticks t → marked t (value t) → count (t + 1) = count t
  first : ∀ t, ticks t → ¬ marked t (value t) → count (t + 1) = (count t + 1) % modulus

variable {value : Nat → α} {ticks : Nat → Prop} [DecidablePred ticks]

@[simp]
theorem visited_zero : visited value ticks 0 = ∅ :=
  rfl

theorem visited_succ_of_tick {t : Nat} (tick : ticks t) :
    visited value ticks (t + 1) = insert (value t) (visited value ticks t) := by
  rw [visited, Finset.range_add_one, Finset.filter_insert, if_pos tick, Finset.image_insert,
    visited]

theorem visited_succ_of_hold {t : Nat} (noTick : ¬ ticks t) :
    visited value ticks (t + 1) = visited value ticks t := by
  rw [visited, Finset.range_add_one, Finset.filter_insert, if_neg noTick, visited]

theorem mem_visited_iff {t : Nat} {x : α} :
    x ∈ visited value ticks t ↔ ∃ s < t, ticks s ∧ value s = x := by
  simp only [visited, Finset.mem_image, Finset.mem_filter, Finset.mem_range, and_assoc]

/-- A step samples at most one new value. -/
theorem card_visited_succ (t : Nat) :
    (visited value ticks t).card ≤ (visited value ticks (t + 1)).card ∧
      (visited value ticks (t + 1)).card ≤ (visited value ticks t).card + 1 := by
  by_cases tick : ticks t
  · rw [visited_succ_of_tick tick]
    constructor
    · exact Finset.card_le_card (Finset.subset_insert _ _)
    · exact Finset.card_insert_le _ _
  · rw [visited_succ_of_hold tick]
    constructor
    · exact le_rfl
    · exact Nat.le_succ _

namespace Marking

variable {marked : Nat → α → Prop} {count : Nat → Int} {modulus : Int}

/-- Exactly the visited values are marked. -/
theorem marked_iff (marking : Marking value ticks marked count modulus) (t : Nat) (x : α) :
    marked t x ↔ x ∈ visited value ticks t := by
  induction t with
  | zero =>
      rw [visited_zero]
      exact iff_of_false (marking.noMark x) (Finset.notMem_empty x)
  | succ t ih =>
      by_cases tick : ticks t
      · rw [marking.mark t tick x, visited_succ_of_tick tick, Finset.mem_insert, ih]
      · rw [(marking.hold t tick).1 x, visited_succ_of_hold tick, ih]

/-- The counter is the number of visited values while these are fewer than the modulus. -/
theorem count_eq (marking : Marking value ticks marked count modulus)
    (room : ∀ t, ((visited value ticks t).card : Int) < modulus) (t : Nat) :
    count t = (visited value ticks t).card := by
  induction t with
  | zero =>
      rw [marking.zero, visited_zero]
      rfl
  | succ t ih =>
      by_cases tick : ticks t
      · by_cases seen : marked t (value t)
        · rw [marking.again t tick seen, ih, visited_succ_of_tick tick,
            Finset.insert_eq_of_mem ((marking.marked_iff t _).mp seen)]
        · have card : (visited value ticks (t + 1)).card = (visited value ticks t).card + 1 := by
            rw [visited_succ_of_tick tick]
            apply Finset.card_insert_of_notMem
            rwa [← marking.marked_iff t]
          have space := room (t + 1)
          rw [card] at space
          rw [marking.first t tick seen, ih, card]
          exact Int.emod_eq_of_lt (Int.natCast_nonneg _) space
      · rw [(marking.hold t tick).2, visited_succ_of_hold tick, ih]

end Marking

end Difftest
