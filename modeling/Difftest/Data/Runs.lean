import Mathlib.Data.List.DropRight
import Mathlib.Tactic

/-!
# Runs at the end of a list

A scan counts the elements since the last one that fails a test and remembers the first of them.
It stops when the count reaches a threshold.  The count and the element are those of the run at
the end of what the scan looked at.
-/

namespace Difftest

universe u

/-- How many elements a run has, and the first of them. -/
structure Run (α : Type u) where
  count : Nat
  first : Option α

namespace Run

variable {α : Type u} (good : α → Bool)

/-- The run at the end of a list. -/
def atEnd (seen : List α) : Run α :=
  ⟨(seen.rtakeWhile good).length, (seen.rtakeWhile good).head?⟩

/-- The run behind one more element. -/
def next (run : Run α) (x : α) : Run α :=
  if good x then ⟨run.count + 1, some (run.first.getD x)⟩ else ⟨0, none⟩

/-- What a scan looks at: everything up to the end of a run of the given length. -/
def lookedAt (threshold : Nat) : Run α → List α → List α
  | _, [] => []
  | run, x :: rest =>
      x :: if threshold ≤ (run.next good x).count then [] else
        lookedAt threshold (run.next good x) rest

variable {good}

theorem atEnd_nil : atEnd good ([] : List α) = ⟨0, none⟩ := rfl

theorem count_atEnd (seen : List α) :
    (atEnd good seen).count = (seen.rtakeWhile good).length := rfl

/-- The scan keeps the run at the end. -/
theorem next_atEnd (seen : List α) (x : α) :
    (atEnd good seen).next good x = atEnd good (seen ++ [x]) := by
  rw [next, atEnd, atEnd, List.rtakeWhile_concat]
  split
  · rw [List.length_append, List.length_singleton]
    cases seen.rtakeWhile good with
    | nil => rfl
    | cons first rest => rfl
  · rfl

/-- Elements at the end that all pass are part of the run. -/
theorem length_le_count {front back : List α} (pass : ∀ x ∈ back, good x = true) :
    back.length ≤ (atEnd good (front ++ back)).count := by
  induction back using List.reverseRecOn with
  | nil => exact Nat.zero_le _
  | append_singleton back x inductionHypothesis =>
      rw [List.forall_mem_append] at pass
      have last := pass.2 x (List.mem_singleton_self x)
      rw [← List.append_assoc, ← next_atEnd, next, if_pos last, List.length_append]
      exact Nat.succ_le_succ (inductionHypothesis pass.1)

/-- What stands in front of the run at the end, if anything, fails the test. -/
theorem exists_front (seen : List α) :
    ∃ front, seen = front ++ seen.rtakeWhile good ∧ ∀ last ∈ front.getLast?, good last = false := by
  refine ⟨seen.rdropWhile good, List.rdropWhile_append_rtakeWhile.symm, ?_⟩
  intro last isLast
  have nonempty : seen.rdropWhile good ≠ [] := by
    intro empty
    rw [empty] at isLast
    cases isLast
  rw [List.getLast?_eq_some_getLast nonempty] at isLast
  rw [← Option.some.inj isLast]
  exact Bool.not_eq_true _ ▸ List.rdropWhile_last_not good seen nonempty

section Scan

variable {threshold : Nat}

theorem lookedAt_isPrefix (run : Run α) (list : List α) :
    lookedAt good threshold run list <+: list := by
  induction list generalizing run with
  | nil => exact List.nil_prefix
  | cons x rest inductionHypothesis =>
      rw [lookedAt, List.cons_prefix_cons]
      refine ⟨rfl, ?_⟩
      split
      · exact List.nil_prefix
      · exact inductionHypothesis _

/-- A scan ends with a long run or at the end of the list. -/
theorem lookedAt_eq_or (seen list : List α) :
    lookedAt good threshold (atEnd good seen) list = list ∨
      threshold ≤ (atEnd good (seen ++ lookedAt good threshold (atEnd good seen) list)).count := by
  induction list generalizing seen with
  | nil => exact Or.inl rfl
  | cons x rest inductionHypothesis =>
      rw [lookedAt, next_atEnd]
      by_cases long : threshold ≤ (atEnd good (seen ++ [x])).count
      · right
        rw [if_pos long]
        exact long
      · rw [if_neg long]
        rcases inductionHypothesis (seen ++ [x]) with whole | stopped
        · left
          rw [whole]
        · right
          rw [List.append_assoc] at stopped
          exact stopped

/-- The first long run ends the scan. -/
theorem count_lookedAt {seen list front : List α} (isPrefix : front <+: list)
    (long : threshold ≤ (atEnd good (seen ++ front)).count)
    (short : (atEnd good seen).count < threshold) :
    threshold ≤ (atEnd good (seen ++ lookedAt good threshold (atEnd good seen) list)).count := by
  induction list generalizing seen front with
  | nil =>
      rw [List.prefix_nil.mp isPrefix, List.append_nil] at long
      omega
  | cons x rest inductionHypothesis =>
      rw [lookedAt, next_atEnd]
      by_cases reached : threshold ≤ (atEnd good (seen ++ [x])).count
      · rw [if_pos reached]
        exact reached
      · rw [if_neg reached]
        cases front with
        | nil =>
            rw [List.append_nil] at long
            omega
        | cons y front =>
            rcases List.cons_prefix_cons.mp isPrefix with ⟨rfl, restPrefix⟩
            rw [List.append_cons] at long
            have later := inductionHypothesis restPrefix long (Nat.lt_of_not_le reached)
            rw [List.append_assoc] at later
            exact later

/-- A scan ends with a long run exactly when so many elements in a row pass. -/
theorem threshold_le_count_iff (positive : 0 < threshold) (list : List α) :
    threshold ≤ (atEnd good (lookedAt good threshold ⟨0, none⟩ list)).count ↔
      ∃ run, run <:+: list ∧ run.length = threshold ∧ ∀ x ∈ run, good x = true := by
  constructor
  · intro long
    rw [count_atEnd] at long
    generalize isTail : (lookedAt good threshold ⟨0, none⟩ list).rtakeWhile good = tail at long
    have inside : tail <:+: list := by
      rw [← isTail]
      exact (List.rtakeWhile_suffix good _).isInfix.trans (lookedAt_isPrefix _ _).isInfix
    refine ⟨tail.take threshold, ?_, List.length_take_of_le long, ?_⟩
    · exact (List.take_prefix threshold tail).isInfix.trans inside
    · intro x mem
      apply List.mem_rtakeWhile_imp
      rw [isTail]
      exact List.mem_of_mem_take mem
  · rintro ⟨run, ⟨front, back, rfl⟩, length, pass⟩
    have long : threshold ≤ (atEnd good (([] : List α) ++ (front ++ run))).count := by
      rw [List.nil_append, ← length]
      exact length_le_count pass
    exact count_lookedAt (List.prefix_append (front ++ run) back) long positive

end Scan

end Run

end Difftest
