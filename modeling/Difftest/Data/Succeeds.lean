import Mathlib.Tactic

/-!
# Computations that succeed

Total correctness of computations with state and exceptions: from a given state the
computation throws nothing, and its value and its final state satisfy a condition.  The
rules follow the sequence and the two traversals of a list of equally spaced numbers, for
which the condition is an invariant indexed by the number of steps done.
-/

namespace Difftest

universe u

variable {ε σ α β : Type u}

/-- From `s` the computation ends without an exception, and `post` holds of the end. -/
def Succeeds (x : EStateM ε σ α) (s : σ) (post : α → σ → Prop) : Prop :=
  ∃ a s', x s = .ok a s' ∧ post a s'

namespace Succeeds

variable {x : EStateM ε σ α} {s : σ} {post : α → σ → Prop}

theorem pure {a : α} (holds : post a s) : Succeeds (Pure.pure a : EStateM ε σ α) s post :=
  ⟨a, s, rfl, holds⟩

theorem mono {weaker : α → σ → Prop} (succeeds : Succeeds x s post)
    (weaken : ∀ a s', post a s' → weaker a s') : Succeeds x s weaker := by
  obtain ⟨a, s', ran, holds⟩ := succeeds
  exact ⟨a, s', ran, weaken a s' holds⟩

theorem bind {f : α → EStateM ε σ β} {after : β → σ → Prop} (succeeds : Succeeds x s post)
    (next : ∀ a s', post a s' → Succeeds (f a) s' after) : Succeeds (x >>= f) s after := by
  obtain ⟨a, s', ran, holds⟩ := succeeds
  obtain ⟨b, s'', ranNext, holdsNext⟩ := next a s' holds
  refine ⟨b, s'', ?_, holdsNext⟩
  change EStateM.bind x f s = _
  rw [EStateM.bind, ran]
  exact ranNext

/-- One of two computations succeeds when the chosen one does. -/
theorem ite {condition : Prop} [Decidable condition] {y : EStateM ε σ α}
    (whenTrue : condition → Succeeds x s post) (whenFalse : ¬condition → Succeeds y s post) :
    Succeeds (if condition then x else y) s post := by
  by_cases holds : condition
  · rw [if_pos holds]
    exact whenTrue holds
  · rw [if_neg holds]
    exact whenFalse holds

section Loops

variable (inv : Nat → σ → Prop) {start step : Nat}

/-- A loop succeeds when each turn takes its invariant to the next one. -/
theorem forM {f : Nat → EStateM ε σ PUnit} {count : Nat} (first : inv 0 s)
    (turn : ∀ k < count, ∀ s, inv k s → Succeeds (f (start + step * k)) s fun _ s' => inv (k + 1) s') :
    Succeeds ((List.range' start count step).forM f) s fun _ s' => inv count s' := by
  induction count with
  | zero => exact Succeeds.pure first
  | succ count inductionHypothesis =>
      rw [List.range'_concat, List.forM_eq_forM, List.forM_append]
      apply Succeeds.bind (inductionHypothesis fun k below => turn k (Nat.lt_succ_of_lt below))
      intro _ s' holds
      apply Succeeds.bind (turn count (Nat.lt_succ_self count) s' holds)
      intro _ s'' next
      exact Succeeds.pure next

/-- A traversal collects the values of its turns. -/
theorem mapM {f : Nat → EStateM ε σ α} {value : Nat → α} {count : Nat} (first : inv 0 s)
    (turn : ∀ k < count, ∀ s, inv k s →
      Succeeds (f (start + step * k)) s fun a s' => a = value k ∧ inv (k + 1) s') :
    Succeeds ((List.range' start count step).mapM f) s fun all s' =>
      all = (List.range count).map value ∧ inv count s' := by
  induction count with
  | zero => exact Succeeds.pure ⟨rfl, first⟩
  | succ count inductionHypothesis =>
      have last : ∀ s, inv count s → Succeeds ([start + step * count].mapM f) s
          fun all s' => all = [value count] ∧ inv (count + 1) s' := by
        intro s holds
        rw [List.mapM_cons]
        apply Succeeds.bind (turn count (Nat.lt_succ_self count) s holds)
        rintro _ s' ⟨rfl, next⟩
        exact Succeeds.pure ⟨rfl, next⟩
      rw [List.range'_concat, List.mapM_append]
      apply Succeeds.bind (inductionHypothesis fun k below => turn k (Nat.lt_succ_of_lt below))
      rintro _ s' ⟨rfl, holds⟩
      apply Succeeds.bind (last s' holds)
      rintro _ s'' ⟨rfl, next⟩
      apply Succeeds.pure
      rw [List.range_succ, List.map_append]
      exact ⟨rfl, next⟩

end Loops

end Succeeds

end Difftest
