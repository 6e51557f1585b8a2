import Mathlib.Tactic

/-!
# Computations in lockstep

Two runs of a computation with state and exceptions agree when they return the same value
or throw the same exception and end in related states.  For a relation that is symmetric
and transitive agreement is so too, and sequences of agreeing computations agree.  A weaker
agreement excuses a first run that ends in one given exception.
-/

namespace Difftest

universe u

variable {ε σ α β : Type u} {relation : σ → σ → Prop}

/-- A sequence that returns does so through both of its parts. -/
theorem returns_of_bind {x : EStateM ε σ α} {f : α → EStateM ε σ β} {s t : σ} {b : β}
    (returns : (x >>= f) s = .ok b t) : ∃ a s', x s = .ok a s' ∧ f a s' = .ok b t := by
  change EStateM.bind x f s = .ok b t at returns
  unfold EStateM.bind at returns
  cases first : x s with
  | ok a s' =>
      rw [first] at returns
      exact ⟨a, s', rfl, returns⟩
  | error e s' =>
      rw [first] at returns
      cases returns

/-- The same value or the same exception, and related final states. -/
inductive Agree (relation : σ → σ → Prop) :
    EStateM.Result ε σ α → EStateM.Result ε σ α → Prop
  | ok {a : α} {s t : σ} (related : relation s t) : Agree relation (.ok a s) (.ok a t)
  | error {e : ε} {s t : σ} (related : relation s t) : Agree relation (.error e s) (.error e t)

namespace Agree

variable {first second third : EStateM.Result ε σ α}

theorem symm (symmetric : ∀ {s t}, relation s t → relation t s)
    (agree : Agree relation first second) : Agree relation second first := by
  cases agree with
  | ok related => exact .ok (symmetric related)
  | error related => exact .error (symmetric related)

theorem trans (transitive : ∀ {s t u}, relation s t → relation t u → relation s u)
    (agree : Agree relation first second) (later : Agree relation second third) :
    Agree relation first third := by
  cases agree with
  | ok related =>
      cases later with
      | ok laterRelated => exact .ok (transitive related laterRelated)
  | error related =>
      cases later with
      | error laterRelated => exact .error (transitive related laterRelated)

/-- Agreeing computations followed by agreeing continuations agree; the continuations may
use what the first computations returned. -/
theorem bind {x y : EStateM ε σ α} {f g : α → EStateM ε σ β} {s t : σ}
    (agree : Agree relation (x s) (y t))
    (next : ∀ a s' t', x s = .ok a s' → y t = .ok a t' → relation s' t' →
      Agree relation (f a s') (g a t')) :
    Agree relation ((x >>= f) s) ((y >>= g) t) := by
  change Agree relation (EStateM.bind x f s) (EStateM.bind y g t)
  unfold EStateM.bind
  cases left : x s with
  | ok a s' =>
      rw [left] at agree
      cases right : y t with
      | ok b t' =>
          rw [right] at agree
          cases agree with
          | ok related => exact next a s' t' left right related
      | error e t' =>
          rw [right] at agree
          cases agree
  | error e s' =>
      rw [left] at agree
      cases right : y t with
      | ok b t' =>
          rw [right] at agree
          cases agree
      | error f t' =>
          rw [right] at agree
          cases agree with
          | error related => exact .error related

end Agree

/-! ## Excused runs -/

/-- The first run throws the exception that excuses it, or the runs agree. -/
def AgreeUnless (excuse : ε) (relation : σ → σ → Prop) (first second : EStateM.Result ε σ α) :
    Prop :=
  (∃ s, first = .error excuse s) ∨ Agree relation first second

namespace AgreeUnless

variable {excuse : ε} {first second : EStateM.Result ε σ α}

theorem of_agree (agree : Agree relation first second) :
    AgreeUnless excuse relation first second :=
  Or.inr agree

/-- What is excused first is excused with everything that follows. -/
theorem bind {x y : EStateM ε σ α} {f g : α → EStateM ε σ β} {s t : σ}
    (agree : AgreeUnless excuse relation (x s) (y t))
    (next : ∀ a s' t', x s = .ok a s' → y t = .ok a t' → relation s' t' →
      AgreeUnless excuse relation (f a s') (g a t')) :
    AgreeUnless excuse relation ((x >>= f) s) ((y >>= g) t) := by
  change AgreeUnless excuse relation (EStateM.bind x f s) (EStateM.bind y g t)
  unfold EStateM.bind
  rcases agree with ⟨s', excused⟩ | agree
  · exact Or.inl ⟨s', by rw [excused]⟩
  · cases left : x s with
    | ok a s' =>
        rw [left] at agree
        cases right : y t with
        | ok b t' =>
            rw [right] at agree
            cases agree with
            | ok related => exact next a s' t' left right related
        | error e t' =>
            rw [right] at agree
            cases agree
    | error e s' =>
        rw [left] at agree
        cases right : y t with
        | ok b t' =>
            rw [right] at agree
            cases agree
        | error f t' =>
            rw [right] at agree
            cases agree with
            | error related => exact Or.inr (.error related)

/-- Runs that agree with one run agree with each other, when the relation gives one for them. -/
theorem meet {other : EStateM.Result ε σ α} {joined : σ → σ → Prop}
    (agree : AgreeUnless excuse relation first second)
    (agree' : AgreeUnless excuse relation first other) (fine : ∀ s, first ≠ .error excuse s)
    (join : ∀ s t u, relation s t → relation s u → joined t u) : Agree joined second other := by
  rcases agree with ⟨s, excused⟩ | agree
  · exact absurd excused (fine s)
  · rcases agree' with ⟨s, excused⟩ | agree'
    · exact absurd excused (fine s)
    · cases agree with
      | ok related =>
          cases agree' with
          | ok related' => exact .ok (join _ _ _ related related')
      | error related =>
          cases agree' with
          | error related' => exact .error (join _ _ _ related related')

end AgreeUnless

end Difftest
