import Mathlib.Logic.Function.Basic
import Mathlib.Logic.Relation

/-!
# Resources guarded by a semaphore

Processes take turns with a resource: a process lowers the semaphore before it works with
the resource and raises it afterwards.  When the semaphore starts at one, at most one process
is inside at any time.  What holds of the free resource and what the process inside knows of
it are kept by every step as soon as they are kept by the steps of one process alone.
-/

namespace Difftest.Semaphore

/-- A semaphore, the resource that it guards and the local state of each process inside. -/
structure Guarded (π : Type*) (ρ : Type*) (σ : Type*) where
  value : Nat
  resource : ρ
  inside : π → Option σ

/-- What one process does: how it enters, works with the resource and leaves. -/
structure Protocol (ρ : Type*) (σ : Type*) where
  enter : σ → Prop
  work : σ → ρ → σ → ρ → Prop
  leave : σ → ρ → ρ → Prop

variable {π : Type*} {ρ : Type*} {σ : Type*}

/-- One process alone keeps what holds of the free resource and what it knows inside. -/
structure Protocol.Keeps (protocol : Protocol ρ σ) (Free : ρ → Prop) (Held : σ → ρ → Prop) :
    Prop where
  enter {state : σ} {resource : ρ} :
    protocol.enter state → Free resource → Held state resource
  work {state state' : σ} {resource resource' : ρ} :
    Held state resource → protocol.work state resource state' resource' → Held state' resource'
  leave {state : σ} {resource resource' : ρ} :
    Held state resource → protocol.leave state resource resource' → Free resource'

/-- Nobody is inside and the semaphore is raised, or one process is inside and it is not. -/
inductive Excludes (Free : ρ → Prop) (Held : σ → ρ → Prop) (guarded : Guarded π ρ σ) : Prop where
  | free (raised : guarded.value = 1) (outside : ∀ process, guarded.inside process = none)
      (isFree : Free guarded.resource) : Excludes Free Held guarded
  | held {process : π} {state : σ} (lowered : guarded.value = 0)
      (isInside : guarded.inside process = some state)
      (others : ∀ other, other ≠ process → guarded.inside other = none)
      (isHeld : Held state guarded.resource) : Excludes Free Held guarded

variable {protocol : Protocol ρ σ} {Free : ρ → Prop} {Held : σ → ρ → Prop}
  {guarded guarded' : Guarded π ρ σ}

/-- The process inside is the only one. -/
theorem Excludes.unique (excludes : Excludes Free Held guarded) {first second : π} {s t : σ}
    (firstInside : guarded.inside first = some s) (secondInside : guarded.inside second = some t) :
    first = second := by
  cases excludes with
  | free _ outside _ => exact absurd ((outside first).symm.trans firstInside) (by simp)
  | held _ _ others _ =>
      have isFirst := not_imp_comm.mp (others first) (by simp [firstInside])
      have isSecond := not_imp_comm.mp (others second) (by simp [secondInside])
      exact isFirst.trans isSecond.symm

/-- What the process inside knows. -/
theorem Excludes.of_inside (excludes : Excludes Free Held guarded) {process : π} {state : σ}
    (isInside : guarded.inside process = some state) :
    guarded.value = 0 ∧ Held state guarded.resource := by
  cases excludes with
  | free _ outside _ => exact absurd ((outside process).symm.trans isInside) (by simp)
  | @held holder known lowered holderInside others isHeld =>
      have isHolder : process = holder := not_imp_comm.mp (others process) (by simp [isInside])
      rw [isHolder] at isInside
      cases Option.some.inj (isInside.symm.trans holderInside)
      exact ⟨lowered, isHeld⟩

/-- The resource is free when all are outside. -/
theorem Excludes.of_outside (excludes : Excludes Free Held guarded)
    (outside : ∀ process, guarded.inside process = none) : Free guarded.resource := by
  cases excludes with
  | free _ _ isFree => exact isFree
  | held _ isInside _ _ => exact absurd ((outside _).symm.trans isInside) (by simp)

/-- The resource is free when the semaphore is raised. -/
theorem Excludes.of_positive (excludes : Excludes Free Held guarded)
    (positive : 0 < guarded.value) :
    guarded.value = 1 ∧ (∀ process, guarded.inside process = none) ∧ Free guarded.resource := by
  cases excludes with
  | free raised outside isFree => exact ⟨raised, outside, isFree⟩
  | held lowered _ _ _ => exact absurd lowered (Nat.ne_of_gt positive)

/-- Nobody else is inside. -/
theorem Excludes.others (excludes : Excludes Free Held guarded) {process other : π} {state : σ}
    (isInside : guarded.inside process = some state) (ne : other ≠ process) :
    guarded.inside other = none := by
  cases otherInside : guarded.inside other with
  | none => rfl
  | some known => exact absurd (excludes.unique otherInside isInside) ne

/-! ## Steps -/

variable [DecidableEq π]

/-- The steps of any process. -/
inductive Step (protocol : Protocol ρ σ) : Guarded π ρ σ → Guarded π ρ σ → Prop where
  | acquire {guarded : Guarded π ρ σ} {process : π} {state : σ}
      (outside : guarded.inside process = none) (positive : 0 < guarded.value)
      (enters : protocol.enter state) :
      Step protocol guarded
        ⟨guarded.value - 1, guarded.resource,
          Function.update guarded.inside process (some state)⟩
  | work {guarded : Guarded π ρ σ} {process : π} {state state' : σ} {resource : ρ}
      (isInside : guarded.inside process = some state)
      (works : protocol.work state guarded.resource state' resource) :
      Step protocol guarded
        ⟨guarded.value, resource, Function.update guarded.inside process (some state')⟩
  | release {guarded : Guarded π ρ σ} {process : π} {state : σ} {resource : ρ}
      (isInside : guarded.inside process = some state)
      (leaves : protocol.leave state guarded.resource resource) :
      Step protocol guarded
        ⟨guarded.value + 1, resource, Function.update guarded.inside process none⟩

/-- Every step keeps the exclusion. -/
theorem Excludes.step (keeps : protocol.Keeps Free Held) (excludes : Excludes Free Held guarded)
    (step : Step protocol guarded guarded') : Excludes Free Held guarded' := by
  cases step with
  | @acquire process state outside positive enters =>
      rcases excludes.of_positive positive with ⟨raised, allOutside, isFree⟩
      apply @Excludes.held _ _ _ _ _ _ process
      · exact congrArg (· - 1) raised
      · exact Function.update_self process _ _
      · intro other ne
        exact (Function.update_of_ne ne _ _).trans (allOutside other)
      · exact keeps.enter enters isFree
  | @work process state state' resource isInside works =>
      have known := excludes.of_inside isInside
      apply @Excludes.held _ _ _ _ _ _ process
      · exact known.1
      · exact Function.update_self process _ _
      · intro other ne
        exact (Function.update_of_ne ne _ _).trans (excludes.others isInside ne)
      · exact keeps.work known.2 works
  | @release process state resource isInside leaves =>
      have known := excludes.of_inside isInside
      apply Excludes.free
      · exact congrArg (· + 1) known.1
      · intro other
        by_cases same : other = process
        · rw [same]
          exact Function.update_self process _ _
        · exact (Function.update_of_ne same _ _).trans (excludes.others isInside same)
      · exact keeps.leave known.2 leaves

/-- Every run keeps the exclusion. -/
theorem Excludes.run (keeps : protocol.Keeps Free Held) (excludes : Excludes Free Held guarded)
    (run : Relation.ReflTransGen (Step protocol) guarded guarded') :
    Excludes Free Held guarded' := by
  induction run with
  | refl => exact excludes
  | tail _ step inductionHypothesis => exact inductionHypothesis.step keeps step

end Difftest.Semaphore
