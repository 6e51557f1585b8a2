import Mathlib.Tactic

/-!
# Computations on a tape of random numbers

A program that draws random numbers is a function of the numbers it will draw.  What
holds on every tape holds for every run of the program.  `none` is a raised exception.
-/

namespace Difftest

/-- A computation that draws from a tape of random numbers. -/
abbrev Random := StateT (List Nat) Option

namespace Random

/-- A raised exception. -/
def raise {α : Type} : Random α := fun _ => none

/-- A value or a raised exception. -/
def ofOption {α : Type} (value : Option α) : Random α := fun tape => value.map fun a => (a, tape)

/-- A value that is there is passed on. -/
@[simp]
theorem ofOption_some_bind {α β : Type} (value : α) (next : α → Random β) :
    (ofOption (some value) >>= next) = next value := rfl

@[simp]
theorem ofOption_none_bind {α β : Type} (next : α → Random β) :
    ((ofOption none : Random α) >>= next) = raise := rfl

/-- The steps of a computation that returns. -/
theorem bind_eq_some_iff {α β : Type} {first : Random α} {next : α → Random β}
    {tape tape' : List Nat} {value : β} :
    (first >>= next) tape = some (value, tape') ↔
      ∃ between middle, first tape = some (between, middle) ∧
        next between middle = some (value, tape') := by
  change (first tape).bind (fun result => next result.1 result.2) = some (value, tape') ↔ _
  rw [Option.bind_eq_some_iff]
  exact Prod.exists

theorem ofOption_eq_some_iff {α : Type} {result : Option α} {tape tape' : List Nat} {value : α} :
    ofOption result tape = some (value, tape') ↔ result = some value ∧ tape = tape' := by
  rw [ofOption, Option.map_eq_some_iff]
  constructor
  · rintro ⟨original, isSome, same⟩
    cases same
    exact ⟨isSome, rfl⟩
  · rintro ⟨isSome, rfl⟩
    exact ⟨value, isSome, rfl⟩

/-- What a computation with a changed value returns. -/
theorem map_eq_some_iff {α β : Type} {f : α → β} {first : Random α} {tape tape' : List Nat}
    {value : β} :
    StateT.map f first tape = some (value, tape') ↔
      ∃ original, first tape = some (original, tape') ∧ f original = value := by
  change (first tape).bind (fun result => some (f result.1, result.2)) = some (value, tape') ↔ _
  rw [Option.bind_eq_some_iff]
  constructor
  · rintro ⟨⟨original, _⟩, computed, same⟩
    cases same
    exact ⟨original, computed, rfl⟩
  · rintro ⟨original, computed, rfl⟩
    exact ⟨_, computed, rfl⟩

/-- The next number of the tape. -/
def draw : Random Nat := fun tape =>
  match tape with
  | [] => some (0, [])
  | first :: rest => some (first, rest)

/-- `random.randint(low, high)`. -/
def randint (low high : Nat) : Random Nat :=
  if high < low then raise else draw.map fun r => low + r % (high - low + 1)

/-- `random.choice(list)`. -/
def choice {α : Type} (list : List α) : Random α := do
  let n ← draw
  ofOption (list[n % list.length]?)

/-- `random.random()` in hundredths. -/
def hundredths : Random Nat := draw.map (· % 100)

/-- A drawn entry is an entry of the list. -/
theorem mem_of_choice {α : Type} {list : List α} {value : α} {tape tape' : List Nat}
    (drawn : choice list tape = some (value, tape')) : value ∈ list := by
  rw [choice, bind_eq_some_iff] at drawn
  rcases drawn with ⟨n, middle, _, drawn⟩
  exact List.mem_of_getElem? (ofOption_eq_some_iff.mp drawn).1

/-- A drawn number lies between the bounds. -/
theorem bounds_of_randint {low high n : Nat} {tape tape' : List Nat}
    (drawn : randint low high tape = some (n, tape')) : low ≤ n ∧ n ≤ high := by
  rw [randint] at drawn
  split at drawn
  · cases drawn
  · rename_i ordered
    rcases map_eq_some_iff.mp drawn with ⟨r, _, rfl⟩
    have small : r % (high - low + 1) < high - low + 1 := Nat.mod_lt _ (Nat.succ_pos _)
    omega

/-- A traversal that returns computed its values entry by entry. -/
theorem forall₂_of_mapM {α β : Type} {f : α → Random β} {list : List α} {values : List β}
    {tape tape' : List Nat} (traversed : list.mapM f tape = some (values, tape')) :
    List.Forall₂ (fun a b => ∃ before after, f a before = some (b, after)) list values := by
  induction list generalizing values tape with
  | nil =>
      cases traversed
      exact List.Forall₂.nil
  | cons a list ih =>
      rw [List.mapM_cons, bind_eq_some_iff] at traversed
      rcases traversed with ⟨b, middle, first, traversed⟩
      rw [bind_eq_some_iff] at traversed
      rcases traversed with ⟨rest, last, tail, returned⟩
      cases returned
      exact List.Forall₂.cons ⟨tape, middle, first⟩ (ih tail)

/-! ## What a computation may return -/

/-- The value is returned on some tape. -/
def Returns {α : Type} (computation : Random α) (value : α) : Prop :=
  ∃ tape tape', computation tape = some (value, tape')

theorem Returns.bind {α β : Type} {first : Random α} {next : α → Random β} {value : β}
    (returned : Returns (first >>= next) value) :
    ∃ between, Returns first between ∧ Returns (next between) value := by
  rcases returned with ⟨tape, tape', returned⟩
  rcases bind_eq_some_iff.mp returned with ⟨between, middle, start, rest⟩
  exact ⟨between, ⟨tape, middle, start⟩, ⟨middle, tape', rest⟩⟩

theorem Returns.map {α β : Type} {f : α → β} {first : Random α} {value : β}
    (returned : Returns (f <$> first) value) : ∃ original, Returns first original ∧
      f original = value := by
  rcases returned with ⟨tape, tape', returned⟩
  rcases map_eq_some_iff.mp returned with ⟨original, start, same⟩
  exact ⟨original, ⟨tape, tape', start⟩, same⟩

@[simp]
theorem returns_pure {α : Type} {value other : α} :
    Returns (pure value : Random α) other ↔ other = value := by
  constructor
  · rintro ⟨tape, tape', same⟩
    cases same
    rfl
  · rintro rfl
    exact ⟨[], [], rfl⟩

@[simp]
theorem returns_ofOption {α : Type} {result : Option α} {value : α} :
    Returns (ofOption result) value ↔ result = some value := by
  constructor
  · rintro ⟨tape, tape', same⟩
    exact (ofOption_eq_some_iff.mp same).1
  · intro isSome
    exact ⟨[], [], ofOption_eq_some_iff.mpr ⟨isSome, rfl⟩⟩

@[simp]
theorem not_returns_raise {α : Type} {value : α} : ¬ Returns raise value := by
  rintro ⟨_, _, same⟩
  cases same

theorem Returns.choice {α : Type} {list : List α} {value : α}
    (drawn : Returns (Random.choice list) value) : value ∈ list := by
  rcases drawn with ⟨_, _, drawn⟩
  exact mem_of_choice drawn

theorem Returns.randint {low high n : Nat} (drawn : Returns (Random.randint low high) n) :
    low ≤ n ∧ n ≤ high := by
  rcases drawn with ⟨_, _, drawn⟩
  exact bounds_of_randint drawn

/-- A traversal that returns may have returned its values entry by entry. -/
theorem Returns.mapM {α β : Type} {f : α → Random β} {list : List α} {values : List β}
    (traversed : Returns (list.mapM f) values) :
    List.Forall₂ (fun a b => Returns (f a) b) list values := by
  rcases traversed with ⟨_, _, traversed⟩
  exact forall₂_of_mapM traversed

/-! ## Computations that do not raise -/

/-- A value is returned on every tape. -/
def Total {α : Type} (computation : Random α) : Prop :=
  ∀ tape, ∃ value tape', computation tape = some (value, tape')

theorem total_pure {α : Type} (value : α) : Total (pure value) := fun tape => ⟨value, tape, rfl⟩

theorem total_draw : Total draw := by
  intro tape
  cases tape with
  | nil => exact ⟨0, [], rfl⟩
  | cons first rest => exact ⟨first, rest, rfl⟩

theorem Total.bind {α β : Type} {first : Random α} {next : α → Random β} (start : Total first)
    (rest : ∀ value, Returns first value → Total (next value)) : Total (first >>= next) := by
  intro tape
  rcases start tape with ⟨value, middle, computed⟩
  rcases rest value ⟨tape, middle, computed⟩ middle with ⟨result, tape', returned⟩
  exact ⟨result, tape', bind_eq_some_iff.mpr ⟨value, middle, computed, returned⟩⟩

theorem Total.map {α β : Type} {first : Random α} (start : Total first) (f : α → β) :
    Total (StateT.map f first) := by
  intro tape
  rcases start tape with ⟨value, tape', computed⟩
  exact ⟨f value, tape', map_eq_some_iff.mpr ⟨value, computed, rfl⟩⟩

theorem total_randint {low high : Nat} (ordered : low ≤ high) : Total (Random.randint low high) := by
  rw [Random.randint, if_neg (Nat.not_lt.mpr ordered)]
  exact total_draw.map _

theorem total_mapM {α β : Type} {f : α → Random β} {list : List α}
    (each : ∀ a ∈ list, Total (f a)) : Total (list.mapM f) := by
  induction list with
  | nil => exact total_pure []
  | cons a list ih =>
      rw [List.mapM_cons]
      apply (each a List.mem_cons_self).bind
      intro b _
      apply (ih fun other mem => each other (List.mem_cons_of_mem a mem)).bind
      intro rest _
      exact total_pure _

end Random

end Difftest
