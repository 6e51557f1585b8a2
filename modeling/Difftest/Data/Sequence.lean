import Mathlib.Tactic

/-!
# Stepped ranges, signed indices and option-valued traversals

The list vocabulary of a scripting language: `range(start, stop, step)` on
natural numbers, indexing where a negative index counts from the end, and
traversals that fail at the first undefined entry.
-/

namespace Difftest

universe u v

/-- `range(start, stop, step)` for a positive step. -/
def stepRange (start stop step : Nat) : List Nat :=
  List.range' start ((stop - start + step - 1) / step) step

theorem mem_stepRange {start stop step a : Nat} (pos : 0 < step) :
    a ∈ stepRange start stop step ↔ ∃ j, a = start + step * j ∧ a < stop := by
  rw [stepRange, List.mem_range']
  constructor
  · rintro ⟨j, bound, rfl⟩
    have limit := (Nat.lt_div_iff_mul_lt pos).mp bound
    refine ⟨j, rfl, ?_⟩
    have comm : j * step = step * j := Nat.mul_comm j step
    omega
  · rintro ⟨j, rfl, bound⟩
    refine ⟨j, ?_, rfl⟩
    rw [Nat.lt_div_iff_mul_lt pos]
    have comm : j * step = step * j := Nat.mul_comm j step
    omega

/-- A range whose length is a whole number of steps. -/
theorem stepRange_add_mul (start step count : Nat) (pos : 0 < step) :
    stepRange start (start + step * count) step = List.range' start count step := by
  have count_eq : (start + step * count - start + step - 1) / step = count := by
    apply Nat.div_eq_of_lt_le
    · rw [Nat.mul_comm]
      omega
    · rw [Nat.add_mul, Nat.mul_comm]
      omega
  rw [stepRange, count_eq]

/-- `list[index]`, where a negative index counts from the end; `none` is an
`IndexError`. -/
def index? {α : Type u} (list : List α) (index : Int) : Option α :=
  if 0 ≤ index then list[index.toNat]?
  else if -index ≤ list.length then list[(list.length + index).toNat]? else none

@[simp]
theorem index?_natCast {α : Type u} (list : List α) (n : Nat) :
    index? list (n : Int) = list[n]? := by
  simp [index?]

/-- An index that does not fall outside the list is taken modulo its length. -/
theorem index?_eq_getElem?_emod {α : Type u} {list : List α} {index : Int}
    (low : -(list.length : Int) ≤ index) (high : index < list.length) :
    index? list index = list[(index % list.length).toNat]? := by
  rw [index?]
  by_cases nonneg : 0 ≤ index
  · rw [if_pos nonneg, Int.emod_eq_of_lt nonneg high]
  · rw [if_neg nonneg, if_pos (by omega), ← Int.add_emod_left, Int.emod_eq_of_lt (by omega)
      (by omega)]

theorem low_of_index? {α : Type u} {list : List α} {index : Int} {a : α}
    (found : index? list index = some a) : -(list.length : Int) ≤ index := by
  rw [index?] at found
  split at found
  · omega
  · split at found
    · omega
    · cases found

/-- A traversal whose entries are all defined returns the list of values. -/
theorem mapM_eq_some_map {α : Type u} {β : Type u} {f : α → Option β} {g : α → β}
    {list : List α} (defined : ∀ a ∈ list, f a = some (g a)) :
    list.mapM f = some (list.map g) := by
  induction list with
  | nil => rfl
  | cons a list ih =>
      rw [List.mapM_cons, defined a List.mem_cons_self,
        ih fun b mem => defined b (List.mem_cons_of_mem a mem)]
      rfl

theorem mapM_congr {α : Type u} {β : Type u} {f g : α → Option β} {list : List α}
    (same : ∀ a ∈ list, f a = g a) : list.mapM f = list.mapM g := by
  induction list with
  | nil => rfl
  | cons a list inductionHypothesis =>
      rw [List.mapM_cons, List.mapM_cons, same a List.mem_cons_self,
        inductionHypothesis fun b mem => same b (List.mem_cons_of_mem a mem)]

/-- The same for any effect: entries without an effect. -/
theorem mapM_eq_pure_map {α : Type u} {β : Type u} {m : Type u → Type v} [Monad m] [LawfulMonad m]
    {f : α → m β} {g : α → β} {list : List α} (defined : ∀ a ∈ list, f a = pure (g a)) :
    list.mapM f = pure (list.map g) := by
  induction list with
  | nil => rfl
  | cons a list ih =>
      rw [List.mapM_cons, defined a List.mem_cons_self, pure_bind,
        ih fun b mem => defined b (List.mem_cons_of_mem a mem), pure_bind]
      rfl

/-- A traversal that returns `values` computed them entry by entry. -/
theorem forall₂_of_mapM_eq_some {α : Type u} {β : Type u} {f : α → Option β}
    {list : List α} {values : List β} (traversed : list.mapM f = some values) :
    List.Forall₂ (fun a b => f a = some b) list values := by
  induction list generalizing values with
  | nil =>
      cases traversed
      exact List.Forall₂.nil
  | cons a list ih =>
      rw [List.mapM_cons] at traversed
      obtain ⟨b, first, traversed⟩ := Option.bind_eq_some_iff.mp traversed
      obtain ⟨rest, tail, traversed⟩ := Option.bind_eq_some_iff.mp traversed
      cases traversed
      exact List.Forall₂.cons first (ih tail)

theorem mapM_length {α : Type u} {β : Type u} {f : α → Option β} {list : List α}
    {values : List β} (traversed : list.mapM f = some values) : values.length = list.length :=
  (forall₂_of_mapM_eq_some traversed).length_eq.symm

theorem exists_of_mapM_eq_some {α : Type u} {β : Type u} {f : α → Option β} {list : List α}
    {values : List β} (traversed : list.mapM f = some values) {a : α} (mem : a ∈ list) :
    ∃ b ∈ values, f a = some b := by
  have pointwise := forall₂_of_mapM_eq_some traversed
  clear traversed
  induction pointwise with
  | nil => simp at mem
  | cons first _ ih =>
      rcases List.mem_cons.mp mem with rfl | mem
      · exact ⟨_, List.mem_cons_self, first⟩
      · obtain ⟨b, bMem, computed⟩ := ih mem
        exact ⟨b, List.mem_cons_of_mem _ bMem, computed⟩

/-- The values of a traversal are those of its entries. -/
theorem mem_mapM_iff {α : Type u} {β : Type u} {f : α → Option β} {list : List α}
    {values : List β} (traversed : list.mapM f = some values) (b : β) :
    b ∈ values ↔ ∃ a ∈ list, f a = some b := by
  have pointwise := forall₂_of_mapM_eq_some traversed
  clear traversed
  induction pointwise with
  | nil => simp
  | cons first _ ih => simp [ih, first, eq_comm]

/-- A traversal goes through when every entry does. -/
theorem exists_mapM_eq_some {α : Type u} {β : Type u} {f : α → Option β} {list : List α}
    (defined : ∀ a ∈ list, ∃ b, f a = some b) : ∃ values, list.mapM f = some values := by
  induction list with
  | nil => exact ⟨[], rfl⟩
  | cons a list ih =>
      obtain ⟨b, first⟩ := defined a List.mem_cons_self
      obtain ⟨rest, tail⟩ := ih fun other mem => defined other (List.mem_cons_of_mem a mem)
      refine ⟨b :: rest, ?_⟩
      rw [List.mapM_cons, first, tail]
      rfl

/-- A traversal that concatenates returns nothing exactly when no entry does. -/
theorem mapM_flatten_eq_nil_iff {α : Type u} {β : Type v} {f : α → Option (List β)}
    {list : List α} :
    (do let values ← list.mapM f; some values.flatten) = some [] ↔
      ∀ a ∈ list, f a = some [] := by
  induction list with
  | nil => simp
  | cons a list ih =>
      rw [List.forall_mem_cons, ← ih, List.mapM_cons]
      cases first : f a with
      | none => simp
      | some values =>
          cases rest : list.mapM f with
          | none => simp
          | some others => simp

/-! ## Related lists -/

theorem exists_of_forall₂ {α β : Type} {R : α → β → Prop} {first : List α} {second : List β}
    (related : List.Forall₂ R first second) {b : β} (mem : b ∈ second) : ∃ a ∈ first, R a b := by
  induction related with
  | nil => cases mem
  | cons head _ ih =>
      rcases List.mem_cons.mp mem with rfl | later
      · exact ⟨_, List.mem_cons_self, head⟩
      · rcases ih later with ⟨a, isFirst, rel⟩
        exact ⟨a, List.mem_cons_of_mem _ isFirst, rel⟩

theorem exists_right_of_forall₂ {α β : Type} {R : α → β → Prop} {first : List α} {second : List β}
    (related : List.Forall₂ R first second) {a : α} (mem : a ∈ first) : ∃ b ∈ second, R a b := by
  rcases exists_of_forall₂ related.flip mem with ⟨b, isSecond, rel⟩
  exact ⟨b, isSecond, rel⟩

/-- Related lists are related at every index. -/
theorem getElem?_of_forall₂ {α β : Type} {R : α → β → Prop} {first : List α} {second : List β}
    (related : List.Forall₂ R first second) {i : Nat} {b : β} (isSecond : second[i]? = some b) :
    ∃ a, first[i]? = some a ∧ R a b := by
  induction related generalizing i with
  | nil => cases isSecond
  | cons head _ inductionHypothesis =>
      cases i with
      | zero =>
          cases isSecond
          exact ⟨_, rfl, head⟩
      | succ i => exact inductionHypothesis isSecond

/-- Looking up a key that no two entries share finds the entry with that key. -/
theorem find?_eq_some_iff_of_unique {α β : Type} [DecidableEq β] {key : α → β} {list : List α}
    (unique : ∀ a ∈ list, ∀ a' ∈ list, key a = key a' → a = a') {b : β} {a : α} :
    list.find? (fun a => key a = b) = some a ↔ a ∈ list ∧ key a = b := by
  constructor
  · intro found
    have isKey := List.find?_some found
    rw [decide_eq_true_eq] at isKey
    exact ⟨List.mem_of_find?_eq_some found, isKey⟩
  · rintro ⟨mem, isKey⟩
    cases found : list.find? (fun a => key a = b) with
    | none =>
        have other := List.find?_eq_none.mp found a mem
        rw [decide_eq_true_eq] at other
        exact absurd isKey other
    | some a' =>
        have isKey' := List.find?_some found
        rw [decide_eq_true_eq] at isKey'
        rw [unique a mem a' (List.mem_of_find?_eq_some found) (isKey.trans isKey'.symm)]

/-- What holds of some partner of every entry holds of a list of partners. -/
theorem exists_forall₂ {α β : Type} {R : α → β → Prop} {list : List α}
    (each : ∀ a ∈ list, ∃ b, R a b) : ∃ partners, List.Forall₂ R list partners := by
  induction list with
  | nil => exact ⟨[], List.Forall₂.nil⟩
  | cons a list inductionHypothesis =>
      rcases each a List.mem_cons_self with ⟨b, first⟩
      rcases inductionHypothesis fun other mem => each other (List.mem_cons_of_mem a mem) with
        ⟨partners, rest⟩
      exact ⟨b :: partners, List.Forall₂.cons first rest⟩

end Difftest
