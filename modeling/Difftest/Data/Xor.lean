import Mathlib.Data.Nat.Bitwise
import Mathlib.Tactic

/-!
# Exclusive or of fields

Words that are combined by exclusive or.  Fields that are shifted side by side do not disturb one
another, so the combined word determines each of them.  When the words are combined in a binary
tree whose nodes are numbered like those of a heap, no number occurs twice.
-/

namespace Difftest

/-! ## Exclusive or of a list -/

/-- The exclusive or of all words. -/
def xorAll (words : List Nat) : Nat := words.foldr (· ^^^ ·) 0

@[simp]
theorem xorAll_nil : xorAll [] = 0 := rfl

@[simp]
theorem xorAll_cons (word : Nat) (words : List Nat) :
    xorAll (word :: words) = word ^^^ xorAll words :=
  rfl

theorem xorAll_append (first second : List Nat) :
    xorAll (first ++ second) = xorAll first ^^^ xorAll second := by
  induction first with
  | nil => rw [List.nil_append, xorAll_nil, Nat.zero_xor]
  | cons word first inductionHypothesis =>
      rw [List.cons_append, xorAll_cons, xorAll_cons, inductionHypothesis, Nat.xor_assoc]

theorem xorAll_lt {words : List Nat} {width : Nat} (small : ∀ word ∈ words, word < 2 ^ width) :
    xorAll words < 2 ^ width := by
  induction words with
  | nil => exact Nat.two_pow_pos width
  | cons word words inductionHypothesis =>
      rw [xorAll_cons]
      exact Nat.xor_lt_two_pow (small word List.mem_cons_self)
        (inductionHypothesis fun word mem => small word (List.mem_cons_of_mem _ mem))

/-- Words with zeros at the end have zeros at the end together. -/
theorem xorAll_mod_eq_zero {words : List Nat} {offset : Nat}
    (shifted : ∀ word ∈ words, word % 2 ^ offset = 0) : xorAll words % 2 ^ offset = 0 := by
  induction words with
  | nil => rw [xorAll_nil, Nat.zero_mod]
  | cons word words inductionHypothesis =>
      rw [xorAll_cons, Nat.xor_mod_two_pow, shifted word List.mem_cons_self,
        inductionHypothesis fun word mem => shifted word (List.mem_cons_of_mem _ mem), Nat.xor_self]

/-! ## Fields side by side -/

section Fields

variable {α : Type} (width : α → Nat)

/-- Fields that are shifted side by side from an offset on. -/
def sideBySide (value : α → Nat) : Nat → List α → List Nat
  | _, [] => []
  | offset, field :: fields =>
      value field <<< offset :: sideBySide value (offset + width field) fields

variable {width} {value value' : α → Nat}

theorem sideBySide_mod_eq_zero {offset : Nat} {fields : List α} :
    ∀ word ∈ sideBySide width value offset fields, word % 2 ^ offset = 0 := by
  induction fields generalizing offset with
  | nil => exact nofun
  | cons field fields inductionHypothesis =>
      intro word mem
      rcases List.mem_cons.mp mem with rfl | mem
      · rw [Nat.shiftLeft_eq, Nat.mul_mod_left]
      · have later := Nat.dvd_of_mod_eq_zero (inductionHypothesis word mem)
        rw [Nat.pow_add] at later
        exact Nat.mod_eq_zero_of_dvd ((Dvd.intro _ rfl).trans later)

/-- The low bits of the exclusive or are those of the first field. -/
theorem xorAll_sideBySide_mod {offset : Nat} {field : α} (small : value field < 2 ^ width field)
    (fields : List α) :
    xorAll (sideBySide width value offset (field :: fields)) % 2 ^ (offset + width field) =
      value field <<< offset := by
  have inside : value field <<< offset < 2 ^ (offset + width field) := by
    rw [Nat.shiftLeft_eq, Nat.pow_add, Nat.mul_comm]
    exact Nat.mul_lt_mul_of_pos_left small (Nat.two_pow_pos offset)
  rw [sideBySide, xorAll_cons, Nat.xor_mod_two_pow, xorAll_mod_eq_zero sideBySide_mod_eq_zero,
    Nat.xor_zero, Nat.mod_eq_of_lt inside]

/-- Fields side by side are determined by their exclusive or. -/
theorem sideBySide_injective {offset : Nat} {fields : List α}
    (small : ∀ field ∈ fields, value field < 2 ^ width field)
    (small' : ∀ field ∈ fields, value' field < 2 ^ width field)
    (same : xorAll (sideBySide width value offset fields) =
      xorAll (sideBySide width value' offset fields)) :
    ∀ field ∈ fields, value field = value' field := by
  induction fields generalizing offset with
  | nil => exact nofun
  | cons first fields inductionHypothesis =>
      have shifted : value first <<< offset = value' first <<< offset := by
        rw [← xorAll_sideBySide_mod (small first List.mem_cons_self) fields, same,
          xorAll_sideBySide_mod (small' first List.mem_cons_self) fields]
      have head : value first = value' first := by
        rw [Nat.shiftLeft_eq, Nat.shiftLeft_eq] at shifted
        exact Nat.eq_of_mul_eq_mul_right (Nat.two_pow_pos offset) shifted
      rw [sideBySide, sideBySide, xorAll_cons, xorAll_cons, shifted] at same
      have tail := inductionHypothesis (fun field mem => small field (List.mem_cons_of_mem _ mem))
        (fun field mem => small' field (List.mem_cons_of_mem _ mem)) (Nat.xor_right_inj.mp same)
      intro field mem
      rcases List.mem_cons.mp mem with rfl | mem
      · exact head
      · exact tail field mem

end Fields

/-! ## Numbers of the nodes of a binary tree -/

/-- The node is the root or lies below it, when the children of a node `n` have the numbers
`2 * n + 1` and `2 * n + 2`. -/
def Descends (root node : Nat) : Prop := ∃ depth, (node + 1) / 2 ^ depth = root + 1

namespace Descends

variable {root node : Nat}

theorem refl (root : Nat) : Descends root root := ⟨0, by rw [Nat.pow_zero, Nat.div_one]⟩

theorem le (descends : Descends root node) : root ≤ node := by
  rcases descends with ⟨depth, isRoot⟩
  have bound := Nat.div_le_self (node + 1) (2 ^ depth)
  omega

theorem of_left (descends : Descends (2 * root + 1) node) : Descends root node := by
  rcases descends with ⟨depth, isChild⟩
  refine ⟨depth + 1, ?_⟩
  rw [Nat.pow_succ, ← Nat.div_div_eq_div_mul, isChild]
  omega

theorem of_right (descends : Descends (2 * root + 2) node) : Descends root node := by
  rcases descends with ⟨depth, isChild⟩
  refine ⟨depth + 1, ?_⟩
  rw [Nat.pow_succ, ← Nat.div_div_eq_div_mul, isChild]
  omega

/-- A deeper quotient is at most half as large. -/
theorem div_le_half {depth depth' : Nat} (deeper : depth < depth') :
    (node + 1) / 2 ^ depth' ≤ (node + 1) / 2 ^ depth / 2 := by
  rw [Nat.div_div_eq_div_mul, ← Nat.pow_succ]
  exact Nat.div_le_div_left (Nat.pow_le_pow_right (by decide) deeper) (Nat.two_pow_pos _)

/-- The two subtrees of a node have no number in common. -/
theorem disjoint (left : Descends (2 * root + 1) node) : ¬ Descends (2 * root + 2) node := by
  rintro ⟨depth', isRight⟩
  rcases left with ⟨depth, isLeft⟩
  rcases Nat.lt_trichotomy depth depth' with deeper | rfl | deeper
  · have bound := @div_le_half node _ _ deeper
    omega
  · omega
  · have bound := @div_le_half node _ _ deeper
    omega

end Descends

end Difftest
