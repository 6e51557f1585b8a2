import Difftest.Fuzzer.Minimizer

/-!
# Windows of one level

At every level the windows cut the words of a part: each word lies in exactly one window, and
no window is empty.  The last window takes the words that are left over.
-/

namespace Difftest.Fuzzer.Minimizer

variable {len i j k : Nat}

theorem numNop_pos (nonempty : 1 ≤ len) (i : Nat) : 0 < numNop len i := by
  apply Nat.div_pos (min_le_right _ _)
  exact lt_min (Nat.two_pow_pos _) nonempty

theorem numNop_le (len i : Nat) : numNop len i ≤ len := Nat.div_le_self _ _

theorem numTest_pos (nonempty : 1 ≤ len) (i : Nat) : 0 < numTest len i :=
  Nat.div_pos (numNop_le len i) (numNop_pos nonempty i)

/-- The first word of a window is a word of the part. -/
theorem numNop_mul_lt (nonempty : 1 ≤ len) (small : j < numTest len i) : numNop len i * j < len := by
  calc
    numNop len i * j < numNop len i * (j + 1) :=
      Nat.mul_lt_mul_of_pos_left (Nat.lt_succ_self j) (numNop_pos nonempty i)
    _ ≤ numNop len i * numTest len i := Nat.mul_le_mul_left _ small
    _ ≤ len := Nat.mul_div_le len (numNop len i)

/-- The words of a window: those behind its start, and in front of the next one if there is
one. -/
theorem getElem?_window (inside : k < len) (small : j < numTest len i) :
    (window len i j)[k]? = some true ↔
      numNop len i * j ≤ k ∧ (j + 1 = numTest len i ∨ k < numNop len i * (j + 1)) := by
  have length := length_window small
  rw [window] at length ⊢
  by_cases before : k < numNop len i * j
  · rw [List.getElem?_append_left (by rwa [List.length_replicate]),
      List.getElem?_replicate_of_lt before]
    constructor
    · intro isTrue
      cases isTrue
    · exact fun within => absurd within.1 (Nat.not_le.mpr before)
  · have behind : numNop len i * j ≤ k := Nat.not_lt.mp before
    rw [List.getElem?_append_right (by rwa [List.length_replicate]), List.length_replicate]
    by_cases isLast : j + 1 = numTest len i
    · have last : ¬ j ≠ numTest len i - 1 := not_not.mpr (Nat.eq_sub_of_add_eq isLast)
      rw [if_neg last, List.length_append, List.length_replicate, List.length_replicate] at length
      rw [if_neg last, List.getElem?_replicate_of_lt (Nat.sub_lt_left_of_lt_add behind
        (length.symm ▸ inside))]
      exact iff_of_true rfl ⟨behind, Or.inl isLast⟩
    · have notLast : j ≠ numTest len i - 1 := fun same => isLast (by
        rw [same, Nat.sub_add_cancel (Nat.one_le_of_lt small)])
      rw [if_pos notLast]
      by_cases within : k < numNop len i * (j + 1)
      · have offset : k - numNop len i * j < numNop len i :=
          Nat.sub_lt_left_of_lt_add behind within
        rw [List.getElem?_append_left (by rwa [List.length_replicate]),
          List.getElem?_replicate_of_lt offset]
        exact iff_of_true rfl ⟨behind, Or.inr within⟩
      · have beyond : numNop len i ≤ k - numNop len i * j :=
          Nat.le_sub_of_add_le' (Nat.not_lt.mp within)
        rw [List.getElem?_append_right (by rwa [List.length_replicate])]
        constructor
        · intro isTrue
          have mem := List.mem_of_getElem? isTrue
          exact absurd (List.eq_of_mem_replicate mem) Bool.true_eq_false.mp
        · exact fun both => absurd both.2 (not_or.mpr ⟨isLast, within⟩)

/-- The only window of a word. -/
theorem getElem?_window_iff (nonempty : 1 ≤ len) (inside : k < len) (small : j < numTest len i) :
    (window len i j)[k]? = some true ↔ j = min (k / numNop len i) (numTest len i - 1) := by
  have positive := numNop_pos nonempty i
  rw [getElem?_window inside small, mul_comm, mul_comm (numNop len i) (j + 1),
    ← Nat.le_div_iff_mul_le positive, ← Nat.div_lt_iff_lt_mul positive]
  omega

/-- At every level the windows have the length of the part, none is empty, and every word is
in exactly one of them.  Adding a window to a mask of the part keeps its length. -/
theorem windows_partition (nonempty : 1 ≤ len) (i : Nat) :
    (∀ j < numTest len i, (window len i j).length = len ∧
      (∃ k < len, (window len i j)[k]? = some true) ∧
      ∀ mask : List Bool, mask.length = len →
        (List.zipWith (· || ·) (window len i j) mask).length = len) ∧
      ∀ k < len, ∃! j, j < numTest len i ∧ (window len i j)[k]? = some true := by
  constructor
  · intro j small
    refine ⟨length_window small, ?_, ?_⟩
    · have first := numNop_mul_lt nonempty small
      refine ⟨numNop len i * j, first, (getElem?_window first small).mpr ⟨le_rfl, Or.inr ?_⟩⟩
      exact Nat.mul_lt_mul_of_pos_left (Nat.lt_succ_self j) (numNop_pos nonempty i)
    · intro mask length
      rw [List.length_zipWith, length_window small, length, min_self]
  · intro k inside
    have last : numTest len i - 1 < numTest len i := Nat.sub_one_lt (numTest_pos nonempty i).ne'
    have small : min (k / numNop len i) (numTest len i - 1) < numTest len i :=
      (min_le_right _ _).trans_lt last
    refine ⟨_, ⟨small, (getElem?_window_iff nonempty inside small).mpr rfl⟩, ?_⟩
    rintro j ⟨isTest, isTrue⟩
    exact (getElem?_window_iff nonempty inside isTest).mp isTrue

/-- Seven words are cut into three and four at the first level. -/
theorem windows_partition_seven :
    1 ≤ 7 ∧ levels 7 = 2 ∧ numTest 7 0 = 2 ∧ (window 7 0 1).length = 7 ∧
      ∃! j, j < numTest 7 0 ∧ (window 7 0 j)[6]? = some true := by
  have partition := @windows_partition 7 (by decide) 0
  exact ⟨by decide, by decide, by decide, (partition.1 1 (by decide)).1,
    partition.2 6 (by decide)⟩

end Difftest.Fuzzer.Minimizer
