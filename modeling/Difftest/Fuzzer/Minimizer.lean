import Difftest.Data.Greedy
import Difftest.Fuzzer.Word

/-!
# The mask schedule of the minimiser

The words of a part are masked in windows that get half as long at every level, and a mask
is kept when the masked input still mismatches.  The last level tries every single word, but
a part of one word has no level at all.  In the suffix one more trial deletes the masked
words; when it is accepted, the mask that was tried last is taken as the kept one.
-/

namespace Difftest.Fuzzer.Minimizer

/-! ## The schedule -/

/-- The mask that is kept and the one that was tried last. -/
structure Trials where
  minMask : List Bool
  tmpMask : List Bool
deriving DecidableEq

/-- `num_nop`: the length of a window. -/
def numNop (len i : Nat) : Nat := len / min (2 ^ (i + 1)) len

/-- `num_test`: the number of windows. -/
def numTest (len i : Nat) : Nat := len / numNop len i

/-- A window as a mask; the last one also covers the rest. -/
def window (len i j : Nat) : List Bool :=
  List.replicate (numNop len i * j) false ++
    if j ≠ numTest len i - 1 then
      List.replicate (numNop len i) true ++ List.replicate (len - numNop len i * (j + 1)) false
    else List.replicate (numNop len i + len % numNop len i) true

/-- `int(math.log(len_mask, 2))`. -/
def levels (len : Nat) : Nat := Nat.log 2 len

variable (mismatches deletedMismatches : List Bool → Bool)

/-- One trial: the window is added to the kept mask.  A mask that adds nothing is skipped. -/
def tryWindow (len i : Nat) (trials : Trials) (j : Nat) : Trials :=
  let tmpMask := List.zipWith (· || ·) (window len i j) trials.minMask
  if tmpMask = trials.minMask then { trials with tmpMask }
  else if mismatches tmpMask = true then ⟨tmpMask, tmpMask⟩
  else { trials with tmpMask }

/-- The trial with the masked words deleted. -/
def tryDeletion (trials : Trials) : Trials :=
  if deletedMismatches trials.minMask = true then { trials with minMask := trials.tmpMask }
  else trials

/-- The windows of one level. -/
def runLevel (len : Nat) (trials : Trials) (i : Nat) : Trials :=
  (List.range (numTest len i)).foldl (tryWindow mismatches len i) trials

/-- No word is masked. -/
def unmasked (len : Nat) : Trials := ⟨List.replicate len false, List.replicate len false⟩

/-- `Minimize` on one part. -/
def minimize (part : Part) (len : Nat) : Trials :=
  (List.range (levels len)).foldl (fun trials i =>
    let trials := runLevel mismatches len trials i
    if part = .suf ∧ i = levels len - 1 then tryDeletion deletedMismatches trials else trials)
    (unmasked len)

/-- The windows of all levels. -/
def windows (len : Nat) : Trials :=
  (List.range (levels len)).foldl (runLevel mismatches len) (unmasked len)

/-! ## Masks -/

/-- Every word that the first mask masks is masked by the second. -/
def Below : List Bool → List Bool → Prop := List.Forall₂ fun a b => a = true → b = true

theorem below_refl (mask : List Bool) : Below mask mask :=
  List.forall₂_same.mpr fun _ _ => id

theorem Below.trans {first second third : List Bool} (left : Below first second)
    (right : Below second third) : Below first third := by
  induction left generalizing third with
  | nil => exact right
  | cons head _ ih =>
      rcases right with _ | ⟨head', rest⟩
      exact List.Forall₂.cons (head' ∘ head) (ih rest)

theorem below_set (k : Nat) (mask : List Bool) : Below mask (mask.set k true) := by
  induction mask generalizing k with
  | nil => exact List.Forall₂.nil
  | cons b mask ih =>
      cases k with
      | zero => exact List.Forall₂.cons (fun _ => rfl) (below_refl mask)
      | succ k => exact List.Forall₂.cons id (ih k)

theorem Below.set (k : Nat) {first second : List Bool} (below : Below first second) :
    Below (first.set k true) (second.set k true) := by
  induction below generalizing k with
  | nil => exact List.Forall₂.nil
  | cons head rest ih =>
      cases k with
      | zero => exact List.Forall₂.cons (fun _ => rfl) rest
      | succ k => exact List.Forall₂.cons head (ih k)

theorem Below.getElem? {k : Nat} {first second : List Bool} (below : Below first second)
    (isTrue : first[k]? = some true) : second[k]? = some true := by
  induction below generalizing k with
  | nil => cases isTrue
  | cons head _ ih =>
      cases k with
      | zero => exact congrArg some (head (Option.some.inj isTrue))
      | succ k => exact ih isTrue

/-- Adding no word to a mask. -/
theorem zipWith_or_replicate {len : Nat} {mask : List Bool} (length : mask.length = len) :
    List.zipWith (· || ·) (List.replicate len false) mask = mask := by
  subst length
  induction mask with
  | nil => rfl
  | cons b mask ih =>
      rw [List.length_cons, List.replicate_succ, List.zipWith_cons_cons, Bool.false_or, ih]

/-- Adding one word to a mask. -/
theorem zipWith_or_set {len : Nat} {mask : List Bool} (length : mask.length = len) (j : Nat) :
    List.zipWith (· || ·) ((List.replicate len false).set j true) mask = mask.set j true := by
  subst length
  induction mask generalizing j with
  | nil => rfl
  | cons b mask ih =>
      rw [List.length_cons, List.replicate_succ]
      cases j with
      | zero =>
          rw [List.set_cons_zero, List.set_cons_zero, List.zipWith_cons_cons, Bool.true_or,
            zipWith_or_replicate rfl]
      | succ j =>
          rw [List.set_cons_succ, List.set_cons_succ, List.zipWith_cons_cons, Bool.false_or, ih]

/-! ## The last level -/

section

variable {len : Nat} (many : 2 ≤ len)

include many

theorem numNop_last : numNop len (levels len - 1) = 1 := by
  have positive : levels len ≠ 0 := (Nat.log_pos one_lt_two many).ne'
  have nonzero : len ≠ 0 := by omega
  have low : 2 ^ levels len ≤ len := Nat.pow_log_le_self 2 nonzero
  have high : len < 2 ^ (levels len + 1) := Nat.lt_pow_succ_log_self one_lt_two len
  rw [numNop, Nat.sub_add_cancel (Nat.one_le_iff_ne_zero.mpr positive), min_eq_left low]
  apply Nat.div_eq_of_lt_le
  · rwa [one_mul]
  · rwa [← pow_succ']

theorem numTest_last : numTest len (levels len - 1) = len := by
  rw [numTest, numNop_last many, Nat.div_one]

/-- The windows of the last level are the single words. -/
theorem window_last {j : Nat} (small : j < len) :
    window len (levels len - 1) j = (List.replicate len false).set j true := by
  have front : (List.replicate len false).take j = List.replicate j false := by
    rw [List.take_replicate, min_eq_left small.le]
  have back : (List.replicate len false).drop (j + 1) = List.replicate (len - (j + 1)) false :=
    List.drop_replicate
  have single : (List.replicate len false).set j true =
      List.replicate j false ++ true :: List.replicate (len - (j + 1)) false := by
    rw [List.set_eq_take_append_cons_drop, if_pos (by rwa [List.length_replicate]), front, back]
  rw [window, numNop_last many, numTest_last many, one_mul, one_mul, Nat.mod_one, single]
  split
  · rfl
  · rename_i isLast
    have last : j + 1 = len := by omega
    rw [last, Nat.sub_self]
    rfl

end

/-! ## Trials -/

section

variable {mismatches : List Bool → Bool} {len : Nat}

/-- The kept mask has one entry for each word and mismatches. -/
structure Kept (mismatches : List Bool → Bool) (len : Nat) (mask : List Bool) : Prop where
  length : mask.length = len
  holds : mismatches mask = true

theorem length_window {i j : Nat} (small : j < numTest len i) : (window len i j).length = len := by
  have fits : numNop len i * (j + 1) ≤ len :=
    (Nat.mul_le_mul_left _ small).trans (Nat.mul_div_le len (numNop len i))
  rw [window, List.length_append, List.length_replicate]
  split
  · rw [List.length_append, List.length_replicate, List.length_replicate, ← Nat.add_assoc,
      ← Nat.mul_succ]
    exact Nat.add_sub_cancel' fits
  · rename_i isLast
    have last : j + 1 = numTest len i := by omega
    rw [List.length_replicate, ← Nat.add_assoc, ← Nat.mul_succ, Nat.succ_eq_add_one, last]
    exact Nat.div_add_mod len (numNop len i)

/-- Every trial keeps a mask that mismatches. -/
theorem tryWindow_kept {i j : Nat} {trials : Trials} (small : j < numTest len i)
    (kept : Kept mismatches len trials.minMask) :
    Kept mismatches len (tryWindow mismatches len i trials j).minMask := by
  rw [tryWindow]
  split
  · exact kept
  · split
    · rename_i accepted
      refine ⟨?_, accepted⟩
      rw [List.length_zipWith, length_window small, kept.length, min_self]
    · exact kept

theorem foldl_tryWindow_kept {i : Nat} {js : List Nat} (small : ∀ j ∈ js, j < numTest len i)
    {trials : Trials} (kept : Kept mismatches len trials.minMask) :
    Kept mismatches len (js.foldl (tryWindow mismatches len i) trials).minMask := by
  induction js generalizing trials with
  | nil => exact kept
  | cons j js ih =>
      exact ih (fun other mem => small other (List.mem_cons_of_mem j mem))
        (tryWindow_kept (small j List.mem_cons_self) kept)

theorem runLevel_kept (i : Nat) {trials : Trials} (kept : Kept mismatches len trials.minMask) :
    Kept mismatches len (runLevel mismatches len trials i).minMask :=
  foldl_tryWindow_kept (fun _ mem => List.mem_range.mp mem) kept

theorem foldl_runLevel_kept (is : List Nat) {trials : Trials}
    (kept : Kept mismatches len trials.minMask) :
    Kept mismatches len (is.foldl (runLevel mismatches len) trials).minMask := by
  induction is generalizing trials with
  | nil => exact kept
  | cons i is ih => exact ih (runLevel_kept i kept)

/-- A trial of the last level adds one word when the result mismatches. -/
theorem tryWindow_last (many : 2 ≤ len) {j : Nat} (small : j < len) {trials : Trials}
    (kept : Kept mismatches len trials.minMask) :
    (tryWindow mismatches len (levels len - 1) trials j).minMask =
        (if mismatches (trials.minMask.set j true) = true then trials.minMask.set j true
          else trials.minMask) ∧
      (tryWindow mismatches len (levels len - 1) trials j).tmpMask = trials.minMask.set j true := by
  have added : List.zipWith (· || ·) (window len (levels len - 1) j) trials.minMask =
      trials.minMask.set j true := by
    rw [window_last many small, zipWith_or_set kept.length]
  rw [tryWindow, added]
  by_cases same : trials.minMask.set j true = trials.minMask
  · rw [if_pos same, same, if_pos kept.holds]
    exact ⟨rfl, rfl⟩
  · rw [if_neg same]
    by_cases accepted : mismatches (trials.minMask.set j true) = true
    · rw [if_pos accepted, if_pos accepted]
      exact ⟨rfl, rfl⟩
    · rw [if_neg accepted, if_neg accepted]
      exact ⟨rfl, rfl⟩

/-- The last level is one greedy pass over the words. -/
theorem foldl_tryWindow_last (many : 2 ≤ len) {js : List Nat} (small : ∀ j ∈ js, j < len)
    {trials : Trials} (kept : Kept mismatches len trials.minMask) :
    (js.foldl (tryWindow mismatches len (levels len - 1)) trials).minMask =
      Greedy.grow mismatches (fun k mask => mask.set k true) js trials.minMask := by
  induction js generalizing trials with
  | nil => rfl
  | cons j js ih =>
      have isSmall := small j List.mem_cons_self
      have tested : j < numTest len (levels len - 1) := by rwa [numTest_last many]
      rw [List.foldl_cons, ih (fun other mem => small other (List.mem_cons_of_mem j mem))
        (tryWindow_kept tested kept), (tryWindow_last many isSmall kept).1]
      rfl

/-- The windows up to the last level. -/
theorem windows_eq (many : 2 ≤ len) (mismatches : List Bool → Bool) :
    windows mismatches len = runLevel mismatches len
      ((List.range (levels len - 1)).foldl (runLevel mismatches len) (unmasked len))
      (levels len - 1) := by
  have positive : 0 < levels len := Nat.log_pos one_lt_two many
  have levels' : levels len = levels len - 1 + 1 := by omega
  rw [windows]
  conv_lhs => rw [levels']
  rw [List.range_succ, List.foldl_append]
  rfl

/-- After all windows the kept mask mismatches and is minimal, and the mask that was tried
last is the kept one or was rejected. -/
theorem windows_spec (many : 2 ≤ len)
    (monotone : ∀ {mask mask'}, Below mask mask' → mismatches mask' = true →
      mismatches mask = true)
    (start : mismatches (List.replicate len false) = true) :
    Kept mismatches len (windows mismatches len).minMask ∧
      (∀ k < len, (windows mismatches len).minMask[k]? = some false →
        mismatches ((windows mismatches len).minMask.set k true) = false) ∧
      ((windows mismatches len).tmpMask = (windows mismatches len).minMask ∨
        mismatches (windows mismatches len).tmpMask = false) := by
  have before : Kept mismatches len ((List.range (levels len - 1)).foldl
      (runLevel mismatches len) (unmasked len)).minMask :=
    foldl_runLevel_kept _ ⟨List.length_replicate, start⟩
  rw [windows_eq many]
  generalize (List.range (levels len - 1)).foldl (runLevel mismatches len) (unmasked len) =
    trials at before ⊢
  have after := runLevel_kept (levels len - 1) before
  refine ⟨after, ?_, ?_⟩
  · have grown : (runLevel mismatches len trials (levels len - 1)).minMask =
        Greedy.grow mismatches (fun k mask => mask.set k true) (List.range len)
          trials.minMask := by
      rw [runLevel, numTest_last many]
      exact foldl_tryWindow_last many (fun _ mem => List.mem_range.mp mem) before
    have spec := (@Greedy.grow_spec _ _ Below (fun k mask => mask.set k true) mismatches
      below_refl Below.trans below_set (fun k => Below.set k) monotone (List.range len) _
      before.holds).2.2
    rw [← grown] at spec
    intro k small isFalse
    rcases spec k (List.mem_range.mpr small) with below | rejected
    · have isTrue : (trials.minMask.set k true)[k]? = some true := by
        rw [List.getElem?_set_self]
        rwa [before.length]
      rw [below.getElem? isTrue] at isFalse
      cases isFalse
    · exact rejected
  · have last : len - 1 < len := by omega
    have range : List.range len = List.range (len - 1) ++ [len - 1] := by
      rw [← List.range_succ, Nat.succ_eq_add_one, Nat.sub_add_cancel (by omega)]
    rw [runLevel, numTest_last many, range, List.foldl_append, List.foldl_cons, List.foldl_nil]
    have almost : Kept mismatches len ((List.range (len - 1)).foldl
        (tryWindow mismatches len (levels len - 1)) trials).minMask := by
      apply foldl_tryWindow_kept _ before
      intro j mem
      rw [numTest_last many]
      exact (List.mem_range.mp mem).trans last
    rcases tryWindow_last many last almost with ⟨minMask, tmpMask⟩
    rw [minMask, tmpMask]
    split
    · exact Or.inl rfl
    · rename_i rejected
      exact Or.inr (Bool.eq_false_of_not_eq_true rejected)

end

/-! ## Minimality -/

/-- The kept mask mismatches, and masking one more word makes it match. -/
def Minimal (mismatches : List Bool → Bool) (len : Nat) (mask : List Bool) : Prop :=
  mismatches mask = true ∧
    ∀ k < len, mask[k]? = some false → mismatches (mask.set k true) = false

/-- The deletion is the trial behind all windows of the suffix. -/
theorem minimize_eq (mismatches deletedMismatches : List Bool → Bool) (part : Part) {len : Nat}
    (many : 2 ≤ len) :
    minimize mismatches deletedMismatches part len =
      if part = .suf then tryDeletion deletedMismatches (windows mismatches len)
      else windows mismatches len := by
  have positive : 0 < levels len := Nat.log_pos one_lt_two many
  have levels' : levels len = levels len - 1 + 1 := by omega
  have before : (List.range (levels len - 1)).foldl (fun trials i =>
      if part = .suf ∧ i = levels len - 1 then
        tryDeletion deletedMismatches (runLevel mismatches len trials i)
      else runLevel mismatches len trials i) (unmasked len) =
      (List.range (levels len - 1)).foldl (runLevel mismatches len) (unmasked len) := by
    apply List.foldl_ext
    intro trials i mem
    have small := List.mem_range.mp mem
    exact if_neg fun both => small.ne both.2
  have range : List.range (levels len) = List.range (levels len - 1) ++ [levels len - 1] := by
    rw [← List.range_succ, Nat.succ_eq_add_one, ← levels']
  rw [minimize, range, List.foldl_append]
  dsimp only
  rw [before, List.foldl_cons, List.foldl_nil, ← windows_eq many]
  by_cases isSuf : part = .suf
  · rw [if_pos ⟨isSuf, rfl⟩, if_pos isSuf]
  · rw [if_neg fun both => isSuf both.1, if_neg isSuf]

/-- The schedule ends with a minimal mask exactly when a part of one word cannot be masked,
and in the suffix the deletion is rejected or comes when the mask that was tried last is the
kept one. -/
theorem minimize_iff {mismatches deletedMismatches : List Bool → Bool} {part : Part} {len : Nat}
    (positive : 0 < len)
    (monotone : ∀ {mask mask'}, Below mask mask' → mismatches mask' = true →
      mismatches mask = true)
    (start : mismatches (List.replicate len false) = true) :
    Minimal mismatches len (minimize mismatches deletedMismatches part len).minMask ↔
      (len = 1 → mismatches [true] = false) ∧
      (part = .suf → 2 ≤ len →
        deletedMismatches (windows mismatches len).minMask = true →
          (windows mismatches len).tmpMask = (windows mismatches len).minMask) := by
  by_cases single : len = 1
  · subst single
    have unchanged : minimize mismatches deletedMismatches part 1 = unmasked 1 := rfl
    rw [unchanged]
    constructor
    · rintro ⟨_, minimal⟩
      exact ⟨fun _ => minimal 0 one_pos rfl, fun _ many => absurd many (by decide)⟩
    · rintro ⟨rejected, _⟩
      refine ⟨start, ?_⟩
      intro k small _
      obtain rfl : k = 0 := by omega
      exact rejected rfl
  · have many : 2 ≤ len := by omega
    rcases windows_spec many monotone start with ⟨kept, minimal, tried⟩
    have whole : Minimal mismatches len (windows mismatches len).minMask := ⟨kept.holds, minimal⟩
    rw [minimize_eq mismatches deletedMismatches part many]
    by_cases deletes : part = .suf ∧ deletedMismatches (windows mismatches len).minMask = true
    · rw [if_pos deletes.1, tryDeletion, if_pos deletes.2]
      dsimp only
      constructor
      · rintro ⟨holds, _⟩
        refine ⟨fun isOne => absurd isOne single, fun _ _ _ => ?_⟩
        rcases tried with same | rejected
        · exact same
        · rw [holds] at rejected
          cases rejected
      · rintro ⟨_, same⟩
        rw [same deletes.1 many deletes.2]
        exact whole
    · have result : (if part = .suf then
          tryDeletion deletedMismatches (windows mismatches len)
          else windows mismatches len) = windows mismatches len := by
        by_cases isSuf : part = .suf
        · rw [if_pos isSuf, tryDeletion, if_neg fun accepted => deletes ⟨isSuf, accepted⟩]
        · rw [if_neg isSuf]
      rw [result]
      constructor
      · intro _
        exact ⟨fun isOne => absurd isOne single,
          fun isSuf _ accepted => absurd ⟨isSuf, accepted⟩ deletes⟩
      · intro _
        exact whole

/-- The only word of a part is kept though the masked input mismatches.  Of two words of a
suffix the second is masked though the input matches then. -/
theorem minimize_not_minimal :
    ¬ Minimal (fun _ => true) 1 (minimize (fun _ => true) (fun _ => true) .main 1).minMask ∧
      ¬ Minimal (fun mask => mask[1]? = some false) 2
        (minimize (fun mask => mask[1]? = some false) (fun _ => true) .suf 2).minMask := by
  constructor
  · rintro ⟨_, minimal⟩
    exact absurd (minimal 0 one_pos rfl) (by decide)
  · rintro ⟨holds, _⟩
    exact absurd holds (by decide)

theorem minimize_iff_two :
    Minimal (fun mask => mask[1]? = some false) 2
        (minimize (fun mask => mask[1]? = some false) (fun _ => true) .main 2).minMask ↔
      (2 = 1 → decide ([true][1]? = some false) = false) ∧
      (Part.main = .suf → 2 ≤ 2 → (fun _ : List Bool => true)
          (windows (fun mask => mask[1]? = some false) 2).minMask = true →
        (windows (fun mask => mask[1]? = some false) 2).tmpMask =
          (windows (fun mask => mask[1]? = some false) 2).minMask) := by
  apply minimize_iff
  · decide
  · intro mask mask' below holds
    rw [decide_eq_true_eq] at holds ⊢
    have small : 1 < mask.length := by
      rw [List.Forall₂.length_eq below]
      exact (List.getElem?_eq_some_iff.mp holds).1
    rw [List.getElem?_eq_getElem small]
    cases second : mask[1] with
    | false => rfl
    | true =>
        have isTrue := below.getElem? (List.getElem?_eq_some_iff.mpr ⟨small, second⟩)
        rw [holds] at isTrue
        cases isTrue
  · decide

end Difftest.Fuzzer.Minimizer
