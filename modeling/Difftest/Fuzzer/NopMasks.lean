import Difftest.Fuzzer.Labels
import Mathlib.Data.List.SplitLengths

/-!
# Masked words and their interrupts

The interrupts of a seed are one flat list, cut by the lengths of the words.  A masked word
becomes a single `nop`, but `make_nop` goes on in the old list by the length of the new
word, so the words behind a longer masked word get the interrupts of other instructions.
-/

namespace Difftest.Fuzzer

open Difftest.Text

/-! ## Slices -/

/-- The numbers of instructions of some words. -/
def lens (words : List Word) : List Nat := words.map Word.lenInsts

@[simp]
theorem lens_nil : lens [] = [] := rfl

@[simp]
theorem lens_cons (word : Word) (words : List Word) :
    lens (word :: words) = word.lenInsts :: lens words := rfl

/-- The interrupts of the instructions of each word. -/
def SimInput.slices (input : SimInput) : List (List Nat) :=
  (lens input.words).splitLengths input.ints

theorem splitLengths_flatten {α : Type} (slices : List (List α)) :
    (slices.map List.length).splitLengths slices.flatten = slices := by
  induction slices with
  | nil => rfl
  | cons slice slices ih =>
      rw [List.map_cons, List.splitLengths_cons, List.flatten_cons, List.take_left,
        List.drop_left, ih]

/-- `list[k], ..., list[k + n - 1]`. -/
theorem mapM_getElem? {ints : List Nat} {k n : Nat} (enough : k + n ≤ ints.length) :
    ((List.range n).mapM fun j => ints[k + j]?) = some ((ints.drop k).take n) := by
  have values : (List.range n).map (fun j => (ints.drop k).getD j 0) = (ints.drop k).take n := by
    apply List.ext_getElem
    · rw [List.length_map, List.length_range, List.length_take, List.length_drop]
      omega
    · intro j left _
      rw [List.length_map, List.length_range] at left
      have inside : k + j < ints.length := by omega
      simp [inside]
  rw [← values]
  apply mapM_eq_some_map
  intro j mem
  have small := List.mem_range.mp mem
  rw [List.getD_eq_getElem?_getD, List.getElem?_drop, List.getElem?_eq_getElem (by omega)]
  rfl

/-! ## Masks -/

/-- A masked slice is zero. -/
def maskSlice (slice : List Nat) (masked : Bool) : List Nat :=
  if masked = true then List.replicate slice.length 0 else slice

/-- The loop of `make_nop` cuts the old interrupts by the new lengths. -/
theorem nopInts_eq {ints : List Nat} {k : Nat} {pairs : List (Word × Bool)}
    (enough : k + (lens (pairs.map Prod.fst)).sum ≤ ints.length) :
    nopInts ints k pairs = some (List.zipWith maskSlice
      ((lens (pairs.map Prod.fst)).splitLengths (ints.drop k)) (pairs.map Prod.snd)).flatten := by
  induction pairs generalizing k with
  | nil => rfl
  | cons pair pairs ih =>
      rcases pair with ⟨word, masked⟩
      rw [List.map_cons, lens_cons, List.sum_cons] at enough
      dsimp only at enough
      have rest := @ih (k + word.lenInsts) (by omega)
      have length : ((ints.drop k).take word.lenInsts).length = word.lenInsts := by
        rw [List.length_take, List.length_drop]
        omega
      have first : (if masked = true then some (List.replicate word.lenInsts 0)
          else (List.range word.lenInsts).mapM fun j => ints[k + j]?) =
          some (maskSlice ((ints.drop k).take word.lenInsts) masked) := by
        rw [maskSlice, length, mapM_getElem? (by omega)]
        split
        · rfl
        · rfl
      rw [nopInts, first, Option.bind_some, rest, Option.map_some, List.map_cons, List.map_cons,
        lens_cons, List.splitLengths_cons, List.drop_drop, List.zipWith_cons_cons,
        List.flatten_cons]

theorem length_maskSlice (slice : List Nat) (masked : Bool) :
    (maskSlice slice masked).length = slice.length := by
  cases masked with
  | false => rfl
  | true => exact List.length_replicate

/-- Masking keeps the lengths of the slices. -/
theorem map_length_maskSlices {sizes ints : List Nat} {mask : List Bool}
    (enough : sizes.sum ≤ ints.length) (length : sizes.length = mask.length) :
    (List.zipWith maskSlice (sizes.splitLengths ints) mask).map List.length = sizes := by
  rw [List.map_zipWith]
  simp only [length_maskSlice]
  rw [← List.map_uncurry_zip_eq_zipWith]
  calc
    (((sizes.splitLengths ints).zip mask).map (Function.uncurry fun slice _ => slice.length)) =
      (((sizes.splitLengths ints).zip mask).map Prod.fst).map List.length := by
      rw [List.map_map]
      rfl
    _ = (sizes.splitLengths ints).map List.length := by
      rw [List.map_fst_zip]
      rw [List.length_splitLengths, length]
    _ = sizes := List.map_splitLengths_length ints sizes enough

theorem mem_of_mem_splitLengths {sizes ints slice : List Nat} {int : Nat}
    (isSlice : slice ∈ sizes.splitLengths ints) (mem : int ∈ slice) : int ∈ ints := by
  induction sizes generalizing ints with
  | nil => cases isSlice
  | cons size sizes inductionHypothesis =>
      rw [List.splitLengths_cons, List.mem_cons] at isSlice
      rcases isSlice with rfl | later
      · exact List.mem_of_mem_take mem
      · exact List.mem_of_mem_drop (inductionHypothesis later)

/-- Masked interrupts are old ones or zero. -/
theorem mem_maskSlices {slices : List (List Nat)} {mask : List Bool} {int : Nat}
    (mem : int ∈ (List.zipWith maskSlice slices mask).flatten) :
    int = 0 ∨ ∃ slice ∈ slices, int ∈ slice := by
  rcases List.mem_flatten.mp mem with ⟨cut, isCut, inside⟩
  rw [← List.map_uncurry_zip_eq_zipWith] at isCut
  rcases List.mem_map.mp isCut with ⟨⟨slice, isMasked⟩, isPair, rfl⟩
  rw [Function.uncurry, maskSlice] at inside
  split at inside
  · exact Or.inl (List.eq_of_mem_replicate inside)
  · exact Or.inr ⟨slice, (List.of_mem_zip isPair).1, inside⟩

/-- The word that stands for a masked one. -/
def nopOf (part : Part) (word : Word) : Word :=
  { Word.plain word.label nop with
    populated := true
    retInsts := Word.lines part word.label [ljust 42 "nop".toList] }

theorem nopWord_eq (part : Part) (word : Word) : nopWord part word = some (nopOf part word) :=
  rfl

/-- The words under a mask. -/
def masked (part : Part) (words : List Word) (mask : List Bool) : List Word :=
  List.zipWith (fun word masked => if masked = true then nopOf part word else word) words mask

theorem maskWords_eq (part : Part) (words : List Word) (mask : List Bool) :
    maskWords part words mask = some (masked part words mask) := by
  have values : maskWords part words mask = some ((words.zip mask).map fun pair =>
      if pair.2 = true then nopOf part pair.1 else pair.1) := by
    apply mapM_eq_some_map
    rintro ⟨word, isMasked⟩ _
    cases isMasked with
    | false => rfl
    | true => rfl
  rw [values, List.map_zip_eq_zipWith]
  rfl

/-- Every word counts its instructions and a masked word one. -/
def maskedLens (words : List Word) (mask : List Bool) : List Nat :=
  List.zipWith (fun word masked => if masked = true then 1 else word.lenInsts) words mask

theorem lens_masked (part : Part) (words : List Word) (mask : List Bool) :
    lens (masked part words mask) = maskedLens words mask := by
  rw [lens, masked, maskedLens, List.map_zipWith]
  congr 1
  funext word isMasked
  cases isMasked with
  | false => rfl
  | true => rfl

theorem sum_maskedLens_le {words : List Word} (nonempty : ∀ word ∈ words, word.insts ≠ [])
    (mask : List Bool) : (maskedLens words mask).sum ≤ (lens words).sum := by
  induction words generalizing mask with
  | nil => exact le_rfl
  | cons word words ih =>
      cases mask with
      | nil => exact Nat.zero_le _
      | cons isMasked mask =>
          have rest := ih (fun other mem => nonempty other (List.mem_cons_of_mem _ mem)) mask
          have positive := List.length_pos_of_ne_nil (nonempty word List.mem_cons_self)
          have first : (if isMasked = true then 1 else word.lenInsts) ≤ word.lenInsts := by
            split
            · exact positive
            · exact le_rfl
          rw [maskedLens, List.zipWith_cons_cons, List.sum_cons, lens_cons, List.sum_cons]
          exact Nat.add_le_add first rest

/-- Two lists of slices are the same under a mask when they agree where nothing is masked. -/
theorem zipWith_maskSlice_eq_iff {first second : List (List Nat)} {mask : List Bool}
    (left : first.length = mask.length) (right : second.length = mask.length)
    (ones : ∀ i : Nat, mask[i]? = some true → ∀ slice : List Nat, first[i]? = some slice →
      slice.length = 1) :
    List.zipWith maskSlice first mask =
        List.zipWith (fun slice masked => if masked = true then [0] else slice) second mask ↔
      ∀ i : Nat, mask[i]? = some false → first[i]? = second[i]? := by
  induction mask generalizing first second with
  | nil => simp
  | cons isMasked mask ih =>
      rcases first with _ | ⟨slice, first⟩
      · cases left
      rcases second with _ | ⟨slice', second⟩
      · cases right
      have rest := ih (Nat.succ.inj left) (Nat.succ.inj right) fun i isTrue => ones (i + 1) isTrue
      rw [List.zipWith_cons_cons, List.zipWith_cons_cons, List.cons.injEq, rest]
      cases isMasked with
      | true =>
          have one := ones 0 rfl slice rfl
          have zero : maskSlice slice true = [0] := by
            rw [maskSlice, if_pos rfl, one]
            rfl
          constructor
          · rintro ⟨_, later⟩ i isFalse
            cases i with
            | zero => cases isFalse
            | succ i => exact later i isFalse
          · exact fun all => ⟨zero, fun i isFalse => all (i + 1) isFalse⟩
      | false =>
          constructor
          · rintro ⟨same, later⟩ i isFalse
            cases i with
            | zero => exact congrArg some same
            | succ i => exact later i isFalse
          · intro all
            exact ⟨Option.some.inj (all 0 rfl), fun i isFalse => all (i + 1) isFalse⟩

/-! ## Masking a seed -/

/-- Masking a seed as it is meant: the masked words become `nop` without interrupts, the
others keep theirs. -/
structure Masks (input masked : SimInput) (mask : List Bool) : Prop where
  words : masked.words = Fuzzer.masked .main input.words mask
  length : masked.ints.length = (lens masked.words).sum
  slices : masked.slices = List.zipWith
    (fun slice masked => if masked = true then [0] else slice) input.slices mask

/-- Where the masked words count one instruction each, the other words find the interrupts
that they had. -/
def Realigned (input : SimInput) (mask : List Bool) : Prop :=
  ∀ i : Nat, mask[i]? = some false →
    ((maskedLens input.words mask).splitLengths input.ints)[i]? = input.slices[i]?

instance (input : SimInput) (mask : List Bool) : Decidable (Realigned input mask) :=
  decidable_of_iff (∀ i < mask.length, mask[i]? = some false →
      ((maskedLens input.words mask).splitLengths input.ints)[i]? = input.slices[i]?) (by
    constructor
    · intro small i isFalse
      exact small i (List.getElem?_eq_some_iff.mp isFalse).1 isFalse
    · intro all i _
      exact all i)

section

variable {seeds : DataSeeds} {input : SimInput} {mask : List Bool} {data : List Nat}

/-- The interrupts that `make_nop` finds for the words under a mask. -/
theorem nopInts_masked {words : List Word} {ints : List Nat} (part : Part)
    (enough : (lens words).sum ≤ ints.length) (right : mask.length = words.length)
    (nonempty : ∀ word ∈ words, word.insts ≠ []) :
    nopInts ints 0 ((masked part words mask).zip mask) =
      some (List.zipWith maskSlice ((maskedLens words mask).splitLengths ints) mask).flatten := by
  have long : (masked part words mask).length = mask.length := by
    rw [masked, List.length_zipWith, right, min_self]
  have firsts : ((masked part words mask).zip mask).map Prod.fst = masked part words mask :=
    List.map_fst_zip long.le
  have seconds : ((masked part words mask).zip mask).map Prod.snd = mask :=
    List.map_snd_zip long.ge
  have enough' : 0 + (lens (((masked part words mask).zip mask).map Prod.fst)).sum ≤
      ints.length := by
    rw [firsts, lens_masked, Nat.zero_add]
    exact (sum_maskedLens_le nonempty mask).trans enough
  have found := nopInts_eq enough'
  rwa [firsts, seconds, lens_masked, List.drop_zero] at found

/-- `make_nop` on the main part returns the new words with the interrupts that it finds
there. -/
theorem makeNop_main (lengths : input.ints.length = (lens input.words).sum)
    (right : mask.length = input.words.length)
    (nonempty : ∀ word ∈ input.words, word.insts ≠ [])
    (found : seeds.randomData.get? input.dataSeed = some data) :
    makeNop seeds input mask .main = some
      ({ input with
        words := masked .main input.words mask
        ints := (List.zipWith maskSlice
          ((maskedLens input.words mask).splitLengths input.ints) mask).flatten }, data) := by
  have right' : (input.wordsOf .main).length = mask.length := right.symm
  rw [makeNop, if_pos right', maskWords_eq, Option.bind_some, if_pos rfl]
  change (nopInts input.ints 0 ((masked .main input.words mask).zip mask)).bind _ = _
  rw [nopInts_masked .main lengths.ge right nonempty, Option.bind_some, found]
  rfl

/-- The masked seed is the one that is meant exactly when the words that stay find their
interrupts. -/
theorem masks_iff (lengths : input.ints.length = (lens input.words).sum)
    (right : mask.length = input.words.length)
    (nonempty : ∀ word ∈ input.words, word.insts ≠ []) :
    Masks input { input with
      words := masked .main input.words mask
      ints := (List.zipWith maskSlice
        ((maskedLens input.words mask).splitLengths input.ints) mask).flatten } mask ↔
      Realigned input mask := by
  have newLength : (maskedLens input.words mask).length = mask.length := by
    rw [maskedLens, List.length_zipWith, right, min_self]
  have newSum : (maskedLens input.words mask).sum ≤ input.ints.length := by
    rw [lengths]
    exact sum_maskedLens_le nonempty mask
  have cutLengths := List.map_splitLengths_length input.ints _ newSum
  have zipLengths := map_length_maskSlices newSum newLength
  have slices : (lens (masked .main input.words mask)).splitLengths (List.zipWith maskSlice
      ((maskedLens input.words mask).splitLengths input.ints) mask).flatten =
      List.zipWith maskSlice ((maskedLens input.words mask).splitLengths input.ints) mask := by
    have cut := splitLengths_flatten (List.zipWith maskSlice
      ((maskedLens input.words mask).splitLengths input.ints) mask)
    rw [zipLengths] at cut
    rw [lens_masked]
    exact cut
  have ones : ∀ i : Nat, mask[i]? = some true → ∀ slice : List Nat,
      ((maskedLens input.words mask).splitLengths input.ints)[i]? = some slice →
        slice.length = 1 := by
    intro i isTrue slice isSlice
    have lengthAt : (maskedLens input.words mask)[i]? = some slice.length := by
      rw [← cutLengths, List.getElem?_map, isSlice]
      rfl
    have small : i < input.words.length := by
      rw [← right]
      exact (List.getElem?_eq_some_iff.mp isTrue).1
    rw [maskedLens, List.getElem?_zipWith, isTrue, List.getElem?_eq_getElem small] at lengthAt
    exact (Option.some.inj lengthAt).symm
  have left : ((maskedLens input.words mask).splitLengths input.ints).length = mask.length := by
    rw [List.length_splitLengths, newLength]
  have slicesLength : input.slices.length = mask.length := by
    rw [SimInput.slices, List.length_splitLengths, lens, List.length_map, right]
  rw [Realigned, ← zipWith_maskSlice_eq_iff left slicesLength ones]
  constructor
  · exact fun masks => slices.symm.trans masks.slices
  · intro same
    refine ⟨rfl, ?_, slices.trans same⟩
    rw [List.length_flatten, zipLengths, lens_masked]

end

/-! ## Deleting words -/

/-- The same word under another label. -/
def SameInsts (word word' : Word) : Prop :=
  ∃ label retInsts, word' = { word with label, retInsts }

/-- Deleting keeps the other words of every part in order, and in the main part with their
interrupts. -/
structure Deletes (input deleted : SimInput) : Prop where
  words : ∀ part, List.Forall₂ SameInsts ((input.wordsOf part).filter fun word => word.insts ≠ nop)
    (deleted.wordsOf part)
  slices : deleted.slices =
    ((input.words.zip input.slices).filter fun word => word.1.insts ≠ nop).map Prod.snd
  length : deleted.ints.length = (lens deleted.words).sum

theorem SameInsts.lenInsts {word word' : Word} (same : SameInsts word word') :
    word'.lenInsts = word.lenInsts := by
  rcases same with ⟨label, retInsts, rfl⟩
  rfl

theorem sameInsts_of_resetLabel {word : Word} {n : Nat} {part : Part}
    {after : Word × Option (Nat × Nat)} (isReset : word.resetLabel n part = some after) :
    SameInsts word after.1 := by
  rw [Word.resetLabel] at isReset
  split at isReset
  · split at isReset
    · cases isReset
    · cases isReset
      exact ⟨_, _, rfl⟩
  · cases isReset
    exact ⟨_, word.retInsts, rfl⟩

theorem sameInsts_of_repopLabel {word after : Word} {labelMap : Dict Nat Nat} {maxLabel : Nat}
    {part : Part} (renumbered : Random.Returns (word.repopLabel labelMap maxLabel part) after) :
    SameInsts word after := by
  rw [Word.repopLabel] at renumbered
  split at renumbered
  · rcases renumbered.map with ⟨retInsts, _, rfl⟩
    exact ⟨word.label, retInsts, rfl⟩
  · cases Random.returns_pure.mp renumbered
    exact ⟨word.label, word.retInsts, rfl⟩

/-- Renumbering changes labels and lines only. -/
theorem sameInsts_of_resetLabels {words after : List Word} {part : Part}
    (returned : Random.Returns (resetLabels words part) after) :
    List.Forall₂ SameInsts words after := by
  rw [resetLabels] at returned
  rcases returned.bind with ⟨resets, isReset, traversed⟩
  have first := forall₂_of_mapM_eq_some (Random.returns_ofOption.mp isReset)
  have second := traversed.mapM
  have both : List.Forall₂ SameInsts (words.zipIdx.map Prod.fst) after := by
    clear returned isReset traversed
    generalize Dict.ofList (resets.filterMap Prod.snd) = labelMap at second
    generalize words.zipIdx = labelled at first ⊢
    induction first generalizing after with
    | nil =>
        cases second
        exact List.Forall₂.nil
    | cons reset _ ih =>
        rcases second with _ | ⟨renumbered, others⟩
        rcases sameInsts_of_resetLabel reset with ⟨label, retInsts, same⟩
        rcases sameInsts_of_repopLabel renumbered with ⟨label', retInsts', same'⟩
        rw [same] at same'
        exact List.Forall₂.cons ⟨label', retInsts', same'⟩ (ih others)
  rwa [List.zipIdx_map_fst] at both

/-- `delete_nop` keeps the slices of the words that it keeps. -/
theorem keptInts_eq {ints : List Nat} {k : Nat} (words : List Word) :
    keptInts ints k words = (((words.zip ((lens words).splitLengths (ints.drop k))).filter
      fun word => word.1.insts ≠ nop).map Prod.snd).flatten := by
  induction words generalizing k with
  | nil => rfl
  | cons word words ih =>
      rw [keptInts, ih, lens_cons, List.splitLengths_cons, List.drop_drop, List.zip_cons_cons,
        List.filter_cons]
      split
      · rename_i isKept
        rw [if_pos (decide_eq_true isKept)]
        rfl
      · rename_i isNop
        rw [if_neg (by simpa using isNop)]
        rfl

theorem lens_eq_of_sameInsts {words words' : List Word}
    (same : List.Forall₂ SameInsts words words') : lens words' = lens words := by
  induction same with
  | nil => rfl
  | cons first _ ih => rw [lens_cons, lens_cons, first.lenInsts, ih]

theorem map_length_filter {words : List Word} {slices : List (List Nat)}
    (lengths : slices.map List.length = lens words) (keep : Word → Bool) :
    (((words.zip slices).filter fun word => keep word.1).map Prod.snd).map List.length =
      lens (words.filter keep) := by
  induction words generalizing slices with
  | nil => rfl
  | cons word words ih =>
      rcases slices with _ | ⟨slice, slices⟩
      · cases lengths
      rw [List.map_cons, lens_cons, List.cons.injEq] at lengths
      have rest := ih lengths.2
      rw [List.zip_cons_cons, List.filter_cons, List.filter_cons]
      cases keep word with
      | true =>
          rw [if_pos rfl, if_pos rfl, List.map_cons, List.map_cons, rest, lens_cons, lengths.1]
      | false =>
          rw [if_neg Bool.false_ne_true, if_neg Bool.false_ne_true]
          exact rest

/-- The slices of the words that are kept are the interrupts that are kept. -/
theorem splitLengths_keptInts {ints : List Nat} {words : List Word}
    (enough : (lens words).sum ≤ ints.length) :
    (lens (keptWords words)).splitLengths (keptInts ints 0 words) =
      ((words.zip ((lens words).splitLengths ints)).filter
        fun word => word.1.insts ≠ nop).map Prod.snd ∧
      (keptInts ints 0 words).length = (lens (keptWords words)).sum := by
  have cutLengths := List.map_splitLengths_length ints _ enough
  have kept := map_length_filter cutLengths fun word => decide (word.insts ≠ nop)
  have ints' := @keptInts_eq ints 0 words
  rw [List.drop_zero] at ints'
  have sameLens : lens (keptWords words) = (((words.zip ((lens words).splitLengths ints)).filter
      fun word => word.1.insts ≠ nop).map Prod.snd).map List.length := kept.symm
  rw [ints', sameLens]
  constructor
  · exact splitLengths_flatten _
  · rw [List.length_flatten]

/-- Deleting from any seed whose interrupts belong to its instructions. -/
theorem deletes_of_deleteNop {seeds : DataSeeds} {input deleted : SimInput} {data : List Nat}
    (lengths : input.ints.length = (lens input.words).sum)
    (returned : Random.Returns (deleteNop seeds input) (deleted, data)) :
    Deletes input deleted := by
  rw [deleteNop] at returned
  rcases returned.bind with ⟨pre, isPre, returned⟩
  rcases returned.bind with ⟨words, isWords, returned⟩
  rcases returned.bind with ⟨suf, isSuf, returned⟩
  rcases returned.bind with ⟨found, isData, returned⟩
  cases Random.returns_pure.mp returned
  have same := sameInsts_of_resetLabels isWords
  rcases splitLengths_keptInts lengths.ge with ⟨slices, length⟩
  have sameLens := lens_eq_of_sameInsts same
  refine ⟨?_, ?_, ?_⟩
  · intro part
    cases part with
    | pre => exact sameInsts_of_resetLabels isPre
    | main => exact same
    | suf => exact sameInsts_of_resetLabels isSuf
  · rw [SimInput.slices, SimInput.slices]
    dsimp only
    rw [sameLens]
    exact slices
  · dsimp only
    rw [sameLens]
    exact length

theorem total_deleteNop {seeds : DataSeeds} {input : SimInput} {data : List Nat}
    (ready : ∀ part, (input.wordsOf part).length ≤ 10 ^ 3 ∧
      ∀ word ∈ input.wordsOf part, word.Ready part)
    (found : seeds.randomData.get? input.dataSeed = some data) :
    Random.Total (deleteNop seeds input) := by
  have each : ∀ part, Random.Total (resetLabels (keptWords (input.wordsOf part)) part) := by
    intro part
    apply total_resetLabels
    · exact fun word mem => (ready part).2 word (List.mem_of_mem_filter mem)
    · exact (List.length_filter_le _ _).trans (ready part).1
  rw [deleteNop]
  apply (each .pre).bind
  intro pre _
  apply (each .main).bind
  intro words _
  apply (each .suf).bind
  intro suf _
  rw [found, Random.ofOption_some_bind]
  exact Random.total_pure _

/-! ## Removing words -/

/-- Removing words as it is meant: `make_nop` masks the words of the main part, and
`delete_nop` deletes the masked words from the result, without raising when the labels of
the lines can be renumbered. -/
def Removes (seeds : DataSeeds) (input : SimInput) (mask : List Bool) (data : List Nat) : Prop :=
  ∃ masked, makeNop seeds input mask .main = some (masked, data) ∧ Masks input masked mask ∧
    (∀ deleted data', Random.Returns (deleteNop seeds masked) (deleted, data') →
      Deletes masked deleted) ∧
    ((∀ part, (masked.wordsOf part).length ≤ 10 ^ 3 ∧
      ∀ word ∈ masked.wordsOf part, word.Ready part) → Random.Total (deleteNop seeds masked))

/-- The interrupts of the other words survive a mask exactly when these words find them at
the places where the masked words count one instruction each.  Masks on the prefix and the
suffix never touch the interrupts. -/
theorem removes_iff {seeds : DataSeeds} {input : SimInput} {mask : List Bool} {data : List Nat}
    (lengths : input.ints.length = (lens input.words).sum)
    (right : mask.length = input.words.length)
    (nonempty : ∀ word ∈ input.words, word.insts ≠ [])
    (found : seeds.randomData.get? input.dataSeed = some data) :
    (Removes seeds input mask data ∧ ∀ part ≠ .main, ∀ mask' : List Bool,
      mask'.length = (input.wordsOf part).length →
        ∃ masked, makeNop seeds input mask' part = some (masked, data) ∧
          masked.ints = input.ints) ↔ Realigned input mask := by
  have computed := makeNop_main lengths right nonempty found
  constructor
  · rintro ⟨⟨masked, returned, masks, _, _⟩, _⟩
    rw [computed] at returned
    cases returned
    exact (masks_iff lengths right nonempty).mp masks
  · intro realigned
    have masks := (masks_iff lengths right nonempty).mpr realigned
    refine ⟨⟨_, computed, masks, ?_, ?_⟩, ?_⟩
    · intro deleted data' returned
      exact deletes_of_deleteNop masks.length returned
    · intro ready
      exact total_deleteNop ready found
    · intro part other mask' right'
      refine ⟨{ input.setWords part (Fuzzer.masked part (input.wordsOf part) mask') with
        ints := input.ints }, ?_, rfl⟩
      rw [makeNop, if_pos right'.symm, maskWords_eq, Option.bind_some, if_neg other,
        Option.bind_some, found]
      rfl

/-- A word of three instructions in front of one with an interrupt. -/
def interrupted : SimInput where
  pre := []
  words := [readWord .main 0 (["xor x5, x5, x5", "addi x6, zero, 1",
      "csrrw x7, mie, x5"].map fun inst => ljust 42 inst.toList),
    readWord .main 1 [ljust 42 "addi x8, x8, 1".toList]]
  suf := []
  ints := [0, 0, 0, 9]
  dataSeed := 0
  template := 0

/-- Masking the first word moves the interrupt away from the second. -/
theorem interrupted_not_removes :
    interrupted.ints.length = (lens interrupted.words).sum ∧
      ¬ Removes ⟨1, Dict.empty.set 0 [7], [0]⟩ interrupted [true, false] [7] := by
  refine ⟨rfl, ?_⟩
  rintro ⟨masked, returned, masks, _⟩
  have computed : makeNop ⟨1, Dict.empty.set 0 [7], [0]⟩ interrupted [true, false] .main =
      some ({ interrupted with
        words := Fuzzer.masked .main interrupted.words [true, false]
        ints := [0, 0] }, [7]) := rfl
  rw [computed] at returned
  cases returned
  have slices := masks.slices
  exact absurd slices (by decide)

theorem removes_iff_interrupted :
    (Removes ⟨1, Dict.empty.set 0 [7], [0]⟩ interrupted [false, true] [7] ∧
      ∀ part ≠ .main, ∀ mask' : List Bool,
        mask'.length = (interrupted.wordsOf part).length →
          ∃ masked, makeNop ⟨1, Dict.empty.set 0 [7], [0]⟩ interrupted mask' part =
              some (masked, [7]) ∧ masked.ints = interrupted.ints) ↔
      Realigned interrupted [false, true] :=
  removes_iff rfl rfl (by decide) rfl

end Difftest.Fuzzer
