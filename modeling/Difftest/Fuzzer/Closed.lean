import Difftest.Fuzzer.Filled

/-!
# Words whose labels lie ahead

The labels that a word names exist, and those of a word that transfers control lie behind it.
Renumbering keeps this because the labels of the words that are kept increase: a label that is
still there moves with its word, and any other is drawn from the positions behind the word.
-/

namespace Difftest.Fuzzer

open Difftest.Text

/-! ## Items -/

namespace Item

/-- The item fits its columns on one line, and its label is an operand. -/
structure Sound (item : Item) : Prop where
  chars : ∀ c ∈ item.stem, c ∉ [':', '\n', '\r']
  plain : item.target = none → item.stem.length ≤ 42
  label : item.target ≠ none → item.stem.length ≤ 35 ∧ ' ' ∈ item.stem

/-- The item transfers control. -/
def Transfers (item : Item) : Prop := opcodeOf item.stem ∈ transferOpcodes

end Item

/-- The items of a word with a label. -/
structure LabelsAhead (label : Nat) (items : List Item) : Prop where
  sound : ∀ item ∈ items, item.Sound
  /-- A word that transfers control names a label. -/
  named : (∃ item ∈ items, item.Transfers) → ∃ item ∈ items, item.target ≠ none
  /-- Its labels lie behind it. -/
  ahead : (∃ item ∈ items, item.Transfers) → ∀ item ∈ items, ∀ n ∈ item.target, label < n

/-- The labels that are named exist. -/
def Bounded (maxLabel : Nat) (items : List Item) : Prop :=
  ∀ item ∈ items, ∀ n ∈ item.target, n ≤ maxLabel

section Moves

variable {label label' maxLabel : Nat} {labelMap : Dict Nat Nat} {item item' : Item}
  {items items' : List Item}

/-- A renumbered target is the one that the map has, or one behind the word. -/
theorem Item.Moves.target_cases (moves : item.Moves label' labelMap maxLabel item') :
    item.target = none ∧ item'.target = none ∨
      ∃ n q, item.target = some n ∧ item'.target = some q ∧
        (labelMap.get? n = some q ∨ label' < q ∧ q ≤ maxLabel) := by
  rcases moves with ⟨_, moved⟩
  cases isTarget : item.target with
  | none =>
      rw [isTarget] at moved
      exact Or.inl ⟨rfl, moved⟩
  | some n =>
      rw [isTarget] at moved
      rcases moved with ⟨draw, behind, inside, moved⟩
      right
      refine ⟨n, labelMap.getD n draw, rfl, moved, ?_⟩
      cases isNew : labelMap.get? n with
      | none =>
          right
          rw [Dict.getD, isNew, Option.getD_none]
          exact ⟨behind, inside⟩
      | some q =>
          left
          rw [Dict.getD, isNew, Option.getD_some]

theorem Item.Moves.sound (moves : item.Moves label' labelMap maxLabel item')
    (sound : item.Sound) : item'.Sound := by
  have sameStem : item'.stem = item.stem := moves.1
  have sameKind : item'.target = none ↔ item.target = none := by
    rcases moves.target_cases with ⟨isNone, isNone'⟩ | ⟨n, q, isSome, isSome', _⟩
    · rw [isNone, isNone']
    · rw [isSome, isSome']
      simp
  constructor
  · rw [sameStem]
    exact sound.chars
  · rw [sameStem, sameKind]
    exact sound.plain
  · rw [sameStem, ne_eq, sameKind]
    exact sound.label

/-- What the map of the labels has to do with the positions of two words. -/
structure Carries (labelMap : Dict Nat Nat) (label label' maxLabel : Nat) : Prop where
  inside : ∀ n q, labelMap.get? n = some q → q ≤ maxLabel
  behind : ∀ n q, labelMap.get? n = some q → label < n → label' < q

/-- Renumbering keeps the labels ahead, and afterwards they exist. -/
theorem LabelsAhead.moves (ahead : LabelsAhead label items) (carries : Carries labelMap label label' maxLabel)
    (moved : List.Forall₂ (Item.Moves label' labelMap maxLabel) items items') :
    LabelsAhead label' items' ∧ Bounded maxLabel items' := by
  have transfers : (∃ item ∈ items', item.Transfers) → ∃ item ∈ items, item.Transfers := by
    rintro ⟨item', isItem', transfer⟩
    rcases exists_of_forall₂ moved isItem' with ⟨item, isItem, moves⟩
    have sameStem : item'.stem = item.stem := moves.1
    rw [Item.Transfers, sameStem] at transfer
    exact ⟨item, isItem, transfer⟩
  constructor
  · constructor
    case sound =>
      intro item' isItem'
      rcases exists_of_forall₂ moved isItem' with ⟨item, isItem, moves⟩
      exact moves.sound (ahead.sound item isItem)
    case named =>
      intro transfer
      rcases ahead.named (transfers transfer) with ⟨item, isItem, isLabel⟩
      rcases exists_right_of_forall₂ moved isItem with ⟨item', isItem', moves⟩
      refine ⟨item', isItem', ?_⟩
      rcases moves.target_cases with ⟨isNone, _⟩ | ⟨n, q, _, isSome, _⟩
      · exact absurd isNone isLabel
      · rw [isSome]
        exact Option.some_ne_none q
    case ahead =>
      intro transfer item' isItem' q isTarget'
      rcases exists_of_forall₂ moved isItem' with ⟨item, isItem, moves⟩
      rcases moves.target_cases with ⟨_, isNone⟩ | ⟨n, q', isTarget, isSome, new⟩
      · rw [isNone] at isTarget'
        cases isTarget'
      · rw [isSome] at isTarget'
        cases isTarget'
        rcases new with isNew | ⟨behind, _⟩
        · exact carries.behind n q isNew (ahead.ahead (transfers transfer) item isItem n isTarget)
        · exact behind
  · intro item' isItem' q isTarget'
    rcases exists_of_forall₂ moved isItem' with ⟨item, isItem, moves⟩
    rcases moves.target_cases with ⟨_, isNone⟩ | ⟨n, q', _, isSome, new⟩
    · rw [isNone] at isTarget'
      cases isTarget'
    · rw [isSome] at isTarget'
      cases isTarget'
      exact new.elim (carries.inside n q) And.right

end Moves

/-! ## Words -/

namespace Word

/-- A word of instructions that are not filled in yet. -/
structure Drafted (word : Word) : Prop where
  empty : word.populated = false
  drafts : ∃ form, Drafts (word.tpe, word.insts,
    ⟨form, word.xregs, word.fregs, word.imms, word.symbols⟩)

/-- A filled in word whose labels lie ahead. -/
structure Forward (part : Part) (items : List Item) (word : Word) : Prop where
  spelled : word.Spelled part items
  ahead : LabelsAhead word.label items
  length : word.insts.length = items.length

/-- A filled in word whose labels exist. -/
def Closed (part : Part) (maxLabel : Nat) (word : Word) : Prop :=
  ∃ items, word.Forward part items ∧ Bounded maxLabel items

/-- A word that `reset_labels` renumbers. -/
def Fine (part : Part) (word : Word) : Prop :=
  word.Drafted ∨ ∃ items, word.Forward part items

theorem Fine.ready {part : Part} {word : Word} (fine : word.Fine part) : word.Ready part :=
  fine.imp Drafted.empty fun ⟨items, forward⟩ => ⟨items, forward.spelled⟩

end Word

/-- The labels of the filled in words increase. -/
def Increasing (words : List Word) : Prop :=
  words.Pairwise fun first second =>
    first.populated = true → second.populated = true → first.label < second.label

/-- The words are numbered from zero, and labels of filled in words exist. -/
def Numbered (part : Part) (words : List Word) : Prop :=
  ∀ pair ∈ words.zipIdx, pair.1.label = pair.2 ∧
    (pair.1.Drafted ∨ pair.1.Closed part words.length)

/-- The new labels are positions of words with the old labels. -/
theorem mem_of_labelMapOf {pairs : List (Word × Nat)} {n q : Nat}
    (found : (labelMapOf pairs).get? n = some q) :
    ∃ word, (word, q) ∈ pairs ∧ word.populated = true ∧ word.label = n := by
  have entry := Dict.mem_of_mem_ofList (Dict.mem_of_find found)
  rcases List.mem_filterMap.mp entry with ⟨⟨word, q'⟩, isPair, same⟩
  dsimp only at same
  split at same
  · cases same
    exact ⟨word, isPair, by assumption, rfl⟩
  · cases same

/-- Positions increase with the labels. -/
theorem Increasing.position_lt {words : List Word} (increasing : Increasing words)
    {first second : Word} {p q : Nat} (isFirst : (first, p) ∈ words.zipIdx)
    (isSecond : (second, q) ∈ words.zipIdx) (filled : first.populated = true)
    (filled' : second.populated = true) (less : first.label < second.label) : p < q := by
  have get : words[p]? = some first := List.mk_mem_zipIdx_iff_getElem?.mp isFirst
  have get' : words[q]? = some second := List.mk_mem_zipIdx_iff_getElem?.mp isSecond
  rcases Nat.lt_trichotomy p q with before | rfl | after
  · exact before
  · rw [get] at get'
    cases get'
    exact absurd less (Nat.lt_irrefl _)
  · rcases List.getElem?_eq_some_iff.mp get with ⟨small, rfl⟩
    rcases List.getElem?_eq_some_iff.mp get' with ⟨small', rfl⟩
    have reverse := List.pairwise_iff_getElem.mp increasing q p small' small after filled' filled
    omega

section Reset

variable {part : Part} {words after : List Word}

/-- The map of `reset_labels` moves labels behind a word behind its position. -/
theorem Increasing.carries (increasing : Increasing words) {word : Word} {i : Nat}
    (isWord : (word, i) ∈ words.zipIdx) (filled : word.populated = true) :
    Carries (labelMapOf words.zipIdx) word.label i words.length where
  inside n q found := by
    rcases mem_of_labelMapOf found with ⟨other, isOther, _, _⟩
    exact (List.snd_lt_of_mem_zipIdx isOther).le
  behind n q found less := by
    rcases mem_of_labelMapOf found with ⟨other, isOther, filled', rfl⟩
    exact increasing.position_lt isWord isOther filled filled' less

section Renumbered

variable {word word' : Word} {i maxLabel : Nat} {labelMap : Dict Nat Nat}

theorem Word.Renumbered.label
    (renumbered : Word.Renumbered part labelMap maxLabel (word, i) word') : word'.label = i := by
  rcases renumbered.same with ⟨retInsts, same⟩
  rw [same]

theorem Word.Renumbered.drafted (drafted : word.Drafted)
    (renumbered : Word.Renumbered part labelMap maxLabel (word, i) word') : word'.Drafted := by
  rw [renumbered.empty drafted.empty]
  exact ⟨drafted.empty, drafted.drafts⟩

/-- The labels of a word that was renumbered lie behind its position. -/
theorem Word.Renumbered.closed {items : List Item} (increasing : Increasing words)
    (isWord : (word, i) ∈ words.zipIdx) (forward : word.Forward part items)
    (renumbered : Word.Renumbered part (labelMapOf words.zipIdx) words.length (word, i) word') :
    word'.Closed part words.length := by
  rcases renumbered.spelled items forward.spelled with ⟨items', spelled, moves⟩
  have carries := increasing.carries isWord forward.spelled.populated
  have moved := forward.ahead.moves carries moves
  refine ⟨items', ⟨spelled, ?_, ?_⟩, moved.2⟩
  · rw [renumbered.label]
    exact moved.1
  · rcases renumbered.same with ⟨retInsts, same⟩
    rw [← moves.length_eq, ← forward.length, same]

end Renumbered

theorem length_resetLabels (ready : ∀ word ∈ words, word.Ready part)
    (few : words.length ≤ 10 ^ 3) (returned : Random.Returns (resetLabels words part) after) :
    after.length = words.length := by
  rw [← (resetLabels_returns ready few returned).length_eq, List.length_zipIdx]

/-- Every word after `reset_labels` is one that was renumbered. -/
theorem getElem?_resetLabels (ready : ∀ word ∈ words, word.Ready part)
    (few : words.length ≤ 10 ^ 3) (returned : Random.Returns (resetLabels words part) after)
    {word' : Word} {i : Nat} (isAfter : after[i]? = some word') :
    ∃ word, (word, i) ∈ words.zipIdx ∧
      Word.Renumbered part (labelMapOf words.zipIdx) words.length (word, i) word' := by
  rcases getElem?_of_forall₂ (resetLabels_returns ready few returned) isAfter with
    ⟨⟨word, j⟩, isBefore, step⟩
  have position : j = i := by
    rw [List.getElem?_zipIdx] at isBefore
    rcases Option.map_eq_some_iff.mp isBefore with ⟨_, _, same⟩
    rw [Nat.zero_add] at same
    exact (Prod.mk.inj same).2.symm
  rw [position] at isBefore step
  exact ⟨word, List.mem_of_getElem? isBefore, step⟩

/-- After `reset_labels` the words are numbered, and their labels exist and lie ahead. -/
theorem resetLabels_numbered (fine : ∀ word ∈ words, word.Fine part)
    (increasing : Increasing words) (few : words.length ≤ 10 ^ 3)
    (returned : Random.Returns (resetLabels words part) after) :
    after.length = words.length ∧ Numbered part after := by
  have ready : ∀ word ∈ words, word.Ready part := fun word mem => (fine word mem).ready
  have length := length_resetLabels ready few returned
  refine ⟨length, ?_⟩
  rintro ⟨word', i⟩ isAfter
  rcases getElem?_resetLabels ready few returned (List.mk_mem_zipIdx_iff_getElem?.mp isAfter) with
    ⟨word, isWord, renumbered⟩
  refine ⟨renumbered.label, ?_⟩
  rw [length]
  rcases fine word (List.fst_mem_of_mem_zipIdx isWord) with drafted | ⟨items, forward⟩
  · exact Or.inl (renumbered.drafted drafted)
  · exact Or.inr (renumbered.closed increasing isWord forward)

end Reset

end Difftest.Fuzzer
