import Difftest.Fuzzer.NopMasks
import Difftest.Fuzzer.Populated

/-!
# New seeds

The words of a seed that is generated, mutated or merged are numbered from zero and closed.
Generated words are numbered in order; words that are kept from other seeds still increase and
are renumbered.
-/

namespace Difftest.Fuzzer

open Difftest.Text

/-! ## Parts -/

/-- The words of a part are numbered from zero, and their labels exist and lie ahead. -/
structure ClosedPart (part : Part) (words : List Word) : Prop where
  few : words.length ≤ maxNWords
  each : ∀ pair ∈ words.zipIdx, pair.1.label = pair.2 ∧ pair.1.Closed part words.length

namespace ClosedPart

variable {part : Part} {words : List Word}

theorem small (closed : ClosedPart part words) : words.length ≤ 10 ^ 3 :=
  closed.few.trans (by decide)

theorem mem (closed : ClosedPart part words) {word : Word} (isWord : word ∈ words) :
    word.label < words.length ∧ word.Closed part words.length := by
  rcases List.getElem?_of_mem isWord with ⟨i, isEntry⟩
  have pair := closed.each (word, i) (List.mk_mem_zipIdx_iff_getElem?.mpr isEntry)
  rw [pair.1]
  exact ⟨(List.getElem?_eq_some_iff.mp isEntry).1, pair.2⟩

theorem forward (closed : ClosedPart part words) : ∀ word ∈ words,
    ∃ items, word.Forward part items := by
  intro word isWord
  rcases (closed.mem isWord).2 with ⟨items, forward, _⟩
  exact ⟨items, forward⟩

theorem label (closed : ClosedPart part words) {i : Nat} {word : Word}
    (isEntry : words[i]? = some word) : word.label = i :=
  (closed.each (word, i) (List.mk_mem_zipIdx_iff_getElem?.mpr isEntry)).1

/-- The labels increase. -/
theorem increasing (closed : ClosedPart part words) : Increasing words := by
  apply List.pairwise_iff_getElem.mpr
  intro i j small small' before _ _
  rw [closed.label (List.getElem?_eq_getElem small), closed.label (List.getElem?_eq_getElem small')]
  exact before

end ClosedPart

/-! ## Generated words -/

theorem mem_rv64g {opcode : Text} {op : Opcode} (found : opcodesMap.get? opcode = some op) :
    (opcode, op) ∈ rv64g := by
  rw [opcodesMap] at found
  generalize rv64g = table at found ⊢
  exact Dict.mem_of_mem_ofList (Dict.mem_of_find found)

/-- The next label of a part. -/
def Generator.count (gen : Generator) (part : Part) : Nat := (gen.nextLabel part).1

section Count

variable (gen : Generator) (part : Part)

theorem Generator.count_nextLabel : (gen.nextLabel part).2.count part = gen.count part + 1 := by
  cases part with
  | pre => rfl
  | main => rfl
  | suf => rfl

theorem Generator.count_nextLabel_of_ne {other : Part} (different : other ≠ part) :
    (gen.nextLabel part).2.count other = gen.count other := by
  cases part with
  | pre =>
      cases other with
      | pre => exact absurd rfl different
      | main => rfl
      | suf => rfl
  | main =>
      cases other with
      | pre => rfl
      | main => exact absurd rfl different
      | suf => rfl
  | suf =>
      cases other with
      | pre => rfl
      | main => rfl
      | suf => exact absurd rfl different

variable {gen}

theorem Generator.Small.nextLabel (small : gen.Small) : (gen.nextLabel part).2.Small := by
  cases part with
  | pre => exact ⟨small.xregs, small.fregs⟩
  | main => exact ⟨small.xregs, small.fregs⟩
  | suf => exact ⟨small.xregs, small.fregs⟩

end Count

section Generated

variable {part : Part} {gen gen' : Generator} {word : Word} {words : List Word} {n : Nat}

/-- A new word is a draft with the next label. -/
theorem getWord_returns (returned : Random.Returns (gen.getWord part) (word, gen')) :
    word.Drafted ∧ word.label = gen.count part ∧ gen' = (gen.nextLabel part).2 := by
  rw [Generator.getWord] at returned
  rcases returned.bind with ⟨opcode, _, returned⟩
  dsimp only at returned
  rcases returned.bind with ⟨op, isOp, returned⟩
  rcases returned.bind with ⟨⟨tpe, insts, operands⟩, expanded, returned⟩
  have drafts := drafts_expand (mem_rv64g (Random.returns_ofOption.mp isOp)) expanded
  have same := Random.returns_pure.mp returned
  rw [Prod.mk.injEq] at same
  rw [same.1]
  exact ⟨⟨rfl, operands.form, drafts⟩, rfl, same.2⟩

/-- New words are drafts with consecutive labels. -/
theorem getWords_returns (small : gen.Small)
    (returned : Random.Returns (getWords part n gen) (words, gen')) :
    words.length = n ∧ gen'.Small ∧
      (∀ pair ∈ words.zipIdx (gen.count part), pair.1.label = pair.2 ∧ pair.1.Drafted) ∧
      ∀ other ≠ part, gen'.count other = gen.count other := by
  induction n generalizing gen words with
  | zero =>
      cases Random.returns_pure.mp returned
      exact ⟨rfl, small, List.forall_mem_nil _, fun _ _ => rfl⟩
  | succ n inductionHypothesis =>
      rw [getWords] at returned
      rcases returned.bind with ⟨⟨word, middle⟩, isWord, returned⟩
      rcases returned.bind with ⟨⟨rest, last⟩, isRest, returned⟩
      cases Random.returns_pure.mp returned
      rcases getWord_returns isWord with ⟨drafted, label, rfl⟩
      rcases inductionHypothesis (small.nextLabel part) isRest with ⟨length, small', each, same⟩
      refine ⟨congrArg Nat.succ length, small', ?_, ?_⟩
      · rw [List.zipIdx_cons, List.forall_mem_cons, ← gen.count_nextLabel]
        exact ⟨⟨label, drafted⟩, each⟩
      · intro other different
        exact (same other different).trans (gen.count_nextLabel_of_ne part different)

theorem numbered_getWords (small : gen.Small) (first : gen.count part = 0)
    (returned : Random.Returns (getWords part n gen) (words, gen')) : Numbered part words := by
  have each := (getWords_returns small returned).2.2.1
  rw [first] at each
  intro pair mem
  exact ⟨(each pair mem).1, Or.inl (each pair mem).2⟩

end Generated

/-! ## Words that are kept -/

section Kept

variable {part : Part} {gen gen' : Generator} {seedWords words : List Word}

/-- A word of a draft is not filled in. -/
theorem Word.Drafted.filter {word : Word} (drafted : word.Drafted) :
    [word].filter Word.populated = [] := by
  rw [List.filter_singleton, drafted.empty]
  rfl

/-- What stands in the place of a word after a mutation. -/
def keptFrom (part : Part) (word : Word) (rand : Nat) (gen : Generator) :
    Random (List Word × Generator) :=
  if rand < 50 then pure ([word], gen)
  else if rand < 75 then (fun drawn => ([word, drawn.1], drawn.2)) <$> gen.getWord part
  else pure ([], gen)

theorem mutateFrom_cons (word : Word) (rest : List Word) :
    mutateFrom part (word :: rest) gen = (do
      let rand ← Random.hundredths
      let (kept, gen) ← keptFrom part word rand gen
      let (words, gen) ← mutateFrom part rest gen
      pure (kept ++ words, gen)) := by
  rw [mutateFrom]
  apply bind_congr
  intro rand
  rw [keptFrom]
  split
  · rfl
  · split
    · rw [bind_map_left]
      rfl
    · rfl

/-- The word is kept or not, and a draft may come behind it. -/
theorem keptFrom_returns {word : Word} {rand : Nat} {kept : List Word} (fine : word.Fine part)
    (small : gen.Small) (returned : Random.Returns (keptFrom part word rand gen) (kept, gen')) :
    (∀ word ∈ kept, word.Fine part) ∧
      (kept.filter Word.populated).Sublist ([word].filter Word.populated) ∧ gen'.Small := by
  rw [keptFrom] at returned
  split at returned
  · cases Random.returns_pure.mp returned
    exact ⟨List.forall_mem_singleton.mpr fine, List.Sublist.refl _, small⟩
  · split at returned
    · rcases returned.map with ⟨⟨newWord, middle⟩, isNew, same⟩
      cases same
      rcases getWord_returns isNew with ⟨drafted, _, rfl⟩
      refine ⟨?_, ?_, small.nextLabel part⟩
      · rw [List.forall_mem_cons, List.forall_mem_singleton]
        exact ⟨fine, Or.inl drafted⟩
      · rw [← List.singleton_append, List.filter_append, drafted.filter, List.append_nil]
    · cases Random.returns_pure.mp returned
      exact ⟨List.forall_mem_nil _, List.nil_sublist _, small⟩

/-- A mutation keeps words in order and inserts drafts. -/
theorem mutateFrom_returns (fine : ∀ word ∈ seedWords, word.Fine part) (small : gen.Small)
    (returned : Random.Returns (mutateFrom part seedWords gen) (words, gen')) :
    (∀ word ∈ words, word.Fine part) ∧
      (words.filter Word.populated).Sublist (seedWords.filter Word.populated) ∧ gen'.Small := by
  induction seedWords generalizing gen words with
  | nil =>
      cases Random.returns_pure.mp returned
      exact ⟨List.forall_mem_nil _, List.Sublist.refl _, small⟩
  | cons word rest inductionHypothesis =>
      rw [List.forall_mem_cons] at fine
      rw [mutateFrom_cons] at returned
      rcases returned.bind with ⟨rand, _, returned⟩
      rcases returned.bind with ⟨⟨kept, middle⟩, isKept, returned⟩
      rcases returned.bind with ⟨⟨words', last⟩, isRest, returned⟩
      cases Random.returns_pure.mp returned
      rcases keptFrom_returns fine.1 small isKept with ⟨fineKept, sublist, small'⟩
      rcases inductionHypothesis fine.2 small' isRest with ⟨fineRest, sublistRest, small''⟩
      refine ⟨List.forall_mem_append.mpr ⟨fineKept, fineRest⟩, ?_, small''⟩
      rw [List.filter_append, ← List.singleton_append, List.filter_append]
      exact sublist.append sublistRest

theorem increasing_iff_filter {words : List Word} :
    Increasing words ↔ (words.filter Word.populated).Pairwise fun first second =>
      first.label < second.label :=
  List.pairwise_filter.symm

/-- `mutate_words` numbers the words that it keeps and inserts. -/
theorem mutateWords_returns {maxNum : Nat} (fine : ∀ word ∈ seedWords, word.Fine part)
    (increasing : Increasing seedWords) (few : maxNum ≤ maxNWords) (small : gen.Small)
    (returned : Random.Returns (mutateWords seedWords part maxNum gen) (words, gen')) :
    Numbered part words ∧ words.length ≤ maxNum ∧ gen'.Small := by
  rw [mutateWords] at returned
  rcases returned.bind with ⟨⟨mutated, last⟩, isMutated, returned⟩
  rcases returned.bind with ⟨after, isReset, returned⟩
  cases Random.returns_pure.mp returned
  rcases mutateFrom_returns fine small isMutated with ⟨fine', sublist, small'⟩
  have increasing' : Increasing mutated :=
    increasing_iff_filter.mpr ((increasing_iff_filter.mp increasing).sublist sublist)
  have length : (mutated.take maxNum).length ≤ maxNum := List.length_take_le _ _
  have numbered := resetLabels_numbered (fun word mem => fine' word (List.mem_of_mem_take mem))
    (increasing'.take) (length.trans (few.trans (by decide))) isReset
  refine ⟨numbered.2, ?_, small'⟩
  rw [numbered.1]
  exact length

end Kept

/-! ## Filling in -/

section Populate

variable {part : Part} {gen gen' : Generator} {words after : List Word} {maxLabel : Nat}

/-- What filling in does to a word. -/
structure Word.Populates (part : Part) (maxLabel : Nat) (word word' : Word) : Prop where
  label : word'.label = word.label
  insts : word'.insts = word.insts
  closed : word'.Closed part maxLabel

theorem populateWords_returns
    (each : ∀ word ∈ words, word.label < 10 ^ 3 ∧ (word.Drafted ∨ word.Closed part maxLabel))
    (small : gen.Small)
    (returned : Random.Returns (populateWords maxLabel part words gen) (after, gen')) :
    List.Forall₂ (Word.Populates part maxLabel) words after ∧ gen'.Small := by
  induction words generalizing gen after with
  | nil =>
      cases Random.returns_pure.mp returned
      exact ⟨List.Forall₂.nil, small⟩
  | cons word rest inductionHypothesis =>
      rw [List.forall_mem_cons] at each
      rw [populateWords] at returned
      rcases returned.bind with ⟨⟨word', middle⟩, isWord, returned⟩
      rcases returned.bind with ⟨⟨rest', last⟩, isRest, returned⟩
      cases Random.returns_pure.mp returned
      have first : word.Populates part maxLabel word' ∧ middle.Small := by
        rcases each.1 with ⟨few, drafted | closed⟩
        · rcases populateWord_drafted drafted few small isWord with ⟨label, insts, closed, small'⟩
          exact ⟨⟨label, insts, closed⟩, small'⟩
        · rcases closed with ⟨items, forward, bounded⟩
          rw [Generator.populateWord, if_pos forward.spelled.populated] at isWord
          cases Random.returns_pure.mp isWord
          exact ⟨⟨rfl, rfl, items, forward, bounded⟩, small⟩
      rcases inductionHypothesis each.2 first.2 isRest with ⟨rest, small'⟩
      exact ⟨List.Forall₂.cons first.1 rest, small'⟩

/-- The words of a part are closed when they are filled in. -/
theorem Numbered.populate (numbered : Numbered part words) (few : words.length ≤ maxNWords)
    (small : gen.Small)
    (returned : Random.Returns (populateWords words.length part words gen) (after, gen')) :
    ClosedPart part after ∧ lens after = lens words ∧ gen'.Small := by
  have each : ∀ word ∈ words,
      word.label < 10 ^ 3 ∧ (word.Drafted ∨ word.Closed part words.length) := by
    intro word mem
    rcases List.getElem?_of_mem mem with ⟨i, isEntry⟩
    have pair := numbered (word, i) (List.mk_mem_zipIdx_iff_getElem?.mpr isEntry)
    have inside : i < words.length := (List.getElem?_eq_some_iff.mp isEntry).1
    refine ⟨?_, pair.2⟩
    rw [pair.1]
    exact inside.trans_le (few.trans (by decide))
  rcases populateWords_returns each small returned with ⟨populates, small'⟩
  have length := populates.length_eq
  refine ⟨⟨length ▸ few, ?_⟩, ?_, small'⟩
  · rintro ⟨word', i⟩ isAfter
    rcases getElem?_of_forall₂ populates (List.mk_mem_zipIdx_iff_getElem?.mp isAfter) with
      ⟨word, isBefore, populate⟩
    have pair := numbered (word, i) (List.mk_mem_zipIdx_iff_getElem?.mpr isBefore)
    rw [← length]
    exact ⟨populate.label.trans pair.1, populate.closed⟩
  · rw [lens, lens, ← List.forall₂_eq_eq_eq, List.forall₂_map_left_iff, List.forall₂_map_right_iff]
    apply populates.flip.imp
    intro word' word populate
    exact congrArg List.length populate.insts

end Populate

/-! ## Seeds -/

/-- A seed whose parts are closed, with interrupts for all instructions of its main part. -/
structure SimInput.Sound (input : SimInput) : Prop where
  closed : ∀ part, ClosedPart part (input.wordsOf part)
  lengths : input.ints.length = (lens input.words).sum
  bits : ∀ int ∈ input.ints, int < 16
  template : input.template < 4

/-- A mutator with the numbers of words that it starts with and a corpus of closed seeds. -/
structure Mutator.Sound (mutator : Mutator) : Prop where
  numPre : mutator.numPre ≤ Fuzzer.maxNWords
  numWords : mutator.numWords ≤ Fuzzer.maxNWords
  numSuf : mutator.numSuf ≤ Fuzzer.maxNWords
  maxNWords : mutator.maxNWords ≤ Fuzzer.maxNWords
  corpus : ∀ input ∈ mutator.corpus, input.Sound

/-- Words that can be mutated. -/
structure Reusable (part : Part) (words : List Word) : Prop where
  fine : ∀ word ∈ words, word.Fine part
  increasing : Increasing words

theorem ClosedPart.reusable {part : Part} {words : List Word} (closed : ClosedPart part words) :
    Reusable part words :=
  ⟨fun word mem => Or.inr (closed.forward word mem), closed.increasing⟩

/-- Two parts that are joined at an index. -/
theorem Reusable.join {part : Part} {first second : List Word} (closed : ClosedPart part first)
    (closed' : ClosedPart part second) (idx : Nat) :
    Reusable part (first.take idx ++ second.drop idx) where
  fine word mem := by
    rcases List.mem_append.mp mem with inFirst | inSecond
    · exact closed.reusable.fine word (List.mem_of_mem_take inFirst)
    · exact closed'.reusable.fine word (List.mem_of_mem_drop inSecond)
  increasing := by
    apply List.pairwise_append.mpr
    refine ⟨closed.increasing.take, closed'.increasing.drop, ?_⟩
    intro word isFirst word' isSecond _ _
    rcases List.mem_take_iff_getElem.mp isFirst with ⟨i, small, rfl⟩
    rcases List.mem_drop_iff_getElem.mp isSecond with ⟨j, small', rfl⟩
    rw [closed.label (List.getElem?_eq_getElem _), closed'.label (List.getElem?_eq_getElem _)]
    omega

namespace Mutator

variable {mutator : Mutator}

/-- The template that is kept is one of the four. -/
def Draft.Kept (draft : Draft) : Prop := ∀ kept ∈ draft.kept, kept.2 < 4

theorem parents_returns {parents : Draft} (sound : mutator.Sound)
    (returned : Random.Returns mutator.parents parents) :
    Reusable .pre parents.pre ∧ Reusable .main parents.words ∧ Reusable .suf parents.suf ∧
      parents.Kept := by
  rw [Mutator.parents] at returned
  split at returned
  · rcases returned.bind with ⟨first, isFirst, returned⟩
    rcases returned.bind with ⟨second, isSecond, returned⟩
    rcases returned.bind with ⟨idx, _, returned⟩
    cases Random.returns_pure.mp returned
    have sound₁ := sound.corpus first isFirst.choice
    have sound₂ := sound.corpus second isSecond.choice
    refine ⟨(sound₁.closed .pre).reusable, Reusable.join (sound₁.closed .main) (sound₂.closed .main)
      idx, (sound₁.closed .suf).reusable, ?_⟩
    rintro kept ⟨⟩
    exact sound₁.template
  · rcases returned.bind with ⟨seed, isSeed, returned⟩
    cases Random.returns_pure.mp returned
    have sound' := sound.corpus seed isSeed.choice
    refine ⟨(sound'.closed .pre).reusable, (sound'.closed .main).reusable,
      (sound'.closed .suf).reusable, ?_⟩
    rintro kept ⟨⟩
    exact sound'.template

/-- The parts of a draft are numbered, and the words that were kept are closed. -/
structure Draft.Sound (draft : Draft) : Prop where
  pre : Numbered .pre draft.pre ∧ draft.pre.length ≤ Fuzzer.maxNWords
  words : Numbered .main draft.words ∧ draft.words.length ≤ Fuzzer.maxNWords
  suf : Numbered .suf draft.suf ∧ draft.suf.length ≤ Fuzzer.maxNWords
  kept : draft.Kept

theorem draft_returns {draft : Draft} {gen : Generator} (sound : mutator.Sound)
    (returned : Random.Returns mutator.draft (draft, gen)) : draft.Sound ∧ gen.Small := by
  rw [Mutator.draft] at returned
  split at returned
  · rcases returned.bind with ⟨⟨pre, gen₁⟩, isPre, returned⟩
    rcases returned.bind with ⟨⟨words, gen₂⟩, isWords, returned⟩
    rcases returned.bind with ⟨⟨suf, gen₃⟩, isSuf, returned⟩
    cases Random.returns_pure.mp returned
    rcases getWords_returns Generator.small_reset isPre with ⟨lengthPre, small₁, _, same₁⟩
    rcases getWords_returns small₁ isWords with ⟨lengthWords, small₂, _, same₂⟩
    rcases getWords_returns small₂ isSuf with ⟨lengthSuf, small₃, _, _⟩
    have firstWord : gen₁.count .main = 0 := same₁ .main (by decide)
    have firstSuf : gen₂.count .suf = 0 := by
      rw [same₂ .suf (by decide), same₁ .suf (by decide)]
      rfl
    refine ⟨⟨⟨numbered_getWords Generator.small_reset rfl isPre, ?_⟩,
      ⟨numbered_getWords small₁ firstWord isWords, ?_⟩,
      ⟨numbered_getWords small₂ firstSuf isSuf, ?_⟩, nofun⟩, small₃⟩
    · rw [lengthPre]
      exact sound.numPre
    · rw [lengthWords]
      exact sound.numWords
    · rw [lengthSuf]
      exact sound.numSuf
  · rcases returned.bind with ⟨parents, isParents, returned⟩
    rcases returned.bind with ⟨⟨pre, gen₁⟩, isPre, returned⟩
    rcases returned.bind with ⟨⟨words, gen₂⟩, isWords, returned⟩
    rcases returned.bind with ⟨⟨suf, gen₃⟩, isSuf, returned⟩
    cases Random.returns_pure.mp returned
    rcases parents_returns sound isParents with ⟨reusePre, reuseWords, reuseSuf, kept⟩
    rcases mutateWords_returns reusePre.fine reusePre.increasing sound.numPre
      Generator.small_reset isPre with ⟨numberedPre, lengthPre, small₁⟩
    rcases mutateWords_returns reuseWords.fine reuseWords.increasing sound.maxNWords
      small₁ isWords with ⟨numberedWords, lengthWords, small₂⟩
    rcases mutateWords_returns reuseSuf.fine reuseSuf.increasing sound.numSuf
      small₂ isSuf with ⟨numberedSuf, lengthSuf, small₃⟩
    exact ⟨⟨⟨numberedPre, lengthPre.trans sound.numPre⟩,
      ⟨numberedWords, lengthWords.trans sound.maxNWords⟩,
      ⟨numberedSuf, lengthSuf.trans sound.numSuf⟩, kept⟩, small₃⟩

/-- One drawn interrupt or none. -/
theorem drawInts_returns {assertIntr : Bool} {len : Nat} {ints : List Nat}
    (returned : Random.Returns (drawInts assertIntr len) ints) :
    ints.length = len ∧ ∀ int ∈ ints, int < 16 := by
  have none : ∀ int ∈ List.replicate len 0, int < 16 := by
    intro int mem
    rw [List.eq_of_mem_replicate mem]
    decide
  rw [drawInts] at returned
  split at returned
  · split at returned
    · exact absurd returned Random.not_returns_raise
    · rcases returned.bind with ⟨idx, _, returned⟩
      rcases returned.bind with ⟨int, isInt, returned⟩
      cases Random.returns_pure.mp returned
      refine ⟨by rw [List.length_set, List.length_replicate], ?_⟩
      intro other mem
      rcases List.mem_or_eq_of_mem_set mem with isZero | rfl
      · exact none other isZero
      · exact isInt.randint.2.trans_lt (by decide)
  · cases Random.returns_pure.mp returned
    exact ⟨List.length_replicate, none⟩

/-- `get` returns a closed seed. -/
theorem get_returns {assertIntr : Bool} {input : SimInput} {data : List Nat} {mutator' : Mutator}
    (sound : mutator.Sound)
    (returned : Random.Returns (mutator.get assertIntr) ((input, data), mutator')) :
    input.Sound := by
  rw [Mutator.get] at returned
  rcases returned.bind with ⟨⟨draft, gen₁⟩, isDraft, returned⟩
  rcases returned.bind with ⟨⟨pre, gen₂⟩, isPre, returned⟩
  rcases returned.bind with ⟨⟨words, gen₃⟩, isWords, returned⟩
  rcases returned.bind with ⟨⟨suf, gen₄⟩, isSuf, returned⟩
  rcases returned.bind with ⟨ints, isInts, returned⟩
  rcases draft_returns sound isDraft with ⟨soundDraft, small₁⟩
  rcases soundDraft.pre.1.populate soundDraft.pre.2 small₁ isPre with ⟨closedPre, _, small₂⟩
  rcases soundDraft.words.1.populate soundDraft.words.2 small₂ isWords with
    ⟨closedWords, lengths, small₃⟩
  rcases soundDraft.suf.1.populate soundDraft.suf.2 small₃ isSuf with ⟨closedSuf, _, _⟩
  rcases drawInts_returns isInts with ⟨length, bits⟩
  have sound' : ∀ dataSeed, ∀ template < 4,
      SimInput.Sound ⟨pre, words, suf, ints, dataSeed, template⟩ := by
    intro dataSeed template small
    refine ⟨?_, length.trans (congrArg List.sum lengths).symm, bits, small⟩
    intro part
    cases part with
    | pre => exact closedPre
    | main => exact closedWords
    | suf => exact closedSuf
  cases isKept : draft.kept with
  | none =>
      rw [isKept] at returned
      rcases returned.bind with ⟨⟨seed, seeds⟩, _, returned⟩
      rcases returned.bind with ⟨template, isTemplate, returned⟩
      rcases returned.bind with ⟨found, _, returned⟩
      cases Random.returns_pure.mp returned
      exact sound' seed template (isTemplate.randint.2.trans_lt (by decide))
  | some kept =>
      rcases kept with ⟨seed, template⟩
      rw [isKept] at returned
      rcases returned.bind with ⟨seeds, _, returned⟩
      rcases returned.bind with ⟨both, isBoth, returned⟩
      cases Random.returns_pure.mp isBoth
      rcases returned.bind with ⟨template', isTemplate, returned⟩
      cases Random.returns_pure.mp isTemplate
      rcases returned.bind with ⟨found, _, returned⟩
      cases Random.returns_pure.mp returned
      exact sound' seed template (soundDraft.kept _ isKept)

end Mutator

end Difftest.Fuzzer
