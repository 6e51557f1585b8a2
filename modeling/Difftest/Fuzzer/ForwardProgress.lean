import Difftest.Fuzzer.DataSeeds
import Difftest.Fuzzer.NewSeeds
import Difftest.Fuzzer.Session

/-!
# Forward progress

The seeds of a session are closed: the words of each part are numbered from zero, the labels
in their instructions exist, and a word that transfers control names labels behind it.  Seeds
stay closed when they are minimised, and when they are saved and read again.
-/

namespace Difftest.Fuzzer

open Difftest.Text

/-! ## Labels in a text -/

/-- The text names a label. -/
def Names (part : Part) (text : Text) (n : Nat) : Prop :=
  ∃ front rest, text = front ++ (part.mark ++ (str n ++ rest)) ∧
    ∀ c ∈ rest.head?, digitValue 10 c = none

theorem takeWhile_str {n : Nat} {rest : Text} (ends : ∀ c ∈ rest.head?, digitValue 10 c = none) :
    (str n ++ rest).takeWhile (fun c => (digitValue 10 c).isSome) = str n := by
  have stop : rest.takeWhile (fun c => (digitValue 10 c).isSome) = [] := by
    cases rest with
    | nil => rfl
    | cons c rest => simp [ends c rfl]
  rw [List.takeWhile_append_of_pos fun c => digitValue_of_mem_str, stop, List.append_nil]

/-- A label ends where its digits end. -/
theorem str_append_inj {m n : Nat} {rest rest' : Text}
    (ends : ∀ c ∈ rest.head?, digitValue 10 c = none)
    (ends' : ∀ c ∈ rest'.head?, digitValue 10 c = none)
    (same : str m ++ rest = str n ++ rest') : m = n := by
  have digits : str m = str n := by
    rw [← takeWhile_str ends, same, takeWhile_str ends']
  have numbers := ReadState.natOf_str m
  rw [digits, ReadState.natOf_str] at numbers
  exact (Option.some.inj numbers).symm

theorem head?_blanks (k : Nat) : ∀ c ∈ (List.replicate k ' ').head?, digitValue 10 c = none := by
  intro c isHead
  rw [List.eq_of_mem_replicate (List.mem_of_mem_head? isHead)]
  decide

theorem opcodeOf_rstrip (text : Text) : opcodeOf (rstrip text) = opcodeOf text := by
  rcases exists_rstrip_append text with ⟨blanks, parts⟩
  by_cases blank : ' ' ∈ rstrip text
  · calc
      opcodeOf (rstrip text) = opcodeOf (rstrip text ++ List.replicate blanks ' ') :=
        (opcodeOf_append blank _).symm
      _ = opcodeOf text := by rw [← parts]
  · have plain : ∀ c ∈ rstrip text, decide (c ≠ ' ') = true := by
      intro c mem
      rw [decide_eq_true_eq]
      rintro rfl
      exact blank mem
    calc
      opcodeOf (rstrip text) = rstrip text := List.takeWhile_eq_self_iff.mpr plain
      _ = rstrip text ++ (List.replicate blanks ' ').takeWhile (· ≠ ' ') := by
        rw [List.takeWhile_replicate]
        simp
      _ = opcodeOf (rstrip text ++ List.replicate blanks ' ') :=
        (List.takeWhile_append_of_pos plain).symm
      _ = opcodeOf text := by rw [← parts]

namespace Item.Spells

variable {part : Part} {item : Item} {text : Text}

/-- The label of an item is the only one in its text. -/
theorem target_of_eq_append (spells : item.Spells part text) {front rest : Text}
    (parts : text = front ++ (part.mark ++ rest)) :
    ∃ n ∈ item.target, ∃ blanks, rest = str n ++ List.replicate blanks ' ' := by
  rcases item with ⟨stem, target⟩
  cases target with
  | none =>
      have absent := spells.contains_mark
      rw [contains, decide_eq_false_iff_not] at absent
      exact absurd ⟨front, rest, by rw [parts, List.append_assoc]⟩ absent
  | some n =>
      have noMark : '_' ∉ stem := spells.clear
      rcases spells.exists_blanks with ⟨blanks, spelling⟩
      rcases mark_eq part with ⟨c, mark, _, notMark⟩
      refine ⟨n, rfl, blanks, ?_⟩
      rw [mark] at spelling parts
      have before : '_' ∉ stem ++ ", ".toList := by
        rw [List.mem_append, not_or]
        exact ⟨noMark, by decide⟩
      have behind : '_' ∉ c :: (str n ++ List.replicate blanks ' ') := by
        rw [List.mem_cons, List.mem_append, not_or, not_or]
        refine ⟨notMark.symm, fun mem => digit_ne mem (by decide) rfl, ?_⟩
        exact fun mem => absurd (List.eq_of_mem_replicate mem) (by decide)
      have same : stem ++ ", ".toList ++ '_' :: (c :: (str n ++ List.replicate blanks ' ')) =
          front ++ '_' :: (c :: rest) := by
        rw [List.append_assoc]
        exact spelling.symm.trans parts
      rcases (List.append_cons_inj_of_notMem before behind).mp same with ⟨_, _, tails⟩
      exact (List.cons.inj tails).2.symm

/-- The text names the label of its item and no other. -/
theorem names_iff (spells : item.Spells part text) (n : Nat) :
    Names part text n ↔ n ∈ item.target := by
  constructor
  · rintro ⟨front, rest, parts, ends⟩
    rcases spells.target_of_eq_append parts with ⟨m, isTarget, blanks, same⟩
    rw [str_append_inj ends (head?_blanks blanks) same]
    exact isTarget
  · intro isTarget
    rcases item with ⟨stem, target⟩
    cases isTarget
    rcases spells.exists_blanks with ⟨blanks, spelling⟩
    refine ⟨stem ++ ", ".toList, List.replicate blanks ' ', ?_, head?_blanks blanks⟩
    rw [spelling, List.append_assoc]

/-- The opcode of the text is that of the item. -/
theorem opcodeOf_eq (spells : item.Spells part text) (sound : item.Sound) :
    opcodeOf text = opcodeOf item.stem := by
  rw [← opcodeOf_rstrip, spells.same, opcodeOf_rstrip]
  cases isTarget : item.target with
  | none => rw [Item.spell, isTarget]
  | some n =>
      have blank : ' ' ∈ item.stem := (sound.label (by rw [isTarget]; exact Option.some_ne_none n)).2
      rw [Item.spell, isTarget]
      exact opcodeOf_append blank _

end Item.Spells

/-! ## Words -/

/-- The instructions of a word name labels that exist, and a word that transfers control names
labels behind its position. -/
structure Word.Progress (part : Part) (position count : Nat) (word : Word) : Prop where
  label : word.label = position
  lines : word.retInsts = Word.lines part position word.texts
  /-- What looks like a label is one. -/
  labels : ∀ text ∈ word.texts, ∀ front rest, text = front ++ (part.mark ++ rest) →
    ∃ n ≤ count, ∃ blanks, rest = str n ++ List.replicate blanks ' '
  target : (∃ text ∈ word.texts, opcodeOf text ∈ transferOpcodes) →
    ∃ text ∈ word.texts, ∃ n, Names part text n
  ahead : (∃ text ∈ word.texts, opcodeOf text ∈ transferOpcodes) →
    ∀ text ∈ word.texts, ∀ n, Names part text n → position < n ∧ n ≤ count

theorem Word.Spelled.texts {part : Part} {items : List Item} {word : Word}
    (spelled : word.Spelled part items) :
    word.retInsts = Word.lines part word.label word.texts ∧
      List.Forall₂ (Item.Spells part) items word.texts := by
  rcases spelled.lines with ⟨texts, lines, spells⟩
  have same : word.texts = texts := by
    rw [Word.texts, lines, map_drop_lines spelled.small]
  rw [same]
  exact ⟨lines, spells⟩

theorem Word.Closed.progress {part : Part} {count : Nat} {word : Word}
    (closed : word.Closed part count) : word.Progress part word.label count := by
  rcases closed with ⟨items, forward, bounded⟩
  rcases forward.spelled.texts with ⟨lines, spells⟩
  have transfers : (∃ text ∈ word.texts, opcodeOf text ∈ transferOpcodes) →
      ∃ item ∈ items, item.Transfers := by
    rintro ⟨text, isText, transfer⟩
    rcases exists_of_forall₂ spells isText with ⟨item, isItem, spell⟩
    rw [spell.opcodeOf_eq (forward.ahead.sound item isItem)] at transfer
    exact ⟨item, isItem, transfer⟩
  constructor
  case label => rfl
  case lines => exact lines
  case labels =>
    intro text isText front rest parts
    rcases exists_of_forall₂ spells isText with ⟨item, isItem, spell⟩
    rcases spell.target_of_eq_append parts with ⟨n, isTarget, blanks⟩
    exact ⟨n, bounded item isItem n isTarget, blanks⟩
  case target =>
    intro transfer
    rcases forward.ahead.named (transfers transfer) with ⟨item, isItem, isLabel⟩
    rcases exists_right_of_forall₂ spells isItem with ⟨text, isText, spell⟩
    rcases Option.ne_none_iff_exists'.mp isLabel with ⟨n, isTarget⟩
    exact ⟨text, isText, n, (spell.names_iff n).mpr isTarget⟩
  case ahead =>
    intro transfer text isText n names
    rcases exists_of_forall₂ spells isText with ⟨item, isItem, spell⟩
    have isTarget := (spell.names_iff n).mp names
    exact ⟨forward.ahead.ahead (transfers transfer) item isItem n isTarget,
      bounded item isItem n isTarget⟩

/-! ## Minimising -/

section Minimising

variable {part : Part} {words after : List Word}

/-- `nop` is closed under any label. -/
theorem closed_nopOf {word : Word} (small : word.label < 10 ^ 3) (count : Nat) :
    (nopOf part word).Closed part count := by
  have clear : contains part.mark "nop".toList = false := by
    cases part with
    | pre => decide
    | main => decide
    | suf => decide
  refine ⟨[⟨"nop".toList, none⟩], ⟨⟨rfl, small, List.cons_ne_nil _ _,
    [ljust 42 "nop".toList], rfl, ?_⟩, ?_, rfl⟩, ?_⟩
  · exact List.Forall₂.cons ⟨clear, rstrip_ljust 42 _⟩ List.Forall₂.nil
  · constructor
    · intro item mem
      rw [List.mem_singleton.mp mem]
      constructor
      · decide
      · exact fun _ => by decide
      · exact fun isLabel => absurd rfl isLabel
    · rintro ⟨item, mem, transfer⟩
      rw [List.mem_singleton.mp mem, Item.Transfers] at transfer
      exact absurd transfer (by decide)
    · rintro ⟨item, mem, transfer⟩
      rw [List.mem_singleton.mp mem, Item.Transfers] at transfer
      exact absurd transfer (by decide)
  · intro item mem n isTarget
    rw [List.mem_singleton.mp mem] at isTarget
    cases isTarget

/-- Masked words are closed. -/
theorem ClosedPart.masked (closed : ClosedPart part words) {mask : List Bool}
    (length : words.length = mask.length) : ClosedPart part (masked part words mask) := by
  have same : (Fuzzer.masked part words mask).length = words.length := by
    rw [Fuzzer.masked, List.length_zipWith, length, min_self]
  constructor
  · rw [same]
    exact closed.few
  · rintro ⟨word', i⟩ isAfter
    rw [List.mk_mem_zipIdx_iff_getElem?, Fuzzer.masked, List.getElem?_zipWith_eq_some] at isAfter
    rcases isAfter with ⟨word, isMasked, isWord, _, rfl⟩
    have isClosed := (closed.mem (List.mem_of_getElem? isWord)).2
    have label := closed.label isWord
    rw [same]
    cases isMasked with
    | false => exact ⟨label, isClosed⟩
    | true =>
        have inside := (closed.mem (List.mem_of_getElem? isWord)).1
        exact ⟨label, closed_nopOf (inside.trans_le closed.small) _⟩

/-- Renumbering closed words that increase closes the part. -/
theorem closedPart_resetLabels (forward : ∀ word ∈ words, ∃ items, word.Forward part items)
    (increasing : Increasing words) (few : words.length ≤ maxNWords)
    (returned : Random.Returns (resetLabels words part) after) : ClosedPart part after := by
  have ready : ∀ word ∈ words, word.Ready part := by
    intro word mem
    rcases forward word mem with ⟨items, isForward⟩
    exact Or.inr ⟨items, isForward.spelled⟩
  have few' : words.length ≤ 10 ^ 3 := few.trans (by decide)
  have length := length_resetLabels ready few' returned
  constructor
  · rw [length]
    exact few
  · rintro ⟨word', i⟩ isAfter
    rcases getElem?_resetLabels ready few' returned
      (List.mk_mem_zipIdx_iff_getElem?.mp isAfter) with ⟨word, isWord, renumbered⟩
    rcases forward word (List.fst_mem_of_mem_zipIdx isWord) with ⟨items, isForward⟩
    rw [length]
    exact ⟨renumbered.label, renumbered.closed increasing isWord isForward⟩

/-- Deleting words closes the part again. -/
theorem ClosedPart.deleted (closed : ClosedPart part words)
    (returned : Random.Returns (resetLabels (keptWords words) part) after) :
    ClosedPart part after := by
  apply closedPart_resetLabels _ _ _ returned
  · exact fun word mem => closed.forward word (List.mem_of_mem_filter mem)
  · exact closed.increasing.filter _
  · exact (List.length_filter_le _ _).trans closed.few

end Minimising

namespace SimInput

variable {seeds : DataSeeds} {input input' : SimInput} {data : List Nat}

/-- The words of one part are replaced. -/
theorem Sound.setWords (sound : input.Sound) {part : Part} {words : List Word} {ints : List Nat}
    (closed : ClosedPart part words)
    (lengths : ints.length = (lens (input.setWords part words).words).sum)
    (bits : ∀ int ∈ ints, int < 16) :
    SimInput.Sound { input.setWords part words with ints } := by
  refine ⟨?_, lengths, bits, ?_⟩
  · intro other
    cases part with
    | pre =>
        cases other with
        | pre => exact closed
        | main => exact sound.closed .main
        | suf => exact sound.closed .suf
    | main =>
        cases other with
        | pre => exact sound.closed .pre
        | main => exact closed
        | suf => exact sound.closed .suf
    | suf =>
        cases other with
        | pre => exact sound.closed .pre
        | main => exact sound.closed .main
        | suf => exact closed
  · cases part with
    | pre => exact sound.template
    | main => exact sound.template
    | suf => exact sound.template

theorem Sound.nonempty (sound : input.Sound) : ∀ word ∈ input.words, word.insts ≠ [] := by
  intro word mem
  rcases (sound.closed .main).forward word mem with ⟨items, forward⟩
  apply List.ne_nil_of_length_pos
  rw [forward.length]
  exact List.length_pos_of_ne_nil forward.spelled.nonempty

/-- `make_nop` keeps a seed closed. -/
theorem Sound.makeNop (sound : input.Sound) {mask : List Bool} {part : Part}
    (returned : Fuzzer.makeNop seeds input mask part = some (input', data)) : input'.Sound := by
  have length : (input.wordsOf part).length = mask.length := by
    rw [Fuzzer.makeNop] at returned
    split at returned
    · assumption
    · cases returned
  have closed := (sound.closed part).masked length
  rw [Fuzzer.makeNop, if_pos length, maskWords_eq, Option.bind_some] at returned
  rcases Option.bind_eq_some_iff.mp returned with ⟨ints, isInts, returned⟩
  rcases Option.map_eq_some_iff.mp returned with ⟨found, isFound, same⟩
  cases same
  cases part with
  | pre =>
      cases isInts
      exact sound.setWords closed sound.lengths sound.bits
  | suf =>
      cases isInts
      exact sound.setWords closed sound.lengths sound.bits
  | main =>
      have right : mask.length = input.words.length := length.symm
      have enough : (maskedLens input.words mask).sum ≤ input.ints.length := by
        rw [sound.lengths]
        exact sum_maskedLens_le sound.nonempty mask
      have newLength : (maskedLens input.words mask).length = mask.length := by
        rw [maskedLens, List.length_zipWith, right, min_self]
      have found := @nopInts_masked mask input.words input.ints .main sound.lengths.ge right
        sound.nonempty
      rw [if_pos rfl] at isInts
      cases found.symm.trans isInts
      apply sound.setWords closed
      · rw [List.length_flatten, map_length_maskSlices enough newLength]
        exact congrArg List.sum (lens_masked .main input.words mask).symm
      · intro int mem
        rcases mem_maskSlices mem with rfl | ⟨slice, isSlice, inside⟩
        · decide
        · exact sound.bits int (mem_of_mem_splitLengths isSlice inside)

/-- `delete_nop` keeps a seed closed. -/
theorem Sound.deleteNop (sound : input.Sound)
    (returned : Random.Returns (Fuzzer.deleteNop seeds input) (input', data)) : input'.Sound := by
  have isDeleted := deletes_of_deleteNop sound.lengths returned
  rw [Fuzzer.deleteNop] at returned
  rcases returned.bind with ⟨pre, isPre, returned⟩
  rcases returned.bind with ⟨words, isWords, returned⟩
  rcases returned.bind with ⟨suf, isSuf, returned⟩
  rcases returned.bind with ⟨found, isData, returned⟩
  cases Random.returns_pure.mp returned
  refine ⟨?_, isDeleted.length, ?_, sound.template⟩
  · intro part
    cases part with
    | pre => exact (sound.closed .pre).deleted isPre
    | main => exact (sound.closed .main).deleted isWords
    | suf => exact (sound.closed .suf).deleted isSuf
  · intro int mem
    dsimp only at mem
    rw [keptInts_eq, List.drop_zero] at mem
    rcases List.mem_flatten.mp mem with ⟨slice, isKept, inside⟩
    rcases List.mem_map.mp isKept with ⟨⟨word, slice'⟩, isPair, rfl⟩
    have isSlice := (List.of_mem_zip (List.mem_of_mem_filter isPair)).2
    exact sound.bits int (mem_of_mem_splitLengths isSlice inside)

end SimInput

/-! ## Saving and reading -/

section Reading

variable {part : Part} {item : Item} {text : Text} {words : List Word} {count : Nat}

/-- The text of an item fits its columns. -/
theorem Item.Spells.fits (spells : item.Spells part text) (sound : item.Sound)
    (bounded : ∀ n ∈ item.target, n < 10 ^ 3) : Fits text := by
  have chars : ∀ c ∈ item.spell part, c ∉ [':', '\n', '\r'] := by
    intro c mem
    rw [Item.spell] at mem
    split at mem
    · exact sound.chars c mem
    · rename_i n _
      rcases List.mem_append.mp mem with inStem | mem
      · exact sound.chars c inStem
      rcases List.mem_append.mp mem with inComma | mem
      · exact (by decide : ∀ c ∈ ", ".toList, c ∉ [':', '\n', '\r']) c inComma
      rcases List.mem_append.mp mem with inMark | inNumber
      · cases part with
        | pre => exact (by decide : ∀ c ∈ Part.pre.mark, c ∉ [':', '\n', '\r']) c inMark
        | main => exact (by decide : ∀ c ∈ Part.main.mark, c ∉ [':', '\n', '\r']) c inMark
        | suf => exact (by decide : ∀ c ∈ Part.suf.mark, c ∉ [':', '\n', '\r']) c inMark
      · exact plain_str n c inNumber
  have short : (item.spell part).length ≤ 42 := by
    cases isTarget : item.target with
    | none =>
        rw [Item.spell, isTarget]
        exact sound.plain isTarget
    | some n =>
        have stem := (sound.label (by rw [isTarget]; exact Option.some_ne_none n)).1
        have digits := length_str_le (bounded n isTarget)
        have mark : part.mark.length = 2 := by
          cases part with
          | pre => rfl
          | main => rfl
          | suf => rfl
        have comma : ", ".toList.length = 2 := rfl
        rw [Item.spell, isTarget]
        simp only [List.length_append, mark, comma]
        omega
  have plain : ∀ c ∈ text, c ∉ [':', '\n', '\r'] := by
    intro c mem
    rcases exists_rstrip_append text with ⟨blanks, parts⟩
    rw [parts, spells.same, List.mem_append] at mem
    rcases mem with inside | isBlank
    · exact chars c ((List.rdropWhile_prefix _ _).subset inside)
    · rw [List.eq_of_mem_replicate isBlank]
      decide
  constructor
  · rw [spells.same]
    exact (List.rdropWhile_prefix _ _).length_le.trans short
  · intro c mem
    have listed := plain c mem
    simp only [List.mem_cons, not_or] at listed
    exact ⟨listed.2.1, listed.2.2.1⟩
  · apply contains_of_notMem (by decide : ':' ∈ "data:".toList)
    exact fun mem => plain ':' mem (by decide)

theorem Word.Closed.fits {word : Word} (closed : word.Closed part count) (few : count < 10 ^ 3) :
    ∀ text ∈ word.texts, Fits text := by
  rcases closed with ⟨items, forward, bounded⟩
  intro text mem
  rcases exists_of_forall₂ forward.spelled.texts.2 mem with ⟨item, isItem, spells⟩
  apply spells.fits (forward.ahead.sound item isItem)
  exact fun n isTarget => (bounded item isItem n isTarget).trans_lt few

theorem Word.Closed.length_texts {word : Word} (closed : word.Closed part count) :
    word.texts.length = word.lenInsts := by
  rcases closed with ⟨items, forward, _⟩
  rw [← forward.spelled.texts.2.length_eq, ← forward.length]
  rfl

theorem ClosedPart.few_lt (closed : ClosedPart part words) : words.length < 10 ^ 3 :=
  closed.few.trans_lt (by decide)

/-- A closed part can be saved. -/
theorem ClosedPart.savable (closed : ClosedPart part words) : Savable part words where
  few := closed.few
  labels := by
    apply List.ext_getElem
    · rw [List.length_map, List.length_range]
    · intro i small _
      rw [List.length_map] at small
      rw [List.getElem_map, List.getElem_range]
      exact closed.label (List.getElem?_eq_getElem small)
  laid word mem := by
    have isClosed := (closed.mem mem).2
    refine ⟨word.texts, ?_, isClosed.fits closed.few_lt⟩
    rcases isClosed with ⟨items, forward, _⟩
    rcases forward.spelled.texts with ⟨lines, spells⟩
    refine ⟨forward.spelled.populated, lines, ?_⟩
    apply List.ne_nil_of_length_pos
    rw [← spells.length_eq]
    exact List.length_pos_of_ne_nil forward.spelled.nonempty

/-- A word stays closed when it is saved and read. -/
theorem Word.Closed.readWord {word : Word} (closed : word.Closed part count)
    (few : count < 10 ^ 3) :
    (Fuzzer.readWord part word.label (word.texts.map cut)).Closed part count := by
  have fits := closed.fits few
  rcases closed with ⟨items, forward, bounded⟩
  have spells := forward.spelled.texts.2
  refine ⟨items, ⟨⟨rfl, forward.spelled.small, forward.spelled.nonempty, _, rfl, ?_⟩,
    forward.ahead, ?_⟩, bounded⟩
  · rw [List.forall₂_map_right_iff]
    have both := (List.forall₂_and_left _ _).mpr ⟨fits, spells.flip⟩
    apply both.flip.imp
    intro item text fitting
    exact fitting.2.congr (rstrip_cut fitting.1.short)
  · rw [spells.length_eq]
    exact List.length_map _

/-- The words of a part stay closed when they are saved and read. -/
theorem ClosedPart.read (closed : ClosedPart part words) :
    ClosedPart part (words.map fun word => readWord part word.label (word.texts.map cut)) where
  few := by
    rw [List.length_map]
    exact closed.few
  each := by
    rintro ⟨word', i⟩ isEntry
    rw [List.mk_mem_zipIdx_iff_getElem?, List.getElem?_map, Option.map_eq_some_iff] at isEntry
    rcases isEntry with ⟨word, isWord, rfl⟩
    have label : word.label = i := closed.label isWord
    rw [List.length_map]
    exact ⟨label, (closed.mem (List.mem_of_getElem? isWord)).2.readWord closed.few_lt⟩

theorem ClosedPart.lens_read (closed : ClosedPart part words) :
    lens (words.map fun word => readWord part word.label (word.texts.map cut)) = lens words := by
  rw [lens, List.map_map, lens]
  apply List.map_congr_left
  intro word mem
  exact (List.length_map _).trans (closed.mem mem).2.length_texts

theorem ClosedPart.length_lines (closed : ClosedPart part words) :
    (words.flatMap Word.retInsts).length = (lens words).sum := by
  rw [List.length_flatMap, lens]
  congr 1
  apply List.map_congr_left
  intro word mem
  rw [← (closed.mem mem).2.length_texts, Word.texts, List.length_map]

/-- A saved seed stays closed when it is read. -/
theorem SimInput.Sound.readSiminput {input input' : SimInput} {data data' : List Nat}
    {seeds seeds' : DataSeeds} {file : Text} {intr : Bool} (sound : input.Sound)
    (saved : input.save data = some file)
    (returned : Random.Returns (Fuzzer.readSiminput seeds file) ((input', data', intr), seeds')) :
    input'.Sound := by
  have closedPre := sound.closed .pre
  have closedMain := sound.closed .main
  have closedSuf := sound.closed .suf
  have lengths : input.ints.length = (input.words.flatMap Word.retInsts).length :=
    sound.lengths.trans closedMain.length_lines.symm
  rcases readSiminput_returns sound.template closedPre.savable closedMain.savable
    closedSuf.savable lengths sound.bits saved returned with ⟨pre, words, suf, ints, template⟩
  constructor
  case closed =>
    intro part
    cases part with
    | pre =>
        rw [SimInput.wordsOf, pre]
        exact closedPre.read
    | main =>
        rw [SimInput.wordsOf, words]
        exact closedMain.read
    | suf =>
        rw [SimInput.wordsOf, suf]
        exact closedSuf.read
  case lengths =>
    rw [ints, words]
    exact sound.lengths.trans (congrArg List.sum closedMain.lens_read).symm
  case bits =>
    rw [ints]
    exact sound.bits
  case template =>
    rw [template]
    exact sound.template

end Reading

/-! ## Sessions -/

namespace Session

/-- All seeds of a session are closed. -/
structure Sound (session : Session) : Prop where
  mutator : session.mutator.Sound
  made : ∀ input ∈ session.made, input.Sound

theorem sound_init (maxDataSeeds corpusSize : Nat) (noGuide : Bool) :
    (init maxDataSeeds corpusSize noGuide).Sound := by
  constructor
  · exact ⟨Nat.le_of_ble_eq_true rfl, Nat.le_of_ble_eq_true rfl, Nat.le_of_ble_eq_true rfl, le_rfl,
      List.forall_mem_nil _⟩
  · exact List.forall_mem_nil _

variable {session session' : Session}

theorem Sound.append (sound : session.Sound) {input : SimInput} (isSound : input.Sound) :
    ∀ other ∈ session.made ++ [input], other.Sound := by
  intro other mem
  rcases List.mem_append.mp mem with old | new
  · exact sound.made other old
  · rw [List.mem_singleton.mp new]
    exact isSound

/-- The data seeds do not matter. -/
theorem Sound.setSeeds (sound : session.Sound) (seeds : DataSeeds) :
    Mutator.Sound { session.mutator with seeds } :=
  ⟨sound.mutator.numPre, sound.mutator.numWords, sound.mutator.numSuf, sound.mutator.maxNWords,
    sound.mutator.corpus⟩

/-- A phase does not matter. -/
theorem Sound.updatePhase (sound : session.Sound) {it : Nat} {mutator : Mutator}
    (updated : Random.Returns (session.mutator.updatePhase it) mutator) : mutator.Sound := by
  rw [Mutator.updatePhase] at updated
  split at updated
  · cases Random.returns_pure.mp updated
    exact ⟨sound.mutator.numPre, sound.mutator.numWords, sound.mutator.numSuf,
      sound.mutator.maxNWords, sound.mutator.corpus⟩
  · rcases updated.bind with ⟨rand, _, updated⟩
    cases Random.returns_pure.mp updated
    exact ⟨sound.mutator.numPre, sound.mutator.numWords, sound.mutator.numSuf,
      sound.mutator.maxNWords, sound.mutator.corpus⟩

/-- A closed seed may be added to the corpus. -/
theorem Sound.addCorpus (sound : session.Sound) {input : SimInput} (isMade : input ∈ session.made) :
    (session.mutator.addCorpus input).Sound := by
  have all : ∀ other ∈ session.mutator.corpus ++ [input], other.Sound := by
    intro other mem
    rcases List.mem_append.mp mem with old | new
    · exact sound.mutator.corpus other old
    · rw [List.mem_singleton.mp new]
      exact sound.made input isMade
  refine ⟨sound.mutator.numPre, (min_le_right _ _).trans sound.mutator.maxNWords,
    sound.mutator.numSuf, sound.mutator.maxNWords, ?_⟩
  rw [Mutator.addCorpus]
  dsimp only
  split
  · exact fun other mem => all other (List.mem_of_mem_drop mem)
  · exact all

/-- Every call keeps all seeds closed. -/
theorem Sound.step (sound : session.Sound) (step : Step savedFile session session') :
    session'.Sound := by
  cases step with
  | addData added => exact ⟨sound.setSeeds _, sound.made⟩
  | readSiminput isFile read =>
      rcases isFile with ⟨original, isMade, data, saved⟩
      exact ⟨sound.setSeeds _, sound.append ((sound.made original isMade).readSiminput saved read)⟩
  | get returned =>
      rcases seeds_of_get returned with ⟨seeds, same, _⟩
      rw [same]
      exact ⟨sound.setSeeds seeds, sound.append (Mutator.get_returns sound.mutator returned)⟩
  | updatePhase updated => exact ⟨sound.updatePhase updated, sound.made⟩
  | addCorpus isMade => exact ⟨sound.addCorpus isMade, sound.made⟩
  | makeNop isMade returned =>
      exact ⟨sound.mutator, sound.append ((sound.made _ isMade).makeNop returned)⟩
  | deleteNop isMade returned =>
      exact ⟨sound.mutator, sound.append ((sound.made _ isMade).deleteNop returned)⟩

/-- All seeds of every session are closed. -/
theorem Sound.run (sound : session.Sound) (run : Run savedFile session session') :
    session'.Sound := by
  induction run with
  | refl => exact sound
  | tail _ step inductionHypothesis => exact inductionHypothesis.step step

/-- In every seed of every session the words of a part are numbered from zero, the labels in
their instructions exist, and every word that transfers control names labels behind it. -/
theorem forwardProgress {maxDataSeeds corpusSize : Nat} {noGuide : Bool} {session : Session}
    (run : Run savedFile (init maxDataSeeds corpusSize noGuide) session) {input : SimInput}
    (isMade : input ∈ session.made) {part : Part} {position : Nat} {word : Word}
    (isWord : (input.wordsOf part)[position]? = some word) :
    word.Progress part position (input.wordsOf part).length := by
  have sound := (sound_init maxDataSeeds corpusSize noGuide).run run
  have closed := (sound.made input isMade).closed part
  have isClosed := (closed.mem (List.mem_of_getElem? isWord)).2
  rw [← closed.label isWord]
  exact isClosed.progress

/-- The first word of a seed that is drawn with zeros returns from a trap. -/
theorem forwardProgress_get : ∃ session input word,
    Run savedFile (init 1 10 false) session ∧ input ∈ session.made ∧
      (input.wordsOf .main)[0]? = some word ∧
      (∃ text ∈ word.texts, opcodeOf text ∈ transferOpcodes) ∧
      word.Progress .main 0 (input.wordsOf .main).length := by
  have drawn : (((Mutator.init 1 10 false).get false []).bind fun result =>
      result.1.1.1.words[0]?).any (fun word =>
        decide (∃ text ∈ word.texts, opcodeOf text ∈ transferOpcodes)) = true := by
    decide +kernel
  rcases (Option.any_eq_true _ _).mp drawn with ⟨word, isWord, transfer⟩
  rcases Option.bind_eq_some_iff.mp isWord with ⟨⟨⟨⟨input, data⟩, mutator⟩, tape⟩, returned, first⟩
  have step : Step savedFile (init 1 10 false)
      ⟨mutator, (init 1 10 false).made ++ [input], (init 1 10 false).uses ++ [input.dataSeed]⟩ :=
    Step.get ⟨[], tape, returned⟩
  have run : Run savedFile (init 1 10 false) _ := Relation.ReflTransGen.single step
  have isMade : input ∈ (init 1 10 false).made ++ [input] :=
    List.mem_append_right _ List.mem_cons_self
  have isFirst : (input.wordsOf .main)[0]? = some word := first
  exact ⟨_, input, word, run, isMade, isFirst, of_decide_eq_true transfer,
    forwardProgress run isMade isFirst⟩

end Session

end Difftest.Fuzzer
