import Difftest.Fuzzer.Mutator
import Difftest.Fuzzer.SeedRoundTrip

/-!
# Labels in texts

An instruction names at most one label of its part, as its last operand.  Renumbering finds
this operand by the comma in front of it, and replaces the label and nothing else.
-/

namespace Difftest.Fuzzer

open Difftest.Text

/-! ## The label of a text -/

/-- An instruction without its last operand when that is a label, and this label. -/
structure Item where
  stem : Text
  target : Option Nat
deriving DecidableEq

namespace Item

/-- The text of an item. -/
def spell (part : Part) (item : Item) : Text :=
  match item.target with
  | none => item.stem
  | some n => item.stem ++ (", ".toList ++ (part.mark ++ str n))

/-- The stem names no label. -/
def Clear (part : Part) (item : Item) : Prop :=
  match item.target with
  | none => contains part.mark item.stem = false
  | some _ => '_' ∉ item.stem

/-- The text is that of the item up to blanks at its end. -/
structure Spells (part : Part) (item : Item) (text : Text) : Prop where
  clear : item.Clear part
  same : rstrip text = rstrip (item.spell part)

end Item

theorem mark_eq (part : Part) : ∃ c, part.mark = ['_', c] ∧ c ≠ ' ' ∧ c ≠ '_' := by
  cases part <;> exact ⟨_, rfl, by decide, by decide⟩

theorem digit_ne {c d : Char} {label : Nat} (mem : c ∈ str label)
    (other : digitValue 10 d = none) : c ≠ d := by
  rintro rfl
  have digit := digitValue_of_mem_str mem
  rw [other] at digit
  cases digit

namespace Item

variable {part : Part} {item : Item} {text : Text}

/-- A label at the end is not followed by blanks. -/
theorem rstrip_spell {stem : Text} {n : Nat} :
    rstrip (spell part ⟨stem, some n⟩) = spell part ⟨stem, some n⟩ := by
  have nonempty : str n ≠ [] := Nat.toDigits_ne_nil
  have inner : part.mark ++ str n ≠ [] := List.append_ne_nil_of_right_ne_nil _ nonempty
  have outer : ", ".toList ++ (part.mark ++ str n) ≠ [] :=
    List.append_ne_nil_of_right_ne_nil _ inner
  rw [rstrip, List.rdropWhile_eq_self_iff]
  intro whole
  rw [decide_eq_true_eq]
  have last : (spell part ⟨stem, some n⟩).getLast whole = (str n).getLast nonempty := by
    simp only [spell]
    rw [List.getLast_append_of_ne_nil _ outer, List.getLast_append_of_ne_nil _ inner,
      List.getLast_append_of_ne_nil _ nonempty]
  rw [last]
  exact digit_ne (List.getLast_mem nonempty) (by decide)

namespace Spells

/-- Blanks at the end do not matter. -/
theorem congr (spells : item.Spells part text) {other : Text}
    (same : rstrip other = rstrip text) : item.Spells part other :=
  ⟨spells.clear, same.trans spells.same⟩

theorem ljust (spells : item.Spells part text) (width : Nat) :
    item.Spells part (ljust width text) :=
  spells.congr (rstrip_ljust width text)

/-- A text with a label is its spelling and blanks. -/
theorem exists_blanks {stem : Text} {n : Nat} (spells : Spells part ⟨stem, some n⟩ text) :
    ∃ blanks, text = stem ++ (", ".toList ++ (part.mark ++ (str n ++
      List.replicate blanks ' '))) := by
  rcases exists_rstrip_append text with ⟨blanks, parts⟩
  rw [spells.same, rstrip_spell] at parts
  refine ⟨blanks, parts.trans ?_⟩
  simp only [spell, List.append_assoc]

/-- A text without a label does not contain one. -/
theorem contains_mark {stem : Text} (spells : Spells part ⟨stem, none⟩ text) :
    contains part.mark text = false := by
  rcases mark_eq part with ⟨c, mark, notBlank, _⟩
  rcases exists_rstrip_append text with ⟨blanks, parts⟩
  have outside : c ∉ List.replicate blanks ' ' :=
    fun mem => notBlank (List.eq_of_mem_replicate mem)
  have same : rstrip text = rstrip stem := spells.same
  have clear : contains part.mark stem = false := spells.clear
  rw [mark, contains, decide_eq_false_iff_not] at clear
  rw [parts, same, mark]
  calc
    contains ['_', c] (rstrip stem ++ List.replicate blanks ' ') =
        contains ['_', c] (rstrip stem) := @contains_append_of_last c ['_'] _ _ outside
    _ = false := by
      rw [contains, decide_eq_false_iff_not]
      exact fun inside => clear (inside.trans (List.rdropWhile_prefix _ stem).isInfix)

end Spells

end Item

/-! ## Renumbering a line -/

section

variable {part : Part} {column : Text} (word : Word) (labelMap : Dict Nat Nat) (maxLabel : Nat)

/-- A line that names no label stays. -/
theorem Word.repopLine_plain {text stem : Text} (noComma : ',' ∉ column)
    (spells : Item.Spells part ⟨stem, none⟩ text) :
    word.repopLine labelMap maxLabel part (column ++ text) = pure (column ++ text) := by
  have absent := spells.contains_mark
  have absent' : contains ([',', ' '] ++ part.mark) (column ++ text) = false := by
    have dropped : contains ([',', ' '] ++ part.mark) (column ++ text) =
        contains ([',', ' '] ++ part.mark) text := contains_append_of_head text noComma
    rw [dropped, contains, decide_eq_false_iff_not]
    rw [contains, decide_eq_false_iff_not] at absent
    exact fun inside => absent ((List.suffix_append _ _).isInfix.trans inside)
  rw [repopLine, split_of_contains absent']

/-- The label behind the comma is found. -/
theorem split_label {front : Text} (noComma : ',' ∉ column) (n blanks : Nat)
    (absent : '_' ∉ front) :
    split ([',', ' '] ++ part.mark) (column ++ (front ++ (", ".toList ++ (part.mark ++
      (str n ++ List.replicate blanks ' '))))) =
      [column ++ front, str n ++ List.replicate blanks ' '] := by
  have inColumn : ∀ k < column.length, ¬ [',', ' '] ++ part.mark <+: (column ++ (front ++
      (", ".toList ++ (part.mark ++ (str n ++ List.replicate blanks ' '))))).drop k :=
    fun k small => not_prefix_drop noComma [] (' ' :: part.mark) _ small
  have inFront : ∀ k < front.length, ¬ [',', ' '] ++ part.mark <+: (front ++ ([',', ' '] ++
      part.mark ++ (str n ++ List.replicate blanks ' '))).drop k := by
    intro k small
    rcases mark_eq part with ⟨c, mark, _, _⟩
    have outside : '_' ∉ front ++ [',', ' '] := by
      rw [List.mem_append, not_or]
      exact ⟨absent, by decide⟩
    have start := @not_prefix_drop '_' (front ++ [',', ' ']) outside [',', ' '] [c]
      (part.mark ++ (str n ++ List.replicate blanks ' ')) k
      (by rw [List.length_append]; exact Nat.add_lt_add_right small 2)
    rw [mark] at start ⊢
    simpa only [List.append_assoc] using start
  have inLabel : contains ([',', ' '] ++ part.mark) (str n ++ List.replicate blanks ' ') = false := by
    rw [contains, decide_eq_false_iff_not]
    intro inside
    have comma : ',' ∈ str n ++ List.replicate blanks ' ' :=
      inside.subset List.mem_cons_self
    rcases List.mem_append.mp comma with digit | blank
    · exact digit_ne digit (by decide) rfl
    · exact absurd (List.eq_of_mem_replicate blank) (by decide)
  have nonempty : [',', ' '] ++ part.mark ≠ [] := List.cons_ne_nil _ _
  have joined : ", ".toList ++ (part.mark ++ (str n ++ List.replicate blanks ' ')) =
      [',', ' '] ++ part.mark ++ (str n ++ List.replicate blanks ' ') :=
    (List.append_assoc _ _ _).symm
  rw [split_append inColumn, joined, split_append inFront, split_self_append nonempty,
    split_of_contains inLabel, List.modifyHead, List.modifyHead, List.append_nil]

/-- The label is replaced and nothing else. -/
theorem replace_label {front : Text} (n new blanks : Nat) (absent : '_' ∉ front) :
    replace (part.mark ++ str n) (part.mark ++ str new) (front ++ (", ".toList ++ (part.mark ++
      (str n ++ List.replicate blanks ' ')))) = front ++ (", ".toList ++ (part.mark ++
      (str new ++ List.replicate blanks ' '))) := by
  rcases mark_eq part with ⟨c, mark, _, _⟩
  rw [mark]
  have outside : '_' ∉ front ++ ", ".toList := by
    rw [List.mem_append, not_or]
    exact ⟨absent, by decide⟩
  have blank : '_' ∉ List.replicate blanks ' ' :=
    fun mem => absurd (List.eq_of_mem_replicate mem) (by decide)
  have before : ∀ k < (front ++ ", ".toList).length, ¬ ['_', c] ++ str n <+:
      (front ++ ", ".toList ++ (['_', c] ++ str n ++ List.replicate blanks ' ')).drop k :=
    fun k small => not_prefix_drop outside [] (c :: str n) _ small
  have whole : front ++ (", ".toList ++ (['_', c] ++ (str n ++ List.replicate blanks ' '))) =
      front ++ ", ".toList ++ (['_', c] ++ str n ++ List.replicate blanks ' ') := by
    simp only [List.append_assoc]
  have nonempty : ['_', c] ++ str n ≠ [] := List.cons_ne_nil _ _
  rw [whole, replace_append _ before, replace_self_append nonempty]
  have rest : replace (['_', c] ++ str n) (['_', c] ++ str new) (List.replicate blanks ' ') =
      List.replicate blanks ' ' := replace_of_notMem _ blank
  rw [rest]
  simp only [List.append_assoc]

/-- A line that names a label names the label that the map has for it, or a drawn one. -/
theorem Word.repopLine_label {front : Text} (noComma : ',' ∉ column) (length : column.length = 8)
    (n blanks : Nat) (absent : '_' ∉ front) :
    word.repopLine labelMap maxLabel part (column ++ (front ++ (", ".toList ++ (part.mark ++
      (str n ++ List.replicate blanks ' '))))) = (do
        let draw ← Random.randint (word.label + 1) maxLabel
        pure (column ++ ljust 50 (front ++ (", ".toList ++ (part.mark ++
          (str (labelMap.getD n draw) ++ List.replicate blanks ' ')))))) := by
  have digits : (str n ++ List.replicate blanks ' ').takeWhile (· ≠ ' ') = str n := by
    have solid : ∀ c ∈ str n, decide (c ≠ ' ') = true :=
      fun c mem => decide_eq_true (digit_ne mem (by decide))
    rw [List.takeWhile_append_of_pos solid]
    cases blanks with
    | zero => exact List.append_nil _
    | succ blanks => exact List.append_nil _
  rw [repopLine, split_label noComma n blanks absent]
  dsimp only
  rw [digits, ReadState.natOf_str, Random.ofOption_some_bind, List.drop_left' length,
    List.take_left' length, ljust_eq_self length.ge]
  simp only [replace_label n _ blanks absent]

end

/-- The same instruction with its label renumbered: by the map, or drawn behind the word. -/
def Item.Moves (label : Nat) (labelMap : Dict Nat Nat) (maxLabel : Nat) (item item' : Item) : Prop :=
  item'.stem = item.stem ∧
    match item.target with
    | none => item'.target = none
    | some n => ∃ draw, label < draw ∧ draw ≤ maxLabel ∧
        item'.target = some (labelMap.getD n draw)

section

variable {part : Part} {column text : Text} {item : Item} {word : Word}
  {labelMap : Dict Nat Nat} {maxLabel : Nat}

theorem Word.repopLine_spells {inst : Text} (noComma : ',' ∉ column) (length : column.length = 8)
    (spells : item.Spells part text)
    (renumbered : Random.Returns (word.repopLine labelMap maxLabel part (column ++ text)) inst) :
    ∃ item' text', inst = column ++ text' ∧ item'.Spells part text' ∧
      item.Moves word.label labelMap maxLabel item' := by
  rcases item with ⟨stem, _ | n⟩
  · rw [repopLine_plain word labelMap maxLabel noComma spells] at renumbered
    cases Random.returns_pure.mp renumbered
    exact ⟨_, text, rfl, spells, rfl, rfl⟩
  · rcases spells.exists_blanks with ⟨blanks, rfl⟩
    rw [repopLine_label word labelMap maxLabel noComma length n blanks spells.clear] at renumbered
    rcases renumbered.bind with ⟨draw, drawn, returned⟩
    cases Random.returns_pure.mp returned
    have bounds := drawn.randint
    refine ⟨⟨stem, some (labelMap.getD n draw)⟩, _, rfl, ⟨spells.clear, ?_⟩, rfl, draw,
      bounds.1, bounds.2, rfl⟩
    have joined := rstrip_append_blanks (Item.spell part ⟨stem, some (labelMap.getD n draw)⟩) blanks
    rw [rstrip_ljust, ← joined]
    simp only [Item.spell, List.append_assoc]

theorem Word.total_repopLine (noComma : ',' ∉ column) (length : column.length = 8)
    (spells : item.Spells part text) (room : word.label < maxLabel) :
    Random.Total (word.repopLine labelMap maxLabel part (column ++ text)) := by
  rcases item with ⟨stem, _ | n⟩
  · rw [repopLine_plain word labelMap maxLabel noComma spells]
    exact Random.total_pure _
  · rcases spells.exists_blanks with ⟨blanks, rfl⟩
    rw [repopLine_label word labelMap maxLabel noComma length n blanks spells.clear]
    apply (Random.total_randint room).bind
    intro draw _
    exact Random.total_pure _

end

/-! ## Renumbering a word -/

/-- A filled in word with the items of its lines. -/
structure Word.Spelled (part : Part) (items : List Item) (word : Word) : Prop where
  populated : word.populated = true
  small : word.label < 10 ^ 3
  nonempty : items ≠ []
  lines : ∃ texts, word.retInsts = Word.lines part word.label texts ∧
    List.Forall₂ (Item.Spells part) items texts

theorem comma_notMem_column (part : Part) (label : Option Nat) : ',' ∉ column part label := by
  intro mem
  cases label with
  | none => exact absurd (List.eq_of_mem_replicate mem) (by decide)
  | some n =>
      rcases of_mem_labelColumn mem with listed | digit
      · exact absurd listed (by decide)
      · exact absurd digit (by decide)

namespace Word

variable {part : Part} {items : List Item} {word : Word}

/-- A new label changes the first column of the first line. -/
theorem Spelled.resetLabel (spelled : word.Spelled part items) {newLabel : Nat}
    (small : newLabel < 10 ^ 3) :
    ∃ retInsts, word.resetLabel newLabel part =
        some ({ word with label := newLabel, retInsts }, some (word.label, newLabel)) ∧
      Spelled part items { word with label := newLabel, retInsts } := by
  rcases spelled.lines with ⟨texts, insts, spells⟩
  cases spells with
  | nil => exact absurd rfl spelled.nonempty
  | @cons item text items texts first rest =>
      refine ⟨Word.lines part newLabel (ljust 42 text :: texts), ?_, spelled.populated, small,
        spelled.nonempty, ljust 42 text :: texts, rfl, List.Forall₂.cons (first.ljust 42) rest⟩
      rw [Word.resetLabel, if_pos spelled.populated, insts, Word.lines]
      dsimp only
      rw [List.drop_left' (length_labelColumn spelled.small)]
      rfl

variable {labelMap : Dict Nat Nat} {maxLabel : Nat}

theorem repopLine_blankLines {texts insts : List Text}
    (spells : List.Forall₂ (Item.Spells part) items texts)
    (renumbered : List.Forall₂ (fun line inst => Random.Returns
      (word.repopLine labelMap maxLabel part line) inst) (texts.map (blankColumn ++ ·)) insts) :
    ∃ items' : List Item, ∃ texts' : List Text, insts = texts'.map (blankColumn ++ ·) ∧
      List.Forall₂ (Item.Spells part) items' texts' ∧
      List.Forall₂ (Item.Moves word.label labelMap maxLabel) items items' := by
  induction spells generalizing insts with
  | nil =>
      cases renumbered
      exact ⟨[], [], rfl, List.Forall₂.nil, List.Forall₂.nil⟩
  | cons first _ ih =>
      rcases renumbered with _ | ⟨returned, rest⟩
      rcases repopLine_spells (by decide) length_blankColumn first returned with
        ⟨item', text', rfl, spelled, moved⟩
      rcases ih rest with ⟨items', texts', rfl, spells', moves⟩
      exact ⟨item' :: items', text' :: texts', rfl, List.Forall₂.cons spelled spells',
        List.Forall₂.cons moved moves⟩

theorem repopLine_lines' {label : Nat} {texts insts : List Text} (small : label < 10 ^ 3)
    (spells : List.Forall₂ (Item.Spells part) items texts)
    (renumbered : List.Forall₂ (fun line inst => Random.Returns
      (word.repopLine labelMap maxLabel part line) inst) (Word.lines part label texts) insts) :
    ∃ items' texts', insts = Word.lines part label texts' ∧
      List.Forall₂ (Item.Spells part) items' texts' ∧
      List.Forall₂ (Item.Moves word.label labelMap maxLabel) items items' := by
  cases spells with
  | nil =>
      cases renumbered
      exact ⟨[], [], rfl, List.Forall₂.nil, List.Forall₂.nil⟩
  | cons first others =>
      rcases renumbered with _ | ⟨returned, rest⟩
      rcases repopLine_spells (comma_notMem_column part (some label)) (length_labelColumn small)
        first returned with ⟨item', text', rfl, spelled, moved⟩
      rcases repopLine_blankLines others rest with ⟨items', texts', rfl, spells', moves⟩
      exact ⟨item' :: items', text' :: texts', rfl, List.Forall₂.cons spelled spells',
        List.Forall₂.cons moved moves⟩

/-- Renumbering keeps the columns and the stems. -/
theorem Spelled.repopLabel (spelled : word.Spelled part items) {changed : Word}
    (renumbered : Random.Returns (word.repopLabel labelMap maxLabel part) changed) :
    ∃ retInsts items', changed = { word with retInsts } ∧ changed.Spelled part items' ∧
      List.Forall₂ (Item.Moves word.label labelMap maxLabel) items items' := by
  rcases spelled.lines with ⟨texts, insts, spells⟩
  rw [Word.repopLabel, if_pos spelled.populated, insts] at renumbered
  rcases renumbered.map with ⟨retInsts, traversed, rfl⟩
  rcases repopLine_lines' spelled.small spells traversed.mapM with
    ⟨items', texts', rfl, spells', moves⟩
  refine ⟨_, items', rfl, ⟨spelled.populated, spelled.small, ?_, texts', rfl, spells'⟩, moves⟩
  apply List.ne_nil_of_length_pos
  rw [← moves.length_eq]
  exact List.length_pos_of_ne_nil spelled.nonempty

/-- Renumbering does not raise while there are labels behind the word. -/
theorem Spelled.total_repopLabel (spelled : word.Spelled part items) (room : word.label < maxLabel) :
    Random.Total (word.repopLabel labelMap maxLabel part) := by
  rcases spelled.lines with ⟨texts, insts, spells⟩
  rw [Word.repopLabel, if_pos spelled.populated, insts]
  refine Random.Total.map (Random.total_mapM ?_) _
  intro inst mem
  rcases exists_of_mem_lines mem with ⟨first, isLabel, text, isText, rfl⟩
  rcases exists_of_forall₂ spells isText with ⟨item, _, itemSpells⟩
  have small : ∀ n ∈ first, n < 10 ^ 3 := fun n isFirst => isLabel n isFirst ▸ spelled.small
  exact total_repopLine (comma_notMem_column part first) (length_column small) itemSpells room

end Word

/-! ## Renumbering the words of a part -/

/-- A word that is not filled in yet, or one whose lines can be renumbered. -/
def Word.Ready (part : Part) (word : Word) : Prop :=
  word.populated = false ∨ ∃ items, word.Spelled part items

/-- The new labels of the filled in words by their old ones. -/
def labelMapOf (words : List (Word × Nat)) : Dict Nat Nat :=
  Dict.ofList (words.filterMap fun (word, n) =>
    if word.populated = true then some (word.label, n) else none)

/-- The word with its new label. -/
structure Word.Renumbered (part : Part) (labelMap : Dict Nat Nat) (maxLabel : Nat)
    (before : Word × Nat) (after : Word) : Prop where
  same : ∃ retInsts, after = { before.1 with label := before.2, retInsts }
  empty : before.1.populated = false → after = { before.1 with label := before.2 }
  spelled : ∀ items, before.1.Spelled part items → ∃ items', after.Spelled part items' ∧
    List.Forall₂ (Item.Moves before.2 labelMap maxLabel) items items'

section

variable {part : Part} {labelMap : Dict Nat Nat} {maxLabel : Nat}

/-- What `reset_label` makes of a word. -/
structure Word.Reset (part : Part) (before : Word × Nat) (after : Word × Option (Nat × Nat)) :
    Prop where
  same : ∃ retInsts, after.1 = { before.1 with label := before.2, retInsts }
  empty : before.1.populated = false → after.1 = { before.1 with label := before.2 }
  pair : after.2 = if before.1.populated = true then some (before.1.label, before.2) else none
  spelled : ∀ items, before.1.Spelled part items → after.1.Spelled part items

theorem Word.Ready.resetLabel {word : Word} (ready : word.Ready part) {n : Nat}
    (small : n < 10 ^ 3) :
    ∃ after, word.resetLabel n part = some after ∧ Word.Reset part (word, n) after := by
  rcases ready with isEmpty | ⟨items, spelled⟩
  · refine ⟨({ word with label := n }, none), ?_, ⟨_, rfl⟩, fun _ => rfl, ?_, ?_⟩
    · rw [Word.resetLabel, isEmpty, if_neg Bool.false_ne_true]
    · dsimp only
      rw [isEmpty, if_neg Bool.false_ne_true]
    · intro items spelled
      rw [spelled.populated] at isEmpty
      cases isEmpty
  · rcases spelled.resetLabel small with ⟨retInsts, isReset, _⟩
    refine ⟨_, isReset, ⟨_, rfl⟩, ?_, ?_, ?_⟩
    · intro isEmpty
      rw [spelled.populated] at isEmpty
      cases isEmpty
    · dsimp only
      rw [if_pos spelled.populated]
    · intro items' spelled'
      rcases spelled'.resetLabel small with ⟨retInsts', isReset', same⟩
      rw [isReset] at isReset'
      cases isReset'
      exact same

/-- All labels are set, and the map has those of the filled in words. -/
theorem mapM_resetLabel {words : List (Word × Nat)}
    (ready : ∀ word ∈ words, word.1.Ready part) (small : ∀ word ∈ words, word.2 < 10 ^ 3) :
    ∃ resets, (words.mapM fun word => word.1.resetLabel word.2 part) = some resets ∧
      List.Forall₂ (Word.Reset part) words resets ∧
      Dict.ofList (resets.filterMap Prod.snd) = labelMapOf words := by
  have each : ∀ word ∈ words, ∃ after, word.1.resetLabel word.2 part = some after := by
    intro word mem
    rcases (ready word mem).resetLabel (small word mem) with ⟨after, isReset, _⟩
    exact ⟨after, isReset⟩
  rcases exists_mapM_eq_some each with ⟨resets, traversed⟩
  have pointwise := forall₂_of_mapM_eq_some traversed
  have steps : List.Forall₂ (Word.Reset part) words resets := by
    clear traversed each
    induction pointwise with
    | nil => exact List.Forall₂.nil
    | @cons word after words resets first _ ih =>
        rcases (ready word List.mem_cons_self).resetLabel (small word List.mem_cons_self) with
          ⟨after', isReset, step⟩
        rw [first] at isReset
        cases isReset
        exact List.Forall₂.cons step
          (ih (fun other mem => ready other (List.mem_cons_of_mem _ mem))
            fun other mem => small other (List.mem_cons_of_mem _ mem))
  refine ⟨resets, traversed, steps, ?_⟩
  rw [labelMapOf]
  congr 1
  clear traversed pointwise each ready small
  induction steps with
  | nil => rfl
  | cons first _ ih => rw [List.filterMap_cons, List.filterMap_cons, first.pair, ih]

/-- Renumbering one word whose label is set. -/
theorem Word.Reset.repopLabel {before : Word × Nat} {middle : Word × Option (Nat × Nat)}
    {after : Word} (reset : Word.Reset part before middle)
    (ready : before.1.Ready part)
    (renumbered : Random.Returns (middle.1.repopLabel labelMap maxLabel part) after) :
    Word.Renumbered part labelMap maxLabel before after := by
  rcases reset.same with ⟨retInsts, same⟩
  rcases ready with isEmpty | ⟨items, spelled⟩
  · have unchanged : middle.1.populated = false := by rw [same]; exact isEmpty
    rw [Word.repopLabel, unchanged, if_neg Bool.false_ne_true] at renumbered
    cases Random.returns_pure.mp renumbered
    refine ⟨⟨retInsts, same⟩, reset.empty, ?_⟩
    intro items spelled
    rw [spelled.populated] at isEmpty
    cases isEmpty
  · have filled := spelled.populated
    refine ⟨?_, ?_, ?_⟩
    · rcases (reset.spelled items spelled).repopLabel renumbered with ⟨insts, _, rfl, _, _⟩
      rw [same]
      exact ⟨insts, rfl⟩
    · intro isEmpty
      rw [filled] at isEmpty
      cases isEmpty
    · intro items' spelled'
      rcases (reset.spelled items' spelled').repopLabel renumbered with
        ⟨insts, moved, _, movedSpelled, moves⟩
      rw [same] at moves
      exact ⟨moved, movedSpelled, moves⟩

theorem zipIdx_ready {words : List Word} (ready : ∀ word ∈ words, word.Ready part) :
    ∀ word ∈ words.zipIdx, word.1.Ready part :=
  fun _ mem => ready _ (List.fst_mem_of_mem_zipIdx mem)

theorem zipIdx_small {words : List Word} (few : words.length ≤ 10 ^ 3) :
    ∀ word ∈ words.zipIdx, word.2 < 10 ^ 3 := by
  intro word mem
  have below := List.snd_lt_of_mem_zipIdx mem
  omega

/-- The words of a part after `reset_labels`. -/
theorem resetLabels_returns {words after : List Word} (ready : ∀ word ∈ words, word.Ready part)
    (few : words.length ≤ 10 ^ 3) (returned : Random.Returns (resetLabels words part) after) :
    List.Forall₂ (Word.Renumbered part (labelMapOf words.zipIdx) words.length)
      words.zipIdx after := by
  rcases mapM_resetLabel (zipIdx_ready ready) (zipIdx_small few) with ⟨resets, isReset, steps, map⟩
  rw [resetLabels, isReset, Random.ofOption_some_bind, map] at returned
  have each := zipIdx_ready ready
  have changes := returned.mapM
  clear returned isReset map
  revert each
  generalize labelMapOf words.zipIdx = labelMap at changes ⊢
  generalize words.zipIdx = labelled at steps ⊢
  intro each
  induction steps generalizing after with
  | nil =>
      cases changes
      exact List.Forall₂.nil
  | cons first _ ih =>
      rcases changes with _ | ⟨change, changes⟩
      exact List.Forall₂.cons (first.repopLabel (each _ List.mem_cons_self) change)
        (ih changes fun other mem => each other (List.mem_cons_of_mem _ mem))

/-- `reset_labels` does not raise. -/
theorem total_resetLabels {words : List Word} (ready : ∀ word ∈ words, word.Ready part)
    (few : words.length ≤ 10 ^ 3) : Random.Total (resetLabels words part) := by
  rcases mapM_resetLabel (zipIdx_ready ready) (zipIdx_small few) with ⟨resets, isReset, steps, map⟩
  rw [resetLabels, isReset, Random.ofOption_some_bind]
  apply Random.total_mapM
  intro word mem
  rcases List.mem_map.mp mem with ⟨reset, isMember, rfl⟩
  rcases exists_of_forall₂ steps isMember with ⟨before, isBefore, step⟩
  rcases step.same with ⟨retInsts, same⟩
  rcases zipIdx_ready ready before isBefore with isEmpty | ⟨items, spelled⟩
  · have unchanged : reset.1.populated = false := by rw [same]; exact isEmpty
    rw [Word.repopLabel, unchanged, if_neg Bool.false_ne_true]
    exact Random.total_pure _
  · apply (step.spelled items spelled).total_repopLabel
    rw [same]
    exact List.snd_lt_of_mem_zipIdx isBefore

end

end Difftest.Fuzzer
