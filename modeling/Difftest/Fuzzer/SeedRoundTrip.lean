import Difftest.Data.Sequence
import Difftest.Fuzzer.SimInput

/-!
# Seed files read back

A saved line has the label in columns 0 to 7, the instruction in columns 8 to 49 or
longer, and in the main part four bits before the line terminator.  Reading cuts the
instruction at column 50 and takes the bits from the end, so words whose lines were
padded beyond column 50 read back as well.
-/

namespace Difftest.Fuzzer

open Difftest.Text

/-! ## Words in a file -/

/-- `max_nWords`. -/
def maxNWords : Nat := 200

/-- The lines of a populated word are those of its label over the given texts. -/
structure Word.Laid (part : Part) (texts : List Text) (word : Word) : Prop where
  populated : word.populated = true
  lines : word.retInsts = Word.lines part word.label texts
  nonempty : texts ≠ []

/-- A text that fits its columns and has no part of another line. -/
structure Fits (text : Text) : Prop where
  short : (rstrip text).length ≤ 42
  oneLine : ∀ c ∈ text, c ≠ '\n' ∧ c ≠ '\r'
  noData : contains "data:".toList text = false

instance (text : Text) : Decidable (Fits text) :=
  decidable_of_iff ((rstrip text).length ≤ 42 ∧ (∀ c ∈ text, c ≠ '\n' ∧ c ≠ '\r') ∧
      contains "data:".toList text = false)
    ⟨fun ⟨short, oneLine, noData⟩ => ⟨short, oneLine, noData⟩,
      fun fits => ⟨fits.short, fits.oneLine, fits.noData⟩⟩

/-- A part with consecutive labels whose words are populated. -/
structure Savable (part : Part) (words : List Word) : Prop where
  few : words.length ≤ maxNWords
  labels : words.map Word.label = List.range words.length
  laid : ∀ word ∈ words, ∃ texts, word.Laid part texts ∧ ∀ text ∈ texts, Fits text

/-- The same labels and the same lines up to blanks at their ends. -/
def SameWords (words words' : List Word) : Prop :=
  List.Forall₂ (fun word word' => word'.label = word.label ∧ word'.populated = true ∧
    word'.retInsts.map rstrip = word.retInsts.map rstrip) words words'

/-! ## Columns -/

theorem length_str_le {label : Nat} (small : label < 10 ^ 3) : (str label).length ≤ 3 :=
  (Nat.length_toDigits_le_iff (by decide) (by decide)).mpr small

theorem length_labelColumn {part : Part} {label : Nat} (small : label < 10 ^ 3) :
    (labelColumn part label).length = 8 := by
  apply length_ljust
  have digits := length_str_le small
  have mark : part.mark.length = 2 := by cases part <;> rfl
  rw [List.length_append, List.length_append, mark, List.length_singleton]
  omega

theorem length_blankColumn : blankColumn.length = 8 :=
  rfl

theorem digitValue_of_mem_str {label : Nat} {c : Char} (mem : c ∈ str label) :
    (digitValue 10 c).isSome :=
  digit_of_mem_toDigits (by decide) (by decide) label c mem

/-- Characters of the label column. -/
theorem of_mem_labelColumn {part : Part} {label : Nat} {c : Char}
    (mem : c ∈ labelColumn part label) :
    c ∈ ['_', 'p', 'l', 's', ':', ' '] ∨ (digitValue 10 c).isSome := by
  have marks : ∀ c ∈ part.mark, c ∈ ['_', 'p', 'l', 's', ':', ' '] := by
    cases part <;> decide
  rw [labelColumn, ljust] at mem
  simp only [List.mem_append, List.mem_singleton] at mem
  rcases mem with ((inMark | inLabel) | rfl) | inBlanks
  · exact Or.inl (marks c inMark)
  · exact Or.inr (digitValue_of_mem_str inLabel)
  · exact Or.inl (by decide)
  · rw [List.eq_of_mem_replicate inBlanks]
    exact Or.inl (by decide)

/-- The first columns of a line. -/
def column (part : Part) : Option Nat → Text
  | some label => labelColumn part label
  | none => blankColumn

theorem length_column {part : Part} {label : Option Nat} (small : ∀ n ∈ label, n < 10 ^ 3) :
    (column part label).length = 8 := by
  cases label with
  | none => rfl
  | some n => exact length_labelColumn (small n rfl)

theorem d_notMem_column (part : Part) (label : Option Nat) : 'd' ∉ column part label := by
  intro mem
  cases label with
  | none =>
      have blank := List.eq_of_mem_replicate mem
      exact absurd blank (by decide)
  | some n =>
      rcases of_mem_labelColumn mem with listed | digit
      · exact absurd listed (by decide)
      · exact absurd digit (by decide)

theorem newline_notMem_column (part : Part) (label : Option Nat) : '\n' ∉ column part label := by
  intro mem
  cases label with
  | none =>
      have blank := List.eq_of_mem_replicate mem
      exact absurd blank (by decide)
  | some n =>
      rcases of_mem_labelColumn mem with listed | digit
      · exact absurd listed (by decide)
      · exact absurd digit (by decide)

/-! ## Lines of the file -/

/-- What stands behind the instruction: the bits of an interrupt or nothing. -/
def tail : Option Nat → Text
  | some int => numeral 2 4 int
  | none => []

/-- A line of the file without its terminator. -/
def fileLine (part : Part) (label : Option Nat) (text : Text) (int : Option Nat) : Text :=
  ljust 50 (column part label ++ text) ++ tail int

/-- The instruction that is read from a line. -/
def cut (text : Text) : Text := (ljust 42 text).take 42

theorem length_cut (text : Text) : (cut text).length = 42 := by
  rw [cut, List.length_take, min_eq_left (le_length_ljust 42 text)]

theorem rstrip_cut {text : Text} (short : (rstrip text).length ≤ 42) :
    rstrip (cut text) = rstrip text := by
  rw [cut, rstrip_take, rstrip_ljust]
  rwa [rstrip_ljust]

variable {part : Part} {label : Option Nat} {text : Text} {int : Option Nat}

theorem fileLine_eq (small : ∀ n ∈ label, n < 10 ^ 3) :
    fileLine part label text int = column part label ++ (ljust 42 text ++ tail int) := by
  rw [fileLine, ljust_append (length_column small) 42, List.append_assoc]

theorem tail_chars {c : Char} (mem : c ∈ tail int) : (digitValue 2 c).isSome := by
  cases int with
  | none => cases mem
  | some n => exact digit_of_mem_numeral (by decide) (by decide) 4 n c mem

/-- Columns 8 to 49 hold the instruction. -/
theorem slice_fileLine (small : ∀ n ∈ label, n < 10 ^ 3) :
    slice 8 50 (line (fileLine part label text int)) = cut text := by
  have long := le_length_ljust 42 text
  rw [slice, line, fileLine_eq small, List.append_assoc,
    List.drop_left' (length_column small), List.append_assoc,
    List.take_append_of_le_length long]
  rfl

theorem newline_notMem_fileLine (small : ∀ n ∈ label, n < 10 ^ 3) (fits : Fits text) :
    '\n' ∉ fileLine part label text int := by
  rw [fileLine_eq small, ljust]
  simp only [List.mem_append, not_or]
  refine ⟨newline_notMem_column part label, ⟨fun mem => (fits.oneLine _ mem).1 rfl, ?_⟩, ?_⟩
  · intro mem
    have blank := List.eq_of_mem_replicate mem
    exact absurd blank (by decide)
  · intro mem
    exact absurd (tail_chars mem) (by decide)

/-- No line of a word announces the data. -/
theorem contains_fileLine (small : ∀ n ∈ label, n < 10 ^ 3) (fits : Fits text) :
    contains "data:".toList (line (fileLine part label text int)) = false := by
  have back : ':' ∉ List.replicate (42 - text.length) ' ' ++ (tail int ++ ['\n']) := by
    simp only [List.mem_append, not_or]
    refine ⟨?_, ?_, by decide⟩
    · intro mem
      have blank := List.eq_of_mem_replicate mem
      exact absurd blank (by decide)
    · intro mem
      exact absurd (tail_chars mem) (by decide)
  have parts : line (fileLine part label text int) =
      column part label ++ (text ++
        (List.replicate (42 - text.length) ' ' ++ (tail int ++ ['\n']))) := by
    rw [line, fileLine_eq small, ljust]
    simp only [List.append_assoc]
  calc
    contains "data:".toList (line (fileLine part label text int)) =
        contains ('d' :: ['a', 't', 'a', ':']) (text ++
          (List.replicate (42 - text.length) ' ' ++ (tail int ++ ['\n']))) := by
      rw [parts]
      exact contains_append_of_head _ (d_notMem_column part label)
    _ = contains (['d', 'a', 't', 'a'] ++ [':']) text :=
      @contains_append_of_last ':' ['d', 'a', 't', 'a'] _ text back
    _ = false := fits.noData

/-! ## Words that are filled in and renumbered -/

theorem Word.length_lines (part : Part) (label : Nat) (texts : List Text) :
    (Word.lines part label texts).length = texts.length := by
  cases texts with
  | nil => rfl
  | cons text texts => rw [lines, List.length_cons, List.length_map, List.length_cons]

/-- A word that is filled in is laid out. -/
theorem Word.laid_populate {word filled : Word} {opvals : Dict Text Text} {part : Part}
    (populated : word.populate opvals part = some filled) :
    ∃ texts, filled.Laid part texts := by
  rw [populate] at populated
  split at populated
  · cases insts : word.insts with
    | nil =>
        rw [insts] at populated
        cases populated
    | cons inst insts' =>
        rw [insts] at populated
        cases populated
        exact ⟨_, rfl, rfl, List.cons_ne_nil _ _⟩
  · cases populated

/-- A word under a new label is laid out with the same texts. -/
theorem Word.Laid.resetLabel {word : Word} {part : Part} {text : Text} {texts : List Text}
    (laid : word.Laid part (text :: texts)) (small : word.label < 10 ^ 3) (newLabel : Nat) :
    ∃ reset, word.resetLabel newLabel part = some (reset, some (word.label, newLabel)) ∧
      reset.Laid part (ljust 42 text :: texts) := by
  have insts : word.retInsts =
      (labelColumn part word.label ++ text) :: texts.map (blankColumn ++ ·) := laid.lines
  refine ⟨{ word with
      label := newLabel
      retInsts := Word.lines part newLabel (ljust 42 text :: texts) }, ?_, laid.populated, rfl,
    List.cons_ne_nil _ _⟩
  rw [Word.resetLabel, if_pos laid.populated, insts]
  dsimp only
  rw [List.drop_left' (length_labelColumn small)]
  rfl

/-- The column of a line survives a change of the label in its text. -/
theorem Word.repopLine_append {word : Word} {labelMap : Dict Nat Nat} {maxLabel : Nat}
    {part : Part} {front text inst : Text} {tape tape' : List Nat} (length : front.length = 8)
    (renumbered : word.repopLine labelMap maxLabel part (front ++ text) tape =
      some (inst, tape')) : ∃ text', inst = front ++ text' := by
  rw [repopLine] at renumbered
  cases pieces : split ([',', ' '] ++ part.mark) (front ++ text) with
  | nil =>
      rw [pieces] at renumbered
      cases renumbered
      exact ⟨text, rfl⟩
  | cons piece pieces' =>
      cases pieces' with
      | nil =>
          rw [pieces] at renumbered
          cases renumbered
          exact ⟨text, rfl⟩
      | cons target others =>
          rw [pieces] at renumbered
          dsimp only at renumbered
          rw [Random.bind_eq_some_iff] at renumbered
          rcases renumbered with ⟨old, _, _, renumbered⟩
          rw [Random.bind_eq_some_iff] at renumbered
          rcases renumbered with ⟨draw, _, _, renumbered⟩
          cases renumbered
          rw [List.take_left' length, ljust_eq_self length.ge]
          exact ⟨_, rfl⟩

/-- The columns of all lines of a word survive it. -/
theorem Word.repopLine_lines {word : Word} {labelMap : Dict Nat Nat} {maxLabel label : Nat}
    {part : Part} {texts insts : List Text} (small : label < 10 ^ 3)
    (renumbered : List.Forall₂ (fun inst inst' => ∃ before after,
      word.repopLine labelMap maxLabel part inst before = some (inst', after))
      (Word.lines part label texts) insts) :
    ∃ texts', insts = Word.lines part label texts' ∧ texts'.length = texts.length := by
  have blanks : ∀ texts insts : List Text, List.Forall₂ (fun inst inst' => ∃ before after,
      word.repopLine labelMap maxLabel part inst before = some (inst', after))
      (texts.map (blankColumn ++ ·)) insts →
      ∃ texts' : List Text, insts = texts'.map (blankColumn ++ ·) ∧ texts'.length = texts.length := by
    intro texts
    induction texts with
    | nil =>
        rintro insts ⟨⟩
        exact ⟨[], rfl, rfl⟩
    | cons text texts ih =>
        rintro insts (_ | ⟨⟨_, _, first⟩, rest⟩)
        rcases repopLine_append length_blankColumn first with ⟨text', rfl⟩
        rcases ih _ rest with ⟨texts', rfl, lengths⟩
        exact ⟨text' :: texts', rfl, congrArg Nat.succ lengths⟩
  cases texts with
  | nil =>
      cases renumbered
      exact ⟨[], rfl, rfl⟩
  | cons text texts =>
      rcases renumbered with _ | ⟨⟨_, _, first⟩, rest⟩
      rcases repopLine_append (length_labelColumn small) first with ⟨text', rfl⟩
      rcases blanks _ _ rest with ⟨texts', rfl, lengths⟩
      exact ⟨text' :: texts', rfl, congrArg Nat.succ lengths⟩

/-- A word whose jumps are renumbered is laid out. -/
theorem Word.Laid.repopLabel {word changed : Word} {labelMap : Dict Nat Nat} {maxLabel : Nat}
    {part : Part} {texts : List Text} {tape tape' : List Nat} (laid : word.Laid part texts)
    (small : word.label < 10 ^ 3)
    (renumbered : word.repopLabel labelMap maxLabel part tape = some (changed, tape')) :
    changed.label = word.label ∧ ∃ texts', changed.Laid part texts' := by
  rw [Word.repopLabel, if_pos laid.populated, Random.map_eq_some_iff] at renumbered
  rcases renumbered with ⟨insts, traversed, rfl⟩
  have lines := Random.forall₂_of_mapM traversed
  rw [laid.lines] at lines
  rcases repopLine_lines small lines with ⟨texts', same, lengths⟩
  refine ⟨rfl, texts', laid.populated, same, ?_⟩
  apply List.ne_nil_of_length_pos
  rw [lengths]
  exact List.length_pos_of_ne_nil laid.nonempty

/-! ## Reading one line -/

namespace ReadState

/-- A label announces its part. -/
theorem partOf_label (part : Part) (label : Nat) (rest : Text) :
    partOf (labelColumn part label ++ rest) = some part := by
  cases part <;> rfl

/-- Blanks announce no part. -/
theorem partOf_blank (rest : Text) : partOf (blankColumn ++ rest) = none :=
  rfl

theorem natOf_str (label : Nat) : natOf (str label) = some label := by
  have unpadded : numeral 10 0 label = str label := by
    rw [numeral, List.leftpad, Nat.zero_sub]
    rfl
  rw [natOf, ← unpadded, parseInt_numeral (by decide) (by decide), Option.bind_some,
    if_pos (Int.natCast_nonneg label)]
  rfl

theorem takeWhile_labelColumn (part : Part) (label : Nat) :
    (labelColumn part label).takeWhile (· ≠ ':') = part.mark ++ str label := by
  have plain : ∀ c ∈ part.mark ++ str label, decide (c ≠ ':') = true := by
    intro c mem
    rw [decide_eq_true_eq]
    rintro rfl
    rcases List.mem_append.mp mem with inMark | inLabel
    · cases part <;> exact absurd inMark (by decide)
    · exact absurd (digitValue_of_mem_str inLabel) (by decide)
  rw [labelColumn, ljust, List.append_assoc, List.takeWhile_append_of_pos plain,
    List.singleton_append, List.takeWhile_cons_of_neg (by decide), List.append_nil]

theorem readLabel_label {label : Nat} (small : label < 10 ^ 3) (part : Part) (rest : Text) :
    readLabel (labelColumn part label ++ rest) = some label := by
  rw [readLabel, List.take_left' (length_labelColumn small), takeWhile_labelColumn]
  cases part <;> exact natOf_str label

variable {state : ReadState} {label : Nat}

/-- A label starts a word. -/
theorem readText_label (small : label < 10 ^ 3) (text : Text) (int : Option Nat) :
    state.readText (line (fileLine part (some label) text int)) =
      some { state with
        tuples := state.setTuples part (state.tuples part ++ [(label, [cut text])])
        part := some part } := by
  have columns : ∀ n ∈ some label, n < 10 ^ 3 := by
    rintro n ⟨⟩
    exact small
  have shape : line (fileLine part (some label) text int) =
      labelColumn part label ++ (ljust 42 text ++ tail int ++ ['\n']) := by
    rw [line, fileLine_eq columns, column, List.append_assoc]
  have texts := @slice_fileLine part (some label) text int columns
  rw [readText, texts, shape, partOf_label, readLabel_label small]
  rfl

/-- The tuples of a part that was replaced. -/
theorem setTuples_self (state : ReadState) (part : Part) (tuples : List (Nat × List Text)) :
    state.setTuples part tuples part = tuples :=
  if_pos rfl

/-- Of two replacements the last one counts. -/
theorem setTuples_setTuples (state : ReadState) (part : Part)
    (first second : List (Nat × List Text)) (current : Option Part) (ints : List Nat) :
    (ReadState.mk (state.setTuples part first) current ints).setTuples part second =
      state.setTuples part second := by
  funext other
  rw [setTuples, setTuples]
  split
  · rfl
  · rename_i isOther
    exact if_neg isOther

/-- The tuples when the last one gets another text. -/
theorem appendLast_append (text : Text) (before : List (Nat × List Text)) (label : Nat)
    (texts : List Text) :
    appendLast text (before ++ [(label, texts)]) = some (before ++ [(label, texts ++ [text])]) := by
  induction before with
  | nil => rfl
  | cons tuple before ih =>
      cases before with
      | nil => rfl
      | cons next before =>
          rw [List.cons_append, List.cons_append, appendLast, ← List.cons_append, ih]
          · rfl
          · nofun

/-- Another line continues the last word of its part. -/
theorem readText_blank {before : List (Nat × List Text)} {texts : List Text}
    (current : state.part = some part) (last : state.tuples part = before ++ [(label, texts)])
    (text : Text) (int : Option Nat) :
    state.readText (line (fileLine part none text int)) =
      some { state with
        tuples := state.setTuples part (before ++ [(label, texts ++ [cut text])]) } := by
  have columns : ∀ n ∈ (none : Option Nat), n < 10 ^ 3 := nofun
  have shape : line (fileLine part none text int) =
      blankColumn ++ (ljust 42 text ++ tail int ++ ['\n']) := by
    rw [line, fileLine_eq columns, column, List.append_assoc]
  have slices := @slice_fileLine part none text int columns
  rw [readText, slices, shape, partOf_blank, current, Option.bind_some, last, appendLast_append]
  rfl

/-- Interrupts stand on the lines of the main part and nowhere else. -/
def IntsOf (part : Part) (int : Option Nat) : Prop :=
  match part with
  | .main => ∃ n < 16, int = some n
  | _ => int = none

theorem readInts_fileLine (current : state.part = some part) (text : Text)
    (ints : IntsOf part int) {first : Option Nat} :
    state.readInts (line (fileLine part first text int)) =
      some { state with ints := state.ints ++ int.toList } := by
  cases part with
  | main =>
      obtain ⟨n, small, rfl⟩ := ints
      have bits : (numeral 2 4 n).length = 4 := numeral_length (by decide) (by decide) small
      have split : line (fileLine .main first text (some n)) =
          ljust 50 (column .main first ++ text) ++ numeral 2 4 n ++ ['\n'] :=
        rfl
      have cutBits : slice ((line (fileLine .main first text (some n))).length - 5)
          ((line (fileLine .main first text (some n))).length - 1)
          (line (fileLine .main first text (some n))) = numeral 2 4 n := by
        rw [split]
        apply slice_second
        · simp only [List.length_append, bits, List.length_singleton]
          omega
        · simp only [List.length_append, bits, List.length_singleton]
          omega
      rw [readInts, if_pos current, cutBits, parseInt_numeral (by decide) (by decide),
        Option.bind_some, if_pos (Int.natCast_nonneg n)]
      rfl
  | pre =>
      cases ints
      rw [readInts, if_neg (by rw [current]; decide), Option.toList_none, List.append_nil]
  | suf =>
      cases ints
      rw [readInts, if_neg (by rw [current]; decide), Option.toList_none, List.append_nil]

/-! ## Reading a part -/

/-- One line is read and the rest follows. -/
theorem readLines_cons {body : Text} (plain : contains "data:".toList (line body) = false)
    {next after : ReadState} (text : state.readText (line body) = some next)
    (ints : next.readInts (line body) = some after) (lines : List Text) :
    state.readLines (line body :: lines) = after.readLines lines := by
  rw [readLines, plain, if_neg Bool.false_ne_true, text, Option.bind_some, ints,
    Option.bind_some]

/-- The lines of a word behind the first one. -/
def blankLines (part : Part) (texts : List Text) (ints : List (Option Nat)) : List Text :=
  (texts.zip ints).map fun (text, int) => line (fileLine part none text int)

/-- The lines behind the first one go to the same word. -/
theorem readLines_blank {texts : List Text} {ints : List (Option Nat)}
    (lengths : texts.length = ints.length) (fits : ∀ text ∈ texts, Fits text)
    (bits : ∀ int ∈ ints, IntsOf part int) {before : List (Nat × List Text)}
    {read : List Text} (current : state.part = some part)
    (last : state.tuples part = before ++ [(label, read)]) (lines : List Text) :
    state.readLines (blankLines part texts ints ++ lines) =
      readLines { state with
        tuples := state.setTuples part (before ++ [(label, read ++ texts.map cut)])
        ints := state.ints ++ ints.flatMap Option.toList } lines := by
  induction texts generalizing state ints read with
  | nil =>
      obtain rfl := List.length_eq_zero_iff.mp lengths.symm
      have same : state.setTuples part (before ++ [(label, read)]) = state.tuples := by
        funext other
        rw [setTuples]
        split
        · rename_i isPart
          rw [isPart, last]
        · rfl
      rw [List.map_nil, List.append_nil, same, List.flatMap_nil, List.append_nil]
      rfl
  | cons text texts ih =>
      cases ints with
      | nil => cases lengths
      | cons int ints =>
          have fit := fits text List.mem_cons_self
          have int' := bits int List.mem_cons_self
          have columns : ∀ n ∈ (none : Option Nat), n < 10 ^ 3 := nofun
          have first := readText_blank current last text int
          have second := @readInts_fileLine part int
            ⟨state.setTuples part (before ++ [(label, read ++ [cut text])]), state.part,
              state.ints⟩ current text int' none
          rw [blankLines, List.zip_cons_cons, List.map_cons, List.cons_append,
            readLines_cons (contains_fileLine columns fit) first second]
          have rest := @ih
            ⟨state.setTuples part (before ++ [(label, read ++ [cut text])]), state.part,
              state.ints ++ int.toList⟩ ints (Nat.succ.inj lengths)
            (fun other mem => fits other (List.mem_cons_of_mem _ mem))
            (fun other mem => bits other (List.mem_cons_of_mem _ mem)) _ current
            (setTuples_self state part (before ++ [(label, read ++ [cut text])]))
          rw [blankLines] at rest
          rw [rest, setTuples_setTuples, List.map_cons, List.flatMap_cons]
          simp only [List.append_assoc, List.singleton_append]

/-- The lines of the file for the lines of some words. -/
def partLines (insts : List Text) (ints : List (Option Nat)) : List Text :=
  (insts.zip ints).map fun (inst, int) => line (ljust 50 inst ++ tail int)

theorem partLines_append {first second : List Text} {ints ints' : List (Option Nat)}
    (lengths : first.length = ints.length) :
    partLines (first ++ second) (ints ++ ints') = partLines first ints ++ partLines second ints' := by
  rw [partLines, List.zip_append lengths, List.map_append]
  rfl

/-- Reading the lines of one word. -/
theorem readLines_word {texts : List Text} {ints : List (Option Nat)} (small : label < 10 ^ 3)
    (nonempty : texts ≠ []) (lengths : texts.length = ints.length)
    (fits : ∀ text ∈ texts, Fits text) (bits : ∀ int ∈ ints, IntsOf part int)
    (lines : List Text) :
    state.readLines (partLines (Word.lines part label texts) ints ++ lines) =
      readLines { state with
        tuples := state.setTuples part (state.tuples part ++ [(label, texts.map cut)])
        part := some part
        ints := state.ints ++ ints.flatMap Option.toList } lines := by
  cases texts with
  | nil => exact absurd rfl nonempty
  | cons text texts =>
      cases ints with
      | nil => cases lengths
      | cons int ints =>
          have columns : ∀ n ∈ some label, n < 10 ^ 3 := by
            rintro n ⟨⟩
            exact small
          have fit := fits text List.mem_cons_self
          have int' := bits int List.mem_cons_self
          have blanks : partLines (texts.map (blankColumn ++ ·)) ints =
              blankLines part texts ints := by
            rw [partLines, blankLines, List.zip_map_left, List.map_map]
            rfl
          have first := @readText_label part state label small text int
          have second := @readInts_fileLine part int
            ⟨state.setTuples part (state.tuples part ++ [(label, [cut text])]), some part,
              state.ints⟩ rfl text int' (some label)
          have shape : partLines (Word.lines part label (text :: texts)) (int :: ints) ++ lines =
              line (fileLine part (some label) text int) ::
                (blankLines part texts ints ++ lines) := by
            rw [← blanks]
            rfl
          have rest := @readLines_blank part
            ⟨state.setTuples part (state.tuples part ++ [(label, [cut text])]), some part,
              state.ints ++ int.toList⟩ label texts ints (Nat.succ.inj lengths)
            (fun other mem => fits other (List.mem_cons_of_mem _ mem))
            (fun other mem => bits other (List.mem_cons_of_mem _ mem)) _ _ rfl
            (setTuples_self state part _) lines
          rw [shape, readLines_cons (contains_fileLine columns fit) first second, rest,
            setTuples_setTuples, List.map_cons, List.flatMap_cons]
          simp only [List.append_assoc, List.singleton_append]

/-- Reading the lines of a part. -/
theorem readLines_part {laid : List (Nat × List Text)} {ints : List (Option Nat)}
    (small : ∀ word ∈ laid, word.1 < 10 ^ 3) (nonempty : ∀ word ∈ laid, word.2 ≠ [])
    (fits : ∀ word ∈ laid, ∀ text ∈ word.2, Fits text)
    (lengths : (laid.flatMap fun word => Word.lines part word.1 word.2).length = ints.length)
    (bits : ∀ int ∈ ints, IntsOf part int) (lines : List Text) :
    ∃ current, state.readLines
        (partLines (laid.flatMap fun word => Word.lines part word.1 word.2) ints ++ lines) =
      readLines
        { tuples := state.setTuples part
            (state.tuples part ++ laid.map fun word => (word.1, word.2.map cut))
          part := current
          ints := state.ints ++ ints.flatMap Option.toList } lines := by
  induction laid generalizing state ints with
  | nil =>
      obtain rfl := List.length_eq_zero_iff.mp lengths.symm
      have same : state.setTuples part (state.tuples part) = state.tuples := by
        funext other
        rw [setTuples]
        split
        · rename_i isPart
          rw [isPart]
        · rfl
      refine ⟨state.part, ?_⟩
      simp only [List.map_nil, List.flatMap_nil, List.append_nil, same]
      rfl
  | cons word laid ih =>
      rw [List.flatMap_cons, List.length_append, Word.length_lines] at lengths
      have enough : word.2.length ≤ ints.length := lengths ▸ Nat.le_add_right _ _
      have take : word.2.length = (ints.take word.2.length).length := by
        rw [List.length_take, min_eq_left enough]
      have drop : (laid.flatMap fun word => Word.lines part word.1 word.2).length =
          (ints.drop word.2.length).length := by
        rw [List.length_drop]
        omega
      have first := @readLines_word part state word.1 word.2 (ints.take word.2.length)
        (small word List.mem_cons_self) (nonempty word List.mem_cons_self) take
        (fits word List.mem_cons_self) (fun int mem => bits int (List.mem_of_mem_take mem))
      obtain ⟨current, rest⟩ := @ih
        ⟨state.setTuples part (state.tuples part ++ [(word.1, word.2.map cut)]), some part,
          state.ints ++ (ints.take word.2.length).flatMap Option.toList⟩ (ints.drop word.2.length)
        (fun other mem => small other (List.mem_cons_of_mem _ mem))
        (fun other mem => nonempty other (List.mem_cons_of_mem _ mem))
        (fun other mem => fits other (List.mem_cons_of_mem _ mem)) drop
        (fun int mem => bits int (List.mem_of_mem_drop mem))
      refine ⟨current, ?_⟩
      have lines' : partLines (Word.lines part word.1 word.2 ++
            laid.flatMap fun word => Word.lines part word.1 word.2) ints =
          partLines (Word.lines part word.1 word.2) (ints.take word.2.length) ++
            partLines (laid.flatMap fun word => Word.lines part word.1 word.2)
              (ints.drop word.2.length) := by
        conv_lhs => rw [← List.take_append_drop word.2.length ints]
        apply partLines_append
        rw [Word.length_lines, ← take]
      rw [List.flatMap_cons, lines', List.append_assoc, first, rest, setTuples_setTuples]
      dsimp only
      rw [setTuples_self, List.map_cons, List.append_assoc, List.append_assoc,
        ← List.flatMap_append, List.take_append_drop]
      rfl

end ReadState

/-! ## Words read back -/

/-- The instructions of a populated word. -/
def Word.texts (word : Word) : List Text := word.retInsts.map (List.drop 8)

theorem map_drop_lines {part : Part} {label : Nat} (small : label < 10 ^ 3) (texts : List Text) :
    (Word.lines part label texts).map (List.drop 8) = texts := by
  cases texts with
  | nil => rfl
  | cons text texts =>
      rw [Word.lines, List.map_cons, List.drop_left' (length_labelColumn small), List.map_map]
      congr 1
      exact List.map_id texts

/-- What the part of a seed is saved from. -/
theorem Savable.word {part : Part} {words : List Word} (savable : Savable part words)
    {word : Word} (mem : word ∈ words) :
    word.label < 10 ^ 3 ∧ word.Laid part word.texts ∧ ∀ text ∈ word.texts, Fits text := by
  have small : word.label < 10 ^ 3 := by
    have few : words.length ≤ 200 := savable.few
    have inRange : word.label ∈ List.range words.length := by
      rw [← savable.labels]
      exact List.mem_map_of_mem mem
    have below := List.mem_range.mp inRange
    omega
  obtain ⟨texts, laid, fits⟩ := savable.laid word mem
  have same : word.texts = texts := by
    rw [Word.texts, laid.lines, map_drop_lines small]
  rw [same]
  exact ⟨small, laid, fits⟩

/-- The labels and instructions of a part. -/
def tuplesOf (words : List Word) : List (Nat × List Text) :=
  words.map fun word => (word.label, word.texts)

theorem getPart_of_savable {part : Part} {words : List Word} (savable : Savable part words) :
    getPart part words = some (((tuplesOf words).flatMap fun tuple =>
      Word.lines part tuple.1 tuple.2) ++ [part.mark ++ str words.length ++ [':']]) := by
  have insts : words.mapM Word.getInsts =
      some (words.map fun word => Word.lines part word.label word.texts) := by
    apply mapM_eq_some_map
    intro word mem
    have laid := (savable.word mem).2.1
    rw [Word.getInsts, if_pos laid.populated, laid.lines]
  rw [getPart, insts, Option.map_some, tuplesOf, List.flatMap_map, List.flatMap]

/-- The word that is read for a label and its instructions. -/
def readWord (part : Part) (label : Nat) (texts : List Text) : Word :=
  { Word.plain label texts with
    populated := true
    retInsts := Word.lines part label texts }

theorem populate_plain {label : Nat} {texts : List Text} (nonempty : texts ≠ [])
    (long : ∀ text ∈ texts, 42 ≤ text.length) (part : Part) :
    (Word.plain label texts).populate Dict.empty part = some (readWord part label texts) := by
  have same : texts.map (fun inst => ljust 42 (Word.popInst Dict.empty inst)) = texts := by
    calc
      texts.map (fun inst => ljust 42 (Word.popInst Dict.empty inst)) = texts.map id := by
        apply List.map_congr_left
        intro text mem
        exact ljust_eq_self (long text mem)
      _ = texts := List.map_id texts
  cases texts with
  | nil => exact absurd rfl nonempty
  | cons text texts =>
      rw [Word.populate]
      change some _ = some _
      rw [readWord]
      congr 2
      exact congrArg (Word.lines part label) same

theorem tuplesToWords_cut {part : Part} {words : List Word} (savable : Savable part words) :
    tuplesToWords part ((tuplesOf words).map fun tuple => (tuple.1, tuple.2.map cut)) =
      some (words.map fun word => readWord part word.label (word.texts.map cut)) := by
  have each : tuplesToWords part ((tuplesOf words).map fun tuple => (tuple.1, tuple.2.map cut)) =
      some (((tuplesOf words).map fun tuple => (tuple.1, tuple.2.map cut)).map fun tuple =>
        readWord part tuple.1 tuple.2) := by
    apply mapM_eq_some_map
    intro tuple mem
    obtain ⟨original, isOriginal, rfl⟩ := List.mem_map.mp mem
    obtain ⟨word, isWord, rfl⟩ := List.mem_map.mp isOriginal
    have laid := (savable.word isWord).2.1
    apply populate_plain
    · rw [ne_eq, List.map_eq_nil_iff]
      exact laid.nonempty
    · intro text isText
      obtain ⟨whole, _, rfl⟩ := List.mem_map.mp isText
      exact (length_cut whole).ge
  rw [each, tuplesOf, List.map_map, List.map_map]
  rfl

/-- Blanks at the end of an instruction are those at the end of its line. -/
theorem rstrip_append_congr {first second : Text} (same : rstrip first = rstrip second)
    (front : Text) : rstrip (front ++ first) = rstrip (front ++ second) := by
  have reduce : ∀ text, rstrip (front ++ text) = rstrip (front ++ rstrip text) := by
    intro text
    obtain ⟨n, parts⟩ := exists_rstrip_append text
    calc
      rstrip (front ++ text) = rstrip (front ++ rstrip text ++ List.replicate n ' ') := by
        rw [List.append_assoc, ← parts]
      _ = rstrip (front ++ rstrip text) := rstrip_append_blanks _ n
  rw [reduce first, reduce second, same]

theorem rstrip_lines_cut {part : Part} {label : Nat} {texts : List Text}
    (fits : ∀ text ∈ texts, Fits text) :
    (Word.lines part label (texts.map cut)).map rstrip =
      (Word.lines part label texts).map rstrip := by
  cases texts with
  | nil => rfl
  | cons text texts =>
      have each : ∀ other ∈ text :: texts, ∀ front,
          rstrip (front ++ cut other) = rstrip (front ++ other) :=
        fun other mem front => rstrip_append_congr (rstrip_cut (fits other mem).short) front
      rw [List.map_cons, Word.lines, Word.lines, List.map_cons, List.map_cons,
        each text List.mem_cons_self, List.map_map, List.map_map, List.map_map]
      congr 1
      apply List.map_congr_left
      intro other mem
      exact each other (List.mem_cons_of_mem _ mem) blankColumn

theorem sameWords_cut {part : Part} {words : List Word} (savable : Savable part words) :
    SameWords words (words.map fun word => readWord part word.label (word.texts.map cut)) := by
  rw [SameWords, List.forall₂_map_right_iff, List.forall₂_same]
  intro word mem
  obtain ⟨_, laid, fits⟩ := savable.word mem
  refine ⟨rfl, rfl, ?_⟩
  rw [laid.lines]
  exact rstrip_lines_cut fits

/-! ## The whole file -/

open ReadState

/-- The lines of a part without its end label. -/
def partInsts (part : Part) (words : List Word) : List Text :=
  (tuplesOf words).flatMap fun tuple => Word.lines part tuple.1 tuple.2

theorem partLines_none (insts : List Text) :
    partLines insts (List.replicate insts.length none) = (insts.map (ljust 50)).map line := by
  induction insts with
  | nil => rfl
  | cons inst insts ih =>
      have first : line (ljust 50 inst ++ tail none) = line (ljust 50 inst) := by
        rw [tail, List.append_nil]
      rw [List.map_cons, List.map_cons, ← ih, ← first]
      rfl

/-- What has no partner is left out. -/
theorem zip_concat_left {α β : Type} {first : List α} {second : List β}
    (lengths : first.length = second.length) (last : α) :
    (first ++ [last]).zip second = first.zip second := by
  calc
    (first ++ [last]).zip second = (first ++ [last]).zip (second ++ []) := by
      rw [List.append_nil]
    _ = first.zip second ++ [last].zip [] := List.zip_append lengths
    _ = first.zip second := List.append_nil _

theorem partLines_some (input : SimInput) {insts : List Text}
    (lengths : insts.length = input.ints.length) (last : Text) :
    partLines insts (input.ints.map some) = (input.mainLines (insts ++ [last])).map line := by
  have zips := zip_concat_left lengths last
  rw [partLines, SimInput.mainLines, zips, List.zip_map_right, List.map_map, List.map_map]
  rfl

/-- A line of a word is a column and a text. -/
theorem exists_of_mem_lines {part : Part} {label : Nat} {texts : List Text} {inst : Text}
    (mem : inst ∈ Word.lines part label texts) :
    ∃ first : Option Nat, (∀ n ∈ first, n = label) ∧
      ∃ text ∈ texts, inst = column part first ++ text := by
  cases texts with
  | nil => cases mem
  | cons text texts =>
      rcases List.mem_cons.mp mem with isFirst | later
      · refine ⟨some label, ?_, text, List.mem_cons_self, isFirst⟩
        rintro n ⟨⟩
        rfl
      · obtain ⟨other, isOther, rfl⟩ := List.mem_map.mp later
        exact ⟨none, nofun, other, List.mem_cons_of_mem _ isOther, rfl⟩

/-- The lines of a part are single lines. -/
theorem newline_notMem_partInsts {part : Part} {words : List Word} (savable : Savable part words)
    {inst : Text} (mem : inst ∈ partInsts part words) (int : Option Nat) :
    '\n' ∉ ljust 50 inst ++ tail int := by
  obtain ⟨tuple, isTuple, isLine⟩ := List.mem_flatMap.mp mem
  obtain ⟨word, isWord, rfl⟩ := List.mem_map.mp isTuple
  obtain ⟨small, _, fits⟩ := savable.word isWord
  obtain ⟨first, isLabel, text, isText, rfl⟩ := exists_of_mem_lines isLine
  apply newline_notMem_fileLine
  · intro n isFirst
    rw [isLabel n isFirst]
    exact small
  · exact fits text isText

/-- Reading the lines of a saved part. -/
theorem ReadState.readLines_partInsts {part : Part} {words : List Word}
    (savable : Savable part words) {state : ReadState} {ints : List (Option Nat)}
    (lengths : (partInsts part words).length = ints.length)
    (bits : ∀ int ∈ ints, IntsOf part int) (lines : List Text) :
    ∃ current, state.readLines (partLines (partInsts part words) ints ++ lines) =
      readLines
        { tuples := state.setTuples part
            (state.tuples part ++ (tuplesOf words).map fun tuple => (tuple.1, tuple.2.map cut))
          part := current
          ints := state.ints ++ ints.flatMap Option.toList } lines := by
  have each : ∀ tuple ∈ tuplesOf words, tuple.1 < 10 ^ 3 ∧ tuple.2 ≠ [] ∧
      ∀ text ∈ tuple.2, Fits text := by
    intro tuple mem
    obtain ⟨word, isWord, rfl⟩ := List.mem_map.mp mem
    obtain ⟨small, laid, fits⟩ := savable.word isWord
    exact ⟨small, laid.nonempty, fits⟩
  exact readLines_part (fun tuple mem => (each tuple mem).1) (fun tuple mem => (each tuple mem).2.1)
    (fun tuple mem => (each tuple mem).2.2) lengths bits lines

/-- Reading the data section. -/
theorem ReadState.readLines_data (state : ReadState) (data : List Nat) :
    state.readLines ((SimInput.dataLines data).map line) = some (state, data) := by
  cases data with
  | nil => rfl
  | cons first rest =>
      have words : ((first :: rest).map (numeral 16 16)).map line =
          (first :: rest).map fun word => numeral 16 16 word ++ ['\n'] := by
        rw [List.map_map]
        rfl
      have values : (((first :: rest).map fun word => numeral 16 16 word ++ ['\n']).mapM
          fun word => (parseInt 16 word).bind fun i => if 0 ≤ i then some i.toNat else none) =
          some (first :: rest) := by
        rw [List.mapM_map]
        calc
          ((first :: rest).mapM fun word => (parseInt 16 (numeral 16 16 word ++ ['\n'])).bind
              fun i => if 0 ≤ i then some i.toNat else none) = some ((first :: rest).map id) := by
            apply mapM_eq_some_map
            intro word _
            rw [parseInt_numeral_append (by decide) (by decide) _ _ (by decide), Option.bind_some,
              if_pos (Int.natCast_nonneg word)]
            rfl
          _ = some (first :: rest) := by rw [List.map_id]
      have announced : contains "data:".toList (line "data:".toList) = true := by decide
      rw [SimInput.dataLines, if_neg (List.cons_ne_nil first rest), List.map_cons, words,
        readLines, if_pos announced, values]
      rfl

/-- Reading the prefix or the suffix. -/
theorem ReadState.readLines_plain {part : Part} {words : List Word} (savable : Savable part words)
    (isPlain : part ≠ .main) (state : ReadState) (lines : List Text) :
    ∃ current, state.readLines
        (((partInsts part words).map (ljust 50)).map line ++ lines) =
      readLines
        { tuples := state.setTuples part
            (state.tuples part ++ (tuplesOf words).map fun tuple => (tuple.1, tuple.2.map cut))
          part := current
          ints := state.ints } lines := by
  have noInts : (List.replicate (partInsts part words).length (none : Option Nat)).flatMap
      Option.toList = [] := by
    rw [List.flatMap_eq_nil_iff]
    intro int mem
    rw [List.eq_of_mem_replicate mem]
    rfl
  have noBits : ∀ int ∈ List.replicate (partInsts part words).length (none : Option Nat),
      IntsOf part int := by
    intro int mem
    rw [List.eq_of_mem_replicate mem]
    cases part with
    | main => exact absurd rfl isPlain
    | pre => rfl
    | suf => rfl
  obtain ⟨current, read⟩ := @readLines_partInsts part words savable state
    (List.replicate (partInsts part words).length none) List.length_replicate.symm noBits lines
  rw [noInts, List.append_nil] at read
  rw [← partLines_none]
  exact ⟨current, read⟩

/-- Reading the main part. -/
theorem ReadState.readLines_main {input : SimInput} (savable : Savable .main input.words)
    (lengths : (partInsts .main input.words).length = input.ints.length)
    (bits : ∀ int ∈ input.ints, int < 16) (state : ReadState) (last : Text) (lines : List Text) :
    ∃ current, state.readLines
        ((input.mainLines (partInsts .main input.words ++ [last])).map line ++ lines) =
      readLines
        { tuples := state.setTuples .main (state.tuples .main ++
            (tuplesOf input.words).map fun tuple => (tuple.1, tuple.2.map cut))
          part := current
          ints := state.ints ++ input.ints } lines := by
  have allInts : (input.ints.map some).flatMap Option.toList = input.ints := by
    rw [List.flatMap_map]
    exact List.flatMap_singleton' input.ints
  have allBits : ∀ int ∈ input.ints.map some, IntsOf .main int := by
    intro int mem
    obtain ⟨n, isInt, rfl⟩ := List.mem_map.mp mem
    exact ⟨n, bits n isInt, rfl⟩
  have lengths' : (partInsts .main input.words).length = (input.ints.map some).length := by
    rw [lengths, List.length_map]
  obtain ⟨current, read⟩ := @readLines_partInsts .main input.words savable state
    (input.ints.map some) lengths' allBits lines
  rw [allInts] at read
  rw [← partLines_some input lengths]
  exact ⟨current, read⟩

/-- The lines of a part are those of its words. -/
theorem partInsts_eq {part : Part} {words : List Word} (savable : Savable part words) :
    partInsts part words = words.flatMap Word.retInsts := by
  rw [partInsts, tuplesOf, List.flatMap_map]
  apply List.flatMap_congr
  intro word mem
  exact (savable.word mem).2.1.lines.symm

/-- The lines that are saved, without their terminators. -/
def bodies (input : SimInput) (data : List Nat) (name : Text) : List Text :=
  name :: [] :: ((partInsts .pre input.pre).map (ljust 50) ++
    (input.mainLines (partInsts .main input.words ++
      [Part.main.mark ++ str input.words.length ++ [':']]) ++
    ((partInsts .suf input.suf).map (ljust 50) ++ SimInput.dataLines data)))

theorem save_eq {input : SimInput} {data : List Nat} {name : Text}
    (template : templates[input.template]? = some name) (pre : Savable .pre input.pre)
    (words : Savable .main input.words) (suf : Savable .suf input.suf) :
    input.save data = some ((bodies input data name).map line).flatten := by
  have preInsts := getPart_of_savable pre
  have mainInsts := getPart_of_savable words
  have sufInsts := getPart_of_savable suf
  rw [SimInput.save, template, Option.bind_some, preInsts, Option.bind_some, mainInsts,
    Option.bind_some, sufInsts, Option.map_some, List.dropLast_concat, List.dropLast_concat]
  simp only [List.append_assoc]
  rfl

theorem newline_notMem_bodies {input : SimInput} {data : List Nat} {name : Text}
    (plainName : '\n' ∉ name) (pre : Savable .pre input.pre)
    (words : Savable .main input.words) (suf : Savable .suf input.suf)
    (lengths : (partInsts .main input.words).length = input.ints.length) :
    ∀ body ∈ bodies input data name, '\n' ∉ body := by
  have plainPart : ∀ {part : Part} {words : List Word}, Savable part words →
      ∀ body ∈ (partInsts part words).map (ljust 50), '\n' ∉ body := by
    intro part words savable body mem
    obtain ⟨inst, isInst, rfl⟩ := List.mem_map.mp mem
    have plain := newline_notMem_partInsts savable isInst none
    rwa [tail, List.append_nil] at plain
  intro body mem
  simp only [bodies, List.mem_cons, List.mem_append] at mem
  rcases mem with rfl | rfl | inPre | inMain | inSuf | inData
  · exact plainName
  · exact List.not_mem_nil
  · exact plainPart pre body inPre
  · obtain ⟨⟨inst, int⟩, isPair, rfl⟩ := List.mem_map.mp inMain
    rw [zip_concat_left lengths] at isPair
    exact newline_notMem_partInsts words (List.of_mem_zip isPair).1 (some int)
  · exact plainPart suf body inSuf
  · rw [SimInput.dataLines] at inData
    split at inData
    · cases inData
    · rcases List.mem_cons.mp inData with rfl | isWord
      · decide
      · obtain ⟨word, _, rfl⟩ := List.mem_map.mp isWord
        exact newline_notMem_numeral (by decide) (by decide) 16 word

/-- Data that is given is kept under the seed that is returned. -/
theorem addData_given {seeds : DataSeeds} (room : seeds.maxData ≠ 0) {data : List Nat}
    (nonempty : data ≠ []) (tape : List Nat) :
    ∃ seed seeds', seeds.addData data tape = some ((seed, seeds'), tape) ∧
      seeds'.randomData.get? seed = some data := by
  have choice : ∃ seed rest, seeds.nextSeed = some (seed, rest) := by
    rw [DataSeeds.nextSeed]
    split
    · rename_i full
      cases list : seeds.dataSeeds with
      | nil =>
          rw [list] at full
          exact absurd full.symm room
      | cons seed rest => exact ⟨seed, rest, rfl⟩
    · exact ⟨_, _, rfl⟩
  obtain ⟨seed, rest, chosen⟩ := choice
  refine ⟨seed, { seeds with
    randomData := seeds.randomData.set seed data
    dataSeeds := rest ++ [seed] }, ?_, Dict.get?_set_self _ _ _⟩
  rw [DataSeeds.addData, chosen, Random.ofOption_some_bind]
  dsimp only
  rw [if_neg nonempty]
  rfl

/-- The lines behind the template and the empty line. -/
theorem readLines_saved {input : SimInput} {data : List Nat} (pre : Savable .pre input.pre)
    (words : Savable .main input.words) (suf : Savable .suf input.suf)
    (lengths : (partInsts .main input.words).length = input.ints.length)
    (bits : ∀ int ∈ input.ints, int < 16) (last : Text) :
    ∃ tuples current, ReadState.start.readLines
        (((partInsts .pre input.pre).map (ljust 50)).map line ++
        ((input.mainLines (partInsts .main input.words ++ [last])).map line ++
        (((partInsts .suf input.suf).map (ljust 50)).map line ++
        (SimInput.dataLines data).map line))) = some (⟨tuples, current, input.ints⟩, data) ∧
      tuples .pre = (tuplesOf input.pre).map (fun tuple => (tuple.1, tuple.2.map cut)) ∧
      tuples .main = (tuplesOf input.words).map (fun tuple => (tuple.1, tuple.2.map cut)) ∧
      tuples .suf = (tuplesOf input.suf).map (fun tuple => (tuple.1, tuple.2.map cut)) := by
  obtain ⟨first, readPre⟩ := readLines_plain pre (by decide) ReadState.start
    ((input.mainLines (partInsts .main input.words ++ [last])).map line ++
      (((partInsts .suf input.suf).map (ljust 50)).map line ++
        (SimInput.dataLines data).map line))
  obtain ⟨second, readMain⟩ := readLines_main words lengths bits
    ⟨_, first, ReadState.start.ints⟩ last
    (((partInsts .suf input.suf).map (ljust 50)).map line ++ (SimInput.dataLines data).map line)
  obtain ⟨third, readSuf⟩ := readLines_plain suf (by decide) ⟨_, second, _⟩
    ((SimInput.dataLines data).map line)
  rw [readPre, readMain, readSuf, readLines_data]
  exact ⟨_, _, rfl, rfl, rfl, rfl⟩

/-- The name of a template is read back. -/
theorem exists_templateName {template : Nat} (small : template < 4) :
    ∃ name, templates[template]? = some name ∧ '\n' ∉ name ∧
      templates.idxOf? ((line name).takeWhile (· ≠ '\n')) = some template := by
  interval_cases template <;> exact ⟨_, rfl, by decide, by decide⟩

/-- What is read from the file of a savable seed, before its data is kept. -/
theorem readSiminput_bodies {input : SimInput} {data : List Nat} {name : Text}
    (plainName : '\n' ∉ name)
    (isTemplate : templates.idxOf? ((line name).takeWhile (· ≠ '\n')) = some input.template)
    (pre : Savable .pre input.pre) (words : Savable .main input.words)
    (suf : Savable .suf input.suf)
    (lengths : (partInsts .main input.words).length = input.ints.length)
    (bits : ∀ int ∈ input.ints, int < 16) (seeds : DataSeeds) :
    readSiminput seeds ((bodies input data name).map line).flatten = (do
      let (dataSeed, seeds) ← seeds.addData data
      let kept ← Random.ofOption (seeds.randomData.get? dataSeed)
      pure ((⟨input.pre.map fun word => readWord .pre word.label (word.texts.map cut),
        input.words.map fun word => readWord .main word.label (word.texts.map cut),
        input.suf.map fun word => readWord .suf word.label (word.texts.map cut),
        input.ints, dataSeed, input.template⟩, kept, input.ints.any (· ≠ 0)), seeds)) := by
  have plain := @newline_notMem_bodies input data name plainName pre words suf lengths
  obtain ⟨tuples, current, read, preTuples, mainTuples, sufTuples⟩ :=
    @readLines_saved input data pre words suf lengths bits
      (Part.main.mark ++ str input.words.length ++ [':'])
  rw [readSiminput, readlines_flatten_lines plain, bodies, List.map_cons, List.map_cons]
  simp only [List.map_append, isTemplate, read, Random.ofOption_some_bind]
  rw [preTuples, mainTuples, sufTuples, tuplesToWords_cut pre, tuplesToWords_cut words,
    tuplesToWords_cut suf]
  simp only [Random.ofOption_some_bind]

/-- Every savable seed is read back from its file: the same words up to blanks at the end of
a line, the same interrupts and the same data. -/
theorem readSiminput_save {input : SimInput} {data : List Nat} {seeds : DataSeeds}
    (template : input.template < 4) (pre : Savable .pre input.pre)
    (words : Savable .main input.words) (suf : Savable .suf input.suf)
    (lengths : input.ints.length = (input.words.flatMap Word.retInsts).length)
    (bits : ∀ int ∈ input.ints, int < 16) (nonempty : data ≠ []) (room : seeds.maxData ≠ 0)
    (tape : List Nat) :
    ∃ file read seeds', input.save data = some file ∧
      readSiminput seeds file tape =
        some (((read, data, decide (∃ int ∈ input.ints, int ≠ 0)), seeds'), tape) ∧
      read.template = input.template ∧ SameWords input.pre read.pre ∧
      SameWords input.words read.words ∧ SameWords input.suf read.suf ∧
      read.ints = input.ints := by
  obtain ⟨name, isName, plainName, isTemplate⟩ := exists_templateName template
  have lengths' : (partInsts .main input.words).length = input.ints.length := by
    rw [partInsts_eq words, lengths]
  obtain ⟨seed, seeds', added, kept⟩ := addData_given room nonempty tape
  refine ⟨_, ⟨input.pre.map fun word => readWord .pre word.label (word.texts.map cut),
    input.words.map fun word => readWord .main word.label (word.texts.map cut),
    input.suf.map fun word => readWord .suf word.label (word.texts.map cut),
    input.ints, seed, input.template⟩, seeds', save_eq isName pre words suf, ?_, rfl,
    sameWords_cut pre, sameWords_cut words, sameWords_cut suf, rfl⟩
  have intr : decide (∃ int ∈ input.ints, int ≠ 0) = input.ints.any (· ≠ 0) := by
    rw [List.any_eq]
    simp
  rw [readSiminput_bodies plainName isTemplate pre words suf lengths' bits,
    Random.bind_eq_some_iff]
  refine ⟨(seed, seeds'), tape, added, ?_⟩
  dsimp only
  rw [kept, Random.ofOption_some_bind, intr]
  rfl

/-- The words that are read from the file of a savable seed. -/
theorem readSiminput_returns {input input' : SimInput} {data data' : List Nat}
    {seeds seeds' : DataSeeds} {file : Text} {intr : Bool}
    (template : input.template < 4) (pre : Savable .pre input.pre)
    (words : Savable .main input.words) (suf : Savable .suf input.suf)
    (lengths : input.ints.length = (input.words.flatMap Word.retInsts).length)
    (bits : ∀ int ∈ input.ints, int < 16) (saved : input.save data = some file)
    (returned : Random.Returns (readSiminput seeds file) ((input', data', intr), seeds')) :
    input'.pre = input.pre.map (fun word => readWord .pre word.label (word.texts.map cut)) ∧
      input'.words = input.words.map
        (fun word => readWord .main word.label (word.texts.map cut)) ∧
      input'.suf = input.suf.map (fun word => readWord .suf word.label (word.texts.map cut)) ∧
      input'.ints = input.ints ∧ input'.template = input.template := by
  obtain ⟨name, isName, plainName, isTemplate⟩ := exists_templateName template
  have lengths' : (partInsts .main input.words).length = input.ints.length := by
    rw [partInsts_eq words, lengths]
  rw [save_eq isName pre words suf] at saved
  cases saved
  rw [readSiminput_bodies plainName isTemplate pre words suf lengths' bits] at returned
  rcases returned.bind with ⟨⟨seed, seeds''⟩, _, returned⟩
  rcases returned.bind with ⟨kept, _, returned⟩
  cases Random.returns_pure.mp returned
  exact ⟨rfl, rfl, rfl, rfl, rfl⟩

/-- A seed with a jump whose line was lengthened when its target was renumbered. -/
def jumpSeed : SimInput where
  pre := [readWord .pre 0 [ljust 42 "li t0, 1".toList]]
  words := [
    readWord .main 0 [ljust 50 "beq x5, x6, _l1".toList, ljust 42 "addi x5, x5, 1".toList],
    readWord .main 1 [ljust 42 "nop".toList]]
  suf := []
  ints := [0, 9, 0]
  dataSeed := 0
  template := 3

theorem savable_readWord {part : Part} {texts : List (List Text)} (few : texts.length ≤ maxNWords)
    (nonempty : ∀ insts ∈ texts, insts ≠ []) (fits : ∀ insts ∈ texts, ∀ text ∈ insts, Fits text) :
    Savable part (texts.zipIdx.map fun (insts, label) => readWord part label insts) where
  few := by rwa [List.length_map, List.length_zipIdx]
  labels := by
    rw [List.map_map, List.length_map, List.length_zipIdx]
    rw [List.range_eq_range', ← List.zipIdx_map_snd]
    rfl
  laid := by
    intro word mem
    obtain ⟨⟨insts, label⟩, isInst, rfl⟩ := List.mem_map.mp mem
    have listed := List.fst_mem_of_mem_zipIdx isInst
    exact ⟨insts, ⟨rfl, rfl, nonempty insts listed⟩, fits insts listed⟩

theorem readSiminput_save_jumpSeed :
    ∃ file read seeds', jumpSeed.save [7, 2 ^ 64 - 1] = some file ∧
      readSiminput ⟨1, Dict.empty, []⟩ file [] =
        some (((read, [7, 2 ^ 64 - 1], decide (∃ int ∈ jumpSeed.ints, int ≠ 0)), seeds'), []) ∧
      read.template = jumpSeed.template ∧ SameWords jumpSeed.pre read.pre ∧
      SameWords jumpSeed.words read.words ∧ SameWords jumpSeed.suf read.suf ∧
      read.ints = jumpSeed.ints := by
  have pre : Savable .pre jumpSeed.pre :=
    @savable_readWord .pre [[ljust 42 "li t0, 1".toList]] (by decide) (by decide)
      (by decide +kernel)
  have words : Savable .main jumpSeed.words :=
    @savable_readWord .main [[ljust 50 "beq x5, x6, _l1".toList,
      ljust 42 "addi x5, x5, 1".toList], [ljust 42 "nop".toList]] (by decide) (by decide)
      (by decide +kernel)
  have suf : Savable .suf jumpSeed.suf :=
    @savable_readWord .suf [] (by decide) (by decide) (by decide)
  exact readSiminput_save (by decide) pre words suf (by decide) (by decide) (by decide)
    (by decide) []

end Difftest.Fuzzer
