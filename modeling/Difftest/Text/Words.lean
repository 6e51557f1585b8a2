import Difftest.Text.Format

/-!
# Words

A line of a table is read as the list of its words, the texts between blanks.  How its columns are
padded does not matter: a row has the words of its fields.
-/

namespace Difftest.Text

/-- `text.split()`: the nonempty texts between whitespace. -/
def words (text : Text) : List Text := (text.splitOnP isSpace).filter (· ≠ [])

/-- Fields with a blank in front of each. -/
def row (fields : List Text) : Text := fields.flatMap (' ' :: ·)

/-- `'{:>width}'.format(text)`: blanks before the text up to the width. -/
def rjust (width : Nat) (text : Text) : Text := text.leftpad width ' '

/-! ## Words between blanks -/

@[simp]
theorem words_nil : words [] = [] := by simp [words]

theorem words_append_cons {c : Char} (blank : isSpace c = true) (front back : Text) :
    words (front ++ c :: back) = words front ++ words back := by
  rw [words, List.splitOnP_append_cons front back blank, List.filter_append]
  rfl

theorem words_cons {c : Char} (blank : isSpace c = true) (text : Text) :
    words (c :: text) = words text := by
  have atStart := words_append_cons blank [] text
  rwa [words_nil, List.nil_append, List.nil_append] at atStart

theorem words_concat {c : Char} (blank : isSpace c = true) (text : Text) :
    words (text ++ [c]) = words text := by
  rw [words_append_cons blank, words_nil, List.append_nil]

/-- A text without blanks is one word. -/
theorem words_of_plain {text : Text} (nonempty : text ≠ [])
    (plain : ∀ c ∈ text, isSpace c = false) : words text = [text] := by
  rw [words, List.splitOnP_eq_singleton plain]
  simp [nonempty]

/-- A text without blanks is one word or none. -/
theorem words_of_forall {text : Text} (plain : ∀ c ∈ text, isSpace c = false) :
    words text = [text].filter (· ≠ []) := by
  rw [words, List.splitOnP_eq_singleton plain]

theorem words_append_blanks {blanks : Text} (blank : ∀ c ∈ blanks, isSpace c = true)
    (text : Text) : words (text ++ blanks) = words text := by
  induction blanks generalizing text with
  | nil => rw [List.append_nil]
  | cons c blanks inductionHypothesis =>
      have moved := inductionHypothesis (fun c' mem => blank c' (List.mem_cons_of_mem _ mem))
        (text ++ [c])
      rw [List.append_assoc] at moved
      rw [show c :: blanks = [c] ++ blanks from rfl, moved,
        words_concat (blank c List.mem_cons_self)]

theorem words_blanks_append {blanks : Text} (blank : ∀ c ∈ blanks, isSpace c = true)
    (text : Text) : words (blanks ++ text) = words text := by
  induction blanks with
  | nil => rfl
  | cons c blanks inductionHypothesis =>
      rw [List.cons_append, words_cons (blank c List.mem_cons_self)]
      exact inductionHypothesis fun c' mem => blank c' (List.mem_cons_of_mem _ mem)

theorem isSpace_of_mem_replicate {n : Nat} {c : Char} (mem : c ∈ List.replicate n ' ') :
    isSpace c = true := by
  rw [List.eq_of_mem_replicate mem]
  decide

@[simp]
theorem words_ljust (width : Nat) (text : Text) : words (ljust width text) = words text :=
  words_append_blanks (fun _ mem => isSpace_of_mem_replicate mem) text

@[simp]
theorem words_rjust (width : Nat) (text : Text) : words (rjust width text) = words text :=
  words_blanks_append (fun _ mem => isSpace_of_mem_replicate mem) text

/-- A row has the words of its fields. -/
theorem words_row (fields : List Text) : words (row fields) = fields.flatMap words := by
  have behind : ∀ front, words (front ++ row fields) = words front ++ fields.flatMap words := by
    induction fields with
    | nil => simp [row]
    | cons field rest inductionHypothesis =>
        intro front
        have split : front ++ row (field :: rest) = front ++ ' ' :: (field ++ row rest) := rfl
        rw [split, words_append_cons (by decide), inductionHypothesis, List.flatMap_cons]
  simpa using behind []

/-! ## Stripping -/

/-- Stripping leaves the blanks at the end away. -/
theorem dropWhile_eq_strip_append (text : Text) :
    text.dropWhile isSpace = strip text ++
      ((text.dropWhile isSpace).reverse.takeWhile isSpace).reverse := by
  rw [strip, ← List.reverse_append, List.takeWhile_append_dropWhile, List.reverse_reverse]

theorem exists_strip (text : Text) : ∃ front back, text = front ++ (strip text ++ back) ∧
    (∀ c ∈ front, isSpace c = true) ∧ ∀ c ∈ back, isSpace c = true := by
  have atEnd := dropWhile_eq_strip_append text
  refine ⟨text.takeWhile isSpace,
    ((text.dropWhile isSpace).reverse.takeWhile isSpace).reverse, ?_, ?_, ?_⟩
  · rw [← atEnd, List.takeWhile_append_dropWhile]
  · exact fun c mem => List.mem_takeWhile_imp mem
  · exact fun c mem => List.mem_takeWhile_imp (List.mem_reverse.mp mem)

/-- Stripping keeps the words. -/
@[simp]
theorem words_strip (text : Text) : words (strip text) = words text := by
  rcases exists_strip text with ⟨front, back, parts, blankFront, blankBack⟩
  calc
    words (strip text) = words (strip text ++ back) := (words_append_blanks blankBack _).symm
    _ = words (front ++ (strip text ++ back)) := (words_blanks_append blankFront _).symm
    _ = words text := by rw [← parts]

/-- Stripping keeps every character that is not a blank. -/
theorem mem_strip_iff {c : Char} (plain : isSpace c = false) (text : Text) :
    c ∈ strip text ↔ c ∈ text := by
  rcases exists_strip text with ⟨front, back, parts, blankFront, blankBack⟩
  have outside : ∀ {blanks : Text}, (∀ c ∈ blanks, isSpace c = true) → c ∉ blanks := by
    intro blanks blank mem
    rw [blank c mem] at plain
    cases plain
  constructor
  · intro mem
    rw [parts]
    exact List.mem_append_right _ (List.mem_append_left _ mem)
  · intro mem
    rw [parts] at mem
    rcases List.mem_append.mp mem with inFront | behind
    · exact absurd inFront (outside blankFront)
    · rcases List.mem_append.mp behind with inside | inBack
      · exact inside
      · exact absurd inBack (outside blankBack)

/-- A text without blanks starts the stripped text when it starts what follows the blanks in
front. -/
theorem prefix_strip_iff {needle : Text} (plain : ∀ c ∈ needle, isSpace c = false) (text : Text) :
    needle <+: strip text ↔ needle <+: text.dropWhile isSpace := by
  have atEnd := dropWhile_eq_strip_append text
  constructor
  · intro starts
    rw [atEnd]
    exact starts.trans (List.prefix_append _ _)
  · intro starts
    rw [atEnd] at starts
    rcases List.prefix_or_prefix_of_prefix starts (List.prefix_append (strip text) _) with
      inside | ⟨more, rfl⟩
    · exact inside
    · rw [List.prefix_append_right_inj] at starts
      cases more with
      | nil => rw [List.append_nil]
      | cons c more =>
          have blank := List.mem_takeWhile_imp (List.mem_reverse.mp (starts.mem List.mem_cons_self))
          rw [plain c (List.mem_append_right _ List.mem_cons_self)] at blank
          cases blank

/-! ## Words inside their text -/

theorem infix_of_mem_splitOnP {p : Char → Bool} {piece text : Text}
    (mem : piece ∈ text.splitOnP p) : piece <:+: text := by
  -- the first piece is even a prefix
  have pieces : ∀ text : Text, ∀ first rest, text.splitOnP p = first :: rest →
      first <+: text ∧ ∀ piece ∈ rest, piece <:+: text := by
    intro text
    induction text with
    | nil =>
        intro first rest parts
        rw [List.splitOnP_nil] at parts
        cases parts
        exact ⟨List.prefix_refl _, List.forall_mem_nil _⟩
    | cons c text inductionHypothesis =>
        intro first rest parts
        rw [List.splitOnP_cons_eq_if_modifyHead] at parts
        rcases List.exists_cons_of_ne_nil (List.splitOnP_ne_nil p text) with ⟨head, tail, shape⟩
        rcases inductionHypothesis head tail shape with ⟨isPrefix, inside⟩
        rw [shape] at parts
        split at parts
        case isTrue =>
          cases parts
          refine ⟨List.nil_prefix, ?_⟩
          intro piece mem
          rcases List.mem_cons.mp mem with rfl | later
          · exact isPrefix.isInfix.trans (List.infix_cons (List.infix_refl _))
          · exact (inside piece later).trans (List.infix_cons (List.infix_refl _))
        case isFalse =>
          cases parts
          refine ⟨List.cons_prefix_cons.mpr ⟨rfl, isPrefix⟩, ?_⟩
          intro piece mem
          exact (inside piece mem).trans (List.infix_cons (List.infix_refl _))
  rcases List.exists_cons_of_ne_nil (List.splitOnP_ne_nil p text) with ⟨head, tail, shape⟩
  rcases pieces text head tail shape with ⟨isPrefix, inside⟩
  rw [shape] at mem
  rcases List.mem_cons.mp mem with rfl | later
  · exact isPrefix.isInfix
  · exact inside piece later

/-- A word stands in its text. -/
theorem contains_of_mem_words {word text : Text} (mem : word ∈ words text) :
    contains word text = true :=
  decide_eq_true (infix_of_mem_splitOnP (List.mem_filter.mp mem).1)

/-! ## Numerals in columns -/

theorem plain_of_digits {base : Nat} {text : Text}
    (digits : ∀ c ∈ text, (digitValue base c).isSome) : ∀ c ∈ text, isSpace c = false :=
  fun c mem => not_isSpace_of_digit (digits c mem)

theorem plain_numeral (width n : Nat) : ∀ c ∈ numeral 16 width n, isSpace c = false :=
  plain_of_digits (digit_of_mem_numeral (by decide) (by decide) width n)

@[simp]
theorem words_numeral (width n : Nat) : words (numeral 16 width n) = [numeral 16 width n] :=
  words_of_plain (numeral_ne_nil 16 width n) (plain_numeral width n)

@[simp]
theorem words_hexNumeral (width n : Nat) : words (hexNumeral width n) = [hexNumeral width n] :=
  words_of_plain (List.cons_ne_nil _ _) (plain_hexNumeral width n)

theorem notMem_numeral {c : Char} (noDigit : digitValue 16 c = none) (width n : Nat) :
    c ∉ numeral 16 width n := by
  intro mem
  have digit := digit_of_mem_numeral (by decide) (le_refl 16) width n c mem
  rw [noDigit] at digit
  cases digit

theorem notMem_hexNumeral {c : Char} (noDigit : digitValue 16 c = none) (notMark : c ≠ 'x')
    (width n : Nat) : c ∉ hexNumeral width n := by
  intro mem
  rcases List.mem_cons.mp mem with rfl | mem
  · cases noDigit
  · rcases List.mem_cons.mp mem with mark | digit
    · exact notMark mark
    · exact notMem_numeral noDigit width n digit

/-! ## Characters of a row -/

section Characters

variable {c : Char} (notBlank : c ≠ ' ')

include notBlank

theorem notMem_replicate_blank (n : Nat) : c ∉ List.replicate n ' ' :=
  fun mem => notBlank (List.eq_of_mem_replicate mem)

theorem notMem_rjust {text : Text} (absent : c ∉ text) (width : Nat) : c ∉ rjust width text := by
  intro mem
  rcases List.mem_append.mp mem with padding | inside
  · exact notMem_replicate_blank notBlank _ padding
  · exact absent inside

theorem notMem_ljust {text : Text} (absent : c ∉ text) (width : Nat) : c ∉ ljust width text := by
  intro mem
  rcases List.mem_append.mp mem with inside | padding
  · exact absent inside
  · exact notMem_replicate_blank notBlank _ padding

theorem notMem_row {fields : List Text} (absent : ∀ field ∈ fields, c ∉ field) :
    c ∉ row fields := by
  intro mem
  rcases List.mem_flatMap.mp mem with ⟨field, isField, inside⟩
  rcases List.mem_cons.mp inside with blank | mem'
  · exact notBlank blank
  · exact absent field isField mem'

end Characters

end Difftest.Text
