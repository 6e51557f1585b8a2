import Difftest.Host.SectionHeaders

/-!
# Agreement of the two parsers

`get_data_sections_info` finds every data section in both layouts.  `_get_section_headers` asks for
a first word that is a bracket, which only indices below ten leave apart, and takes the first of
two lines for one with five words, which only a section without a name has.
-/

namespace Difftest.Host

open Difftest.Text Layout

/-! ## The words of the columns -/

section Columns

theorem plain_decimal (n : Nat) : ∀ c ∈ decimal n, isSpace c = false :=
  plain_of_digits (digit_of_mem_toDigits (by decide) (by decide) n)

@[simp]
theorem words_decimal (n : Nat) : words (decimal n) = [decimal n] :=
  words_of_plain Nat.toDigits_ne_nil (plain_decimal n)

/-- The index of a section below ten leaves its bracket apart. -/
theorem words_bracketed_of_lt {index : Nat} (low : index < 10) :
    ∃ part, words (bracketed index) = [['['], part] ∧ isIndexWord part = true := by
  have columns : ∀ index < 10, ∃ part ∈ words (bracketed index),
      words (bracketed index) = [['['], part] ∧ isIndexWord part = true := by decide
  rcases columns index low with ⟨part, _, shape⟩
  exact ⟨part, shape⟩

/-- The index of a later section does not. -/
theorem words_bracketed_of_le {index : Nat} (high : 10 ≤ index) :
    ∃ part, words (bracketed index) = [part] ∧ part ≠ ['['] ∧ isIndexWord part = true := by
  have long : 2 ≤ (decimal index).length := by
    by_contra short
    have small := (Nat.length_toDigits_le_iff (b := 10) (n := index) (k := 1) (by decide)
      (by decide)).mp (Nat.le_of_lt_succ (Nat.not_le.mp short))
    exact absurd small (Nat.not_lt.mpr high)
  have unpadded : rjust 2 (decimal index) = decimal index := by
    rw [rjust, List.leftpad, Nat.sub_eq_zero_of_le long]
    rfl
  have shape : bracketed index = ' ' :: ('[' :: (decimal index ++ [']'])) := by
    rw [bracketed, unpadded]
    rfl
  have plain : ∀ c ∈ '[' :: (decimal index ++ [']']), isSpace c = false := by
    intro c mem
    rcases List.mem_cons.mp mem with rfl | mem'
    · decide
    · rcases List.mem_append.mp mem' with digit | last
      · exact plain_decimal index c digit
      · rw [List.mem_singleton.mp last]
        decide
  refine ⟨'[' :: (decimal index ++ [']']), ?_, ?_, ?_⟩
  · rw [shape, words_cons (by decide), words_of_plain (List.cons_ne_nil _ _) plain]
  · simp
  · have isLast : [']'] <:+ '[' :: (decimal index ++ [']']) :=
      (List.suffix_append (decimal index) [']']).trans (List.suffix_cons _ _)
    rw [isIndexWord, List.isSuffixOf_iff_suffix.mpr isLast, Bool.or_true]

/-- What stands behind the number of an unknown type. -/
def unknownMark : Text := "<unkn".toList

/-- The words of a type. -/
def typeWords : SectionType → List Text
  | .known typeName => [typeName]
  | .unknown value => [numeral 16 8 value ++ [':'], unknownMark]

variable {header : Section}

theorem words_type (printable : header.Printable) :
    words header.type.text = typeWords header.type := by
  cases isType : header.type with
  | known typeName =>
      rcases printable.type typeName isType with ⟨nonempty, plain⟩
      exact words_of_plain nonempty fun c mem => (plain c mem).1
  | unknown value =>
      have split : numeral 16 8 value ++ ": <unkn".toList =
          (numeral 16 8 value ++ [':']) ++ ' ' :: unknownMark := by
        rw [List.append_assoc]
        rfl
      have plain : ∀ c ∈ numeral 16 8 value ++ [':'], isSpace c = false := by
        intro c mem
        rcases List.mem_append.mp mem with digit | last
        · exact plain_numeral 8 value c digit
        · rw [List.mem_singleton.mp last]
          decide
      have nonempty : numeral 16 8 value ++ [':'] ≠ [] := by simp
      have mark : words unknownMark = [unknownMark] := by decide
      rw [SectionType.text, split, words_append_cons (by decide), words_of_plain nonempty plain,
        mark]
      rfl

/-- A word of a type has no dot in front. -/
theorem dot_notMem_type (printable : header.Printable) :
    ∃ first rest, typeWords header.type = first :: rest ∧ '.' ∉ first := by
  cases isType : header.type with
  | known typeName =>
      refine ⟨typeName, [], rfl, ?_⟩
      intro dot
      exact ((printable.type typeName isType).2 '.' dot).2 rfl
  | unknown value =>
      refine ⟨numeral 16 8 value ++ [':'], [unknownMark], rfl, ?_⟩
      intro dot
      rcases List.mem_append.mp dot with digit | last
      · have isDigit := digit_of_mem_numeral (by decide) (by decide) 8 value '.' digit
        simp [digitValue] at isDigit
      · exact absurd (List.mem_singleton.mp last) (by decide)

/-- A text without blanks, unless it is empty. -/
def present (text : Text) : List Text := [text].filter (· ≠ [])

theorem words_name (printable : header.Printable) :
    words header.sectionName = present header.sectionName :=
  words_of_forall printable.sectionName

theorem words_flags (printable : header.Printable) : words header.flags = present header.flags :=
  words_of_forall fun c mem => (printable.flags c mem).1

theorem present_nil : present [] = [] := rfl

theorem present_of_ne_nil {text : Text} (nonempty : text ≠ []) : present text = [text] := by
  simp [present, nonempty]

variable (index : Nat)

theorem words_wholeLine (printable : header.Printable) (addrWidth : Nat) :
    words (wholeLine index header addrWidth) =
      words (bracketed index) ++ (present header.sectionName ++ (typeWords header.type ++
        (numeral 16 addrWidth header.addr :: numeral 16 6 header.off ::
          numeral 16 6 header.size :: numeral 16 2 header.entSize ::
          (present header.flags ++
            [decimal header.link, decimal header.info, decimal header.align])))) := by
  rw [wholeLine, words_row]
  simp [words_name printable, words_type printable, words_flags printable]

theorem words_firstLine (printable : header.Printable) :
    words (firstLine index header) =
      words (bracketed index) ++ (present header.sectionName ++ (typeWords header.type ++
        [numeral 16 16 header.addr, numeral 16 8 header.off])) := by
  have blank : isSpace ' ' = true := by decide
  rw [firstLine, words_row]
  simp [words_name printable, words_type printable, words_cons blank]

theorem words_secondLine (printable : header.Printable) :
    words (secondLine header) =
      numeral 16 16 header.size :: numeral 16 16 header.entSize ::
        (present header.flags ++
          [decimal header.link, decimal header.info, decimal header.align]) := by
  have blank : isSpace ' ' = true := by decide
  have two : ∀ text, words ("  ".toList ++ text) = words text :=
    fun text => words_blanks_append (by decide) text
  have four : ∀ text, words ("    ".toList ++ text) = words text :=
    fun text => words_blanks_append (by decide) text
  have five : ∀ text, words ("     ".toList ++ text) = words text :=
    fun text => words_blanks_append (by decide) text
  have six : ∀ text, words ("      ".toList ++ text) = words text :=
    fun text => words_blanks_append (by decide) text
  rw [secondLine, words_row]
  simp only [List.flatMap_cons, List.flatMap_nil, two, four, five, six, words_cons blank,
    words_rjust, words_numeral, words_decimal, words_flags printable, List.append_nil,
    List.nil_append, List.cons_append]

end Columns

/-! ## `_get_section_headers` on a table -/

/-- A loaded section with a known type. -/
def Section.loaded (header : Section) : Bool :=
  match header.type with
  | .known _ => decide ('A' ∈ header.flags ∧ 0 < header.size)
  | .unknown _ => false

/-- The address and the size of a section. -/
def Section.extent (header : Section) : Int × Int := (header.addr, header.size)

section Headers

variable {header : Section} {rest : List Text} {sections : Dict Text (Int × Int)}
  {sectionName : Text}

theorem get?_storeSection_of_ne {other : Text} (different : sectionName ≠ other)
    (addrStr sizeStr flags : Text) :
    (storeSection sections other addrStr sizeStr flags).get? sectionName =
      sections.get? sectionName := by
  unfold storeSection
  split
  · split
    · exact Dict.get?_set_of_ne sections different _
    · rfl
  · rfl

theorem storeSection_numeral {flags found : Text} (same : 'A' ∈ found ↔ 'A' ∈ flags)
    (addrWidth sizeWidth addr size : Nat) :
    storeSection sections sectionName (numeral 16 addrWidth addr) (numeral 16 sizeWidth size)
        found =
      if 'A' ∈ flags ∧ 0 < size then sections.set sectionName (addr, size) else sections := by
  rw [storeSection, parseInt_numeral (by decide) (by decide),
    parseInt_numeral (by decide) (by decide)]
  simp only [Int.natCast_pos, same]

/-- The number of an unknown type is followed by a word that is no number. -/
theorem storeSection_unknown (sizeStr flags : Text) :
    storeSection sections sectionName unknownMark sizeStr flags = sections := by
  have unreadable : parseInt 16 unknownMark = none := by rfl
  rw [storeSection, unreadable]

theorem exists_digitChar {base : Nat} (one_lt : 1 < base) (n : Nat) :
    ∀ c ∈ Nat.toDigits base n, ∃ d < base, c = Nat.digitChar d := by
  induction n using Nat.strongRecOn with
  | ind n inductionHypothesis =>
      intro c mem
      by_cases small : n < base
      · rw [Nat.toDigits_of_lt_base small, List.mem_singleton] at mem
        exact ⟨n, small, mem⟩
      · have large := Nat.not_lt.mp small
        rw [Nat.toDigits_of_base_le one_lt large] at mem
        rcases List.mem_append.mp mem with front | last
        · exact inductionHypothesis _
            (Nat.div_lt_self (Nat.zero_lt_of_lt (one_lt.trans_le large)) one_lt) c front
        · exact ⟨n % base, Nat.mod_lt n (Nat.zero_lt_of_lt one_lt), List.mem_singleton.mp last⟩

/-- What the first parser takes for flags. -/
def looksLikeFlags (part : Text) : Bool := decide ('A' ∈ part ∨ 'X' ∈ part ∨ 'W' ∈ part)

theorem not_looksLikeFlags {base : Nat} (base_le : base ≤ 16) {part : Text}
    (digits : ∀ c ∈ part, ∃ d < base, c = Nat.digitChar d) : looksLikeFlags part = false := by
  have lower : ∀ d < 16, Nat.digitChar d ≠ 'A' ∧ Nat.digitChar d ≠ 'X' ∧
      Nat.digitChar d ≠ 'W' := by decide
  have other : ∀ c ∈ part, c ≠ 'A' ∧ c ≠ 'X' ∧ c ≠ 'W' := by
    intro c mem
    rcases digits c mem with ⟨d, small, rfl⟩
    exact lower d (small.trans_le base_le)
  apply decide_eq_false
  rintro (mem | mem | mem)
  · exact (other _ mem).1 rfl
  · exact (other _ mem).2.1 rfl
  · exact (other _ mem).2.2 rfl

theorem not_looksLikeFlags_numeral (width n : Nat) :
    looksLikeFlags (numeral 16 width n) = false := by
  apply not_looksLikeFlags (le_refl 16)
  intro c mem
  rcases List.mem_append.mp mem with padding | digit
  · exact ⟨0, by decide, List.eq_of_mem_replicate padding⟩
  · exact exists_digitChar (by decide) n c digit

theorem not_looksLikeFlags_decimal (n : Nat) : looksLikeFlags (decimal n) = false :=
  not_looksLikeFlags (by decide : 10 ≤ 16) (exists_digitChar (by decide) n)

/-- The flags are found among the words from the eighth on, if there are any of interest. -/
theorem mem_flagsOf_iff (front : List Text) (length : front.length = 7) (entSize flags : Text)
    (plain : looksLikeFlags entSize = false) (link info align : Nat) :
    'A' ∈ flagsOf (front ++ entSize ::
        (present flags ++ [decimal link, decimal info, decimal align])) ↔ 'A' ∈ flags := by
  have few : (entSize :: (present flags ++ [decimal link, decimal info, decimal align])).length ≤
      5 := by
    have atMost : (present flags).length ≤ 1 := List.length_filter_le _ _
    simp only [List.length_cons, List.length_append, List.length_nil]
    omega
  have cut : ((front ++ entSize ::
        (present flags ++ [decimal link, decimal info, decimal align])).take 12).drop 7 =
      entSize :: (present flags ++ [decimal link, decimal info, decimal align]) := by
    rw [List.take_of_length_le, List.drop_left' length]
    rw [List.length_append, length]
    omega
  have found : flagsOf (front ++ entSize ::
      (present flags ++ [decimal link, decimal info, decimal align])) =
      if looksLikeFlags flags then flags else [] := by
    rw [flagsOf, cut]
    change (((entSize :: _).find? looksLikeFlags).getD []) = _
    rw [List.find?_cons_of_neg (by simp [plain]), List.find?_append]
    have numbers : [decimal link, decimal info, decimal align].find? looksLikeFlags = none := by
      simp [not_looksLikeFlags_decimal]
    rw [numbers]
    by_cases empty : flags = []
    · rw [empty]
      rfl
    · rw [present_of_ne_nil empty, List.find?_singleton]
      cases looksLikeFlags flags <;> rfl
  rw [found]
  split
  case isTrue => exact Iff.rfl
  case isFalse other =>
    constructor
    · exact fun mem => absurd mem List.not_mem_nil
    · intro mem
      exact absurd (decide_eq_true (Or.inl mem)) other

/-! ### The lines that the loop passes over -/

theorem headerLoop_unmarked {line : Text}
    (unmarked : isSkipped line = true ∨ wordAt (words line) 0 ≠ ['[']) :
    headerLoop (line :: rest) sections = headerLoop rest sections := by
  conv_lhs => unfold headerLoop
  by_cases skipped : isSkipped line = true
  · exact if_pos skipped
  · have notBracket : ¬ (2 ≤ (words line).length ∧ wordAt (words line) 0 = ['[']) :=
      fun marked => unmarked.elim skipped fun other => other marked.2
    exact (if_neg skipped).trans (if_neg notBracket)

theorem headerLoop_unmarked_append {lines : List Text}
    (unmarked : ∀ line ∈ lines, isSkipped line = true ∨ wordAt (words line) 0 ≠ ['[']) :
    headerLoop (lines ++ rest) sections = headerLoop rest sections := by
  induction lines with
  | nil => rfl
  | cons line lines inductionHypothesis =>
      rw [List.cons_append, headerLoop_unmarked (unmarked line List.mem_cons_self)]
      exact inductionHypothesis fun line' mem => unmarked line' (List.mem_cons_of_mem _ mem)

/-! ### The lines of a section -/

theorem not_isSkipped {fields : List Text} (nonempty : words (row fields) ≠ []) :
    isSkipped (row fields) = false := by
  have stays : strip (row fields) ≠ [] := by
    intro empty
    apply nonempty
    rw [← words_strip, empty, words_nil]
  cases fields with
  | nil => exact absurd words_nil nonempty
  | cons field fields =>
      unfold isSkipped
      rw [decide_eq_false stays]
      rfl

variable {fields parts : List Text}

/-- A line that starts with a bracket and has at least seven words. -/
theorem headerLoop_seven (isParts : words (row fields) = parts) (bracket : wordAt parts 0 = ['['])
    (many : 7 ≤ parts.length) :
    headerLoop (row fields :: rest) sections =
      headerLoop rest (oneLineSection sections parts) := by
  have nonempty : words (row fields) ≠ [] := by
    rintro empty
    rw [← isParts, empty] at many
    exact absurd many (by decide)
  conv_lhs => unfold headerLoop
  simp only [not_isSkipped nonempty, isParts]
  rw [if_neg Bool.false_ne_true, if_pos ⟨(by decide : 2 ≤ 7).trans many, bracket⟩,
    if_neg (by omega), if_pos many]

/-- A line that starts with a bracket and has six words. -/
theorem headerLoop_six (isParts : words (row fields) = parts) (six : parts.length = 6) :
    headerLoop (row fields :: rest) sections = headerLoop rest sections := by
  conv_lhs => unfold headerLoop
  simp only [isParts]
  split
  · rfl
  · split
    · rw [if_neg (by omega), if_neg (by omega)]
    · rfl

/-- A line that starts with a bracket and has five words is read with the next one. -/
theorem headerLoop_five (isParts : words (row fields) = parts) (bracket : wordAt parts 0 = ['['])
    (five : parts.length = 5) (next : Text) :
    headerLoop (row fields :: next :: rest) sections =
      headerLoop rest (twoLineSection sections parts (words next)) := by
  have nonempty : words (row fields) ≠ [] := by
    rintro empty
    rw [← isParts, empty] at five
    exact absurd five (by decide)
  conv_lhs => unfold headerLoop
  simp only [not_isSkipped nonempty, isParts]
  rw [if_neg Bool.false_ne_true, if_pos ⟨by omega, bracket⟩, if_pos five]

/-- Whether the first parser keeps a section under a name. -/
def kept (layout : Layout) (index : Nat) (header : Section) (sectionName : Text) : Prop :=
  layout ≠ .twoLine ∧ index < 10 ∧ header.sectionName = sectionName ∧ header.loaded = true

instance (layout : Layout) (index : Nat) (header : Section) (sectionName : Text) :
    Decidable (kept layout index header sectionName) :=
  inferInstanceAs (Decidable (_ ∧ _))

/-- The words of a whole line behind the index. -/
def wholeWords (header : Section) (addrWidth : Nat) : List Text :=
  present header.sectionName ++ (typeWords header.type ++
    (numeral 16 addrWidth header.addr :: numeral 16 6 header.off ::
      numeral 16 6 header.size :: numeral 16 2 header.entSize ::
      (present header.flags ++
        [decimal header.link, decimal header.info, decimal header.align])))

theorem length_wholeWords (addrWidth : Nat) : 5 ≤ (wholeWords header addrWidth).length := by
  simp only [wholeWords, List.length_append, List.length_cons]
  omega

/-- A whole line that starts with a bracket keeps the section when it is loaded. -/
theorem get?_oneLineSection (printable : header.Printable) (dotted : '.' ∈ sectionName)
    (part : Text) (addrWidth : Nat) :
    (oneLineSection sections (['['] :: part :: wholeWords header addrWidth)).get? sectionName =
      if header.sectionName = sectionName ∧ header.loaded = true then some header.extent
      else sections.get? sectionName := by
  unfold oneLineSection wholeWords
  by_cases empty : header.sectionName = []
  · rcases dot_notMem_type printable with ⟨first, more, shape, plain⟩
    have different : sectionName ≠ first := by
      rintro rfl
      exact plain dotted
    have other : ¬ (header.sectionName = sectionName ∧ header.loaded = true) := by
      rintro ⟨same, _⟩
      rw [← same, empty] at dotted
      cases dotted
    rw [empty, present_nil, shape, ← empty, if_neg other]
    exact get?_storeSection_of_ne different _ _ _
  · rw [present_of_ne_nil empty]
    cases isType : header.type with
    | unknown value =>
        have other : ¬ (header.sectionName = sectionName ∧ header.loaded = true) := by
          simp [Section.loaded, isType]
        rw [if_neg other]
        exact congrArg (Dict.get? · sectionName) (storeSection_unknown _ _)
    | known typeName =>
        have isLoaded : header.loaded = true ↔ 'A' ∈ header.flags ∧ 0 < header.size := by
          rw [Section.loaded, isType]
          exact decide_eq_true_iff
        have found := mem_flagsOf_iff
          [['['], part, header.sectionName, typeName, numeral 16 addrWidth header.addr,
            numeral 16 6 header.off, numeral 16 6 header.size] rfl
          (numeral 16 2 header.entSize) header.flags (not_looksLikeFlags_numeral 2 _)
          header.link header.info header.align
        have stored := @storeSection_numeral sections header.sectionName _ _ found addrWidth 6
          header.addr header.size
        refine (congrArg (Dict.get? · sectionName) stored).trans ?_
        by_cases isKept : 'A' ∈ header.flags ∧ 0 < header.size
        · rw [if_pos isKept]
          by_cases same : header.sectionName = sectionName
          · rw [if_pos ⟨same, isLoaded.mpr isKept⟩, ← same]
            exact Dict.get?_set_self sections _ _
          · rw [if_neg fun both => same both.1]
            exact Dict.get?_set_of_ne sections (Ne.symm same) _
        · rw [if_neg isKept, if_neg fun both => isKept (isLoaded.mp both.2)]

/-- The line of a section in the layout with one line. -/
theorem get?_wholeLine (printable : header.Printable) (dotted : '.' ∈ sectionName)
    (index addrWidth : Nat) :
    ∃ after, headerLoop (wholeLine index header addrWidth :: rest) sections =
        headerLoop rest after ∧
      after.get? sectionName =
        if kept (.oneLine addrWidth) index header sectionName then some header.extent
        else sections.get? sectionName := by
  have isParts := words_wholeLine index printable addrWidth
  change _ = words (bracketed index) ++ wholeWords header addrWidth at isParts
  by_cases low : index < 10
  · rcases words_bracketed_of_lt low with ⟨part, bracket, _⟩
    rw [bracket] at isParts
    refine ⟨_, headerLoop_seven isParts rfl (Nat.add_le_add_right (length_wholeWords _) 2), ?_⟩
    rw [List.cons_append, List.singleton_append, get?_oneLineSection printable dotted]
    simp [kept, low]
  · rcases words_bracketed_of_le (Nat.not_lt.mp low) with ⟨part, bracket, other, _⟩
    rw [bracket] at isParts
    refine ⟨sections, headerLoop_unmarked (Or.inr ?_), ?_⟩
    · rw [isParts]
      exact other
    · rw [if_neg fun isKept => low isKept.2.1]

/-- The two lines of a section in the other layout change nothing for a name with a dot. -/
theorem get?_twoLines (printable : header.Printable) (dotted : '.' ∈ sectionName)
    (index : Nat) :
    ∃ after, headerLoop (firstLine index header :: secondLine header :: rest) sections =
        headerLoop rest after ∧ after.get? sectionName = sections.get? sectionName := by
  have isParts := words_firstLine index printable
  have second := words_secondLine printable
  have passed : ∀ sections : Dict Text (Int × Int),
      headerLoop (secondLine header :: rest) sections = headerLoop rest sections := by
    intro sections
    apply headerLoop_unmarked
    right
    rw [second]
    intro isBracket
    have sameText : numeral 16 16 header.size = ['['] := isBracket
    have mem : '[' ∈ numeral 16 16 header.size := by
      rw [sameText]
      exact List.mem_cons_self
    have digit := digit_of_mem_numeral (by decide) (le_refl 16) 16 header.size '[' mem
    exact absurd digit (by decide)
  by_cases low : index < 10
  · rcases words_bracketed_of_lt low with ⟨part, bracket, _⟩
    rw [bracket] at isParts
    rcases dot_notMem_type printable with ⟨first, more, shape, plain⟩
    have different : sectionName ≠ first := by
      rintro rfl
      exact plain dotted
    by_cases empty : header.sectionName = []
    · rw [empty, present_nil] at isParts
      cases isType : header.type with
      | known typeName =>
          rw [isType] at isParts shape
          cases shape
          refine ⟨_, headerLoop_five isParts rfl rfl _, ?_⟩
          unfold twoLineSection
          split
          · exact get?_storeSection_of_ne different _ _ _
          · rfl
      | unknown value =>
          rw [isType] at isParts
          refine ⟨sections, ?_, rfl⟩
          rw [firstLine, headerLoop_six isParts rfl, passed]
    · rw [present_of_ne_nil empty] at isParts
      cases isType : header.type with
      | known typeName =>
          rw [isType] at isParts
          refine ⟨sections, ?_, rfl⟩
          rw [firstLine, headerLoop_six isParts rfl, passed]
      | unknown value =>
          rw [isType] at isParts
          refine ⟨sections, ?_, rfl⟩
          rw [firstLine, headerLoop_seven isParts rfl (le_refl 7), passed]
          exact congrArg (headerLoop rest) (storeSection_unknown _ _)
  · rcases words_bracketed_of_le (Nat.not_lt.mp low) with ⟨part, bracket, other, _⟩
    rw [bracket] at isParts
    refine ⟨sections, ?_, rfl⟩
    rw [headerLoop_unmarked (Or.inr ?_), passed]
    rw [isParts]
    exact other

/-- What the first parser has for a name after a list of sections, the first of which has the
given index. -/
def lastKept (layout : Layout) (sectionName : Text) :
    Nat → List Section → Option (Int × Int) → Option (Int × Int)
  | _, [], before => before
  | index, header :: table, before =>
      lastKept layout sectionName (index + 1) table
        (if kept layout index header sectionName then some header.extent else before)

theorem get?_tableLines (layout : Layout) {table : List Section}
    (printable : ∀ header ∈ table, header.Printable) (dotted : '.' ∈ sectionName) (index : Nat) :
    ∃ after, headerLoop (layout.tableLines index table ++ rest) sections = headerLoop rest after ∧
      after.get? sectionName =
        lastKept layout sectionName index table (sections.get? sectionName) := by
  induction table generalizing index sections with
  | nil => exact ⟨sections, rfl, rfl⟩
  | cons header table inductionHypothesis =>
      have isPrintable := printable header List.mem_cons_self
      have later := fun sections => @inductionHypothesis sections
        (fun other mem => printable other (List.mem_cons_of_mem _ mem)) (index + 1)
      have first : ∃ middle, headerLoop (layout.sectionLines index header ++
            (layout.tableLines (index + 1) table ++ rest)) sections =
          headerLoop (layout.tableLines (index + 1) table ++ rest) middle ∧
          middle.get? sectionName = if kept layout index header sectionName then
            some header.extent else sections.get? sectionName := by
        cases layout with
        | oneLine addrWidth => exact get?_wholeLine isPrintable dotted index addrWidth
        | twoLine =>
            rcases get?_twoLines isPrintable dotted index with ⟨middle, passed, same⟩
            refine ⟨middle, passed, ?_⟩
            rw [same, if_neg fun isKept => isKept.1 rfl]
      rcases first with ⟨middle, passed, found⟩
      rcases later middle with ⟨after, passed', found'⟩
      refine ⟨after, ?_, ?_⟩
      · rw [tableLines, List.append_assoc, passed, passed']
      · rw [found', found, lastKept]

/-- What the first parser has for a name with a dot. -/
theorem get?_getSectionHeaders (layout : Layout) {table : List Section}
    (printable : ∀ header ∈ table, header.Printable) (dotted : '.' ∈ sectionName)
    (count start : Nat) :
    (headerLoop (layout.head count start ++ layout.tableLines 0 table ++ foot) .empty).get?
        sectionName = lastKept layout sectionName 0 table none := by
  have above : ∀ line ∈ layout.head count start,
      isSkipped line = true ∨ wordAt (words line) 0 ≠ ['['] := by
    intro line mem
    rcases List.mem_append.mp mem with top | isColumns
    · left
      rcases List.mem_cons.mp top with rfl | more
      · have isPrefix : "There are".toList.isPrefixOf ("There are ".toList ++ decimal count ++
            " section headers, starting at offset 0x".toList ++ Nat.toDigits 16 start ++
              ":".toList) = true := rfl
        rw [isSkipped, isPrefix]
        simp
      · have others : ∀ line ∈ [[], "Section Headers:".toList], isSkipped line = true := by
          decide +kernel
        exact others line more
    · right
      cases layout with
      | oneLine addrWidth =>
          have shape : ∀ line ∈ columns (.oneLine 0), wordAt (words line) 0 ≠ ['['] := by
            decide
          exact shape line isColumns
      | twoLine =>
          have shape : ∀ line ∈ columns .twoLine, wordAt (words line) 0 ≠ ['['] := by
            decide
          exact shape line isColumns
  have below : ∀ line ∈ foot, isSkipped line = true ∨ wordAt (words line) 0 ≠ ['['] := by
    decide
  rw [List.append_assoc, headerLoop_unmarked_append above]
  rcases get?_tableLines layout printable dotted 0 with ⟨after, passed, found⟩
  have ended : headerLoop foot after = after := by
    have none_left := @headerLoop_unmarked_append [] after foot below
    rw [List.append_nil] at none_left
    exact none_left
  rw [passed, ended, found]
  rfl

/-- The last loaded section of a name among the first ten. -/
def lastLoaded (sectionName : Text) (table : List Section) : Option (Int × Int) :=
  (((table.take 10).filter fun header =>
    decide (header.sectionName = sectionName ∧ header.loaded = true)).getLast?).map Section.extent

theorem lastKept_twoLine (sectionName : Text) (index : Nat) (table : List Section)
    (before : Option (Int × Int)) :
    lastKept .twoLine sectionName index table before = before := by
  induction table generalizing index with
  | nil => rfl
  | cons header table inductionHypothesis =>
      rw [lastKept, if_neg fun isKept => isKept.1 rfl, inductionHypothesis]

theorem lastKept_oneLine (addrWidth : Nat) (sectionName : Text) (index : Nat)
    (table : List Section) (before : Option (Int × Int)) :
    lastKept (.oneLine addrWidth) sectionName index table before =
      ((((table.take (10 - index)).filter fun header =>
        decide (header.sectionName = sectionName ∧ header.loaded = true)).getLast?).map
          Section.extent).or before := by
  induction table generalizing index before with
  | nil => simp [lastKept]
  | cons header table inductionHypothesis =>
      rw [lastKept, inductionHypothesis]
      by_cases low : index < 10
      · have next : 10 - index = (10 - (index + 1)) + 1 := by omega
        rw [next, List.take_succ_cons, List.filter_cons]
        by_cases here : header.sectionName = sectionName ∧ header.loaded = true
        · have isKept : kept (.oneLine addrWidth) index header sectionName :=
            ⟨Layout.noConfusion, low, here⟩
          rw [if_pos isKept, if_pos (decide_eq_true here), List.getLast?_cons]
          cases ((table.take (10 - (index + 1))).filter fun header =>
            decide (header.sectionName = sectionName ∧ header.loaded = true)).getLast? <;> rfl
        · rw [if_neg fun isKept => here isKept.2.2, if_neg (by simpa using here)]
      · have none_left : 10 - index = 0 := by omega
        have none_left' : 10 - (index + 1) = 0 := by omega
        rw [if_neg fun isKept => low isKept.2.1, none_left, none_left']
        rfl

end Headers

/-! ## `get_data_sections_info` on a table -/

section DataSections

variable {header : Section} {mergedLines : List Text}

/-- A line that starts an entry: it is not joined to the one before. -/
def Starts (line : Text) : Prop :=
  strip line ≠ [] ∧ (line.head?.any isSpace = true → '[' ∈ strip line)

theorem mergeLine_of_starts {line : Text} (starts : Starts line) :
    mergeLine mergedLines line = mergedLines ++ [strip line] := by
  unfold mergeLine
  simp only [if_neg starts.1]
  exact if_neg fun continues => continues.2.1 (starts.2 continues.1)

theorem mergeLine_of_continues {line : Text} (blank : line.head?.any isSpace = true)
    (nonempty : strip line ≠ []) (noBracket : '[' ∉ strip line) (last : Text) :
    mergeLine (mergedLines ++ [last]) line = mergedLines ++ [last ++ ' ' :: strip line] := by
  unfold mergeLine
  simp [nonempty, blank, noBracket]

/-- Only the last entry can change. -/
theorem dropLast_prefix_mergeLine (line : Text) :
    mergedLines.dropLast <+: (mergeLine mergedLines line).dropLast := by
  unfold mergeLine
  simp only
  split
  · exact List.prefix_refl _
  · split
    · rw [List.dropLast_concat]
    · rw [List.dropLast_concat]
      exact List.dropLast_prefix _

theorem dropLast_prefix_foldl (lines : List Text) :
    mergedLines.dropLast <+: lines.foldl mergeLine mergedLines := by
  induction lines generalizing mergedLines with
  | nil => exact List.dropLast_prefix _
  | cons line rest inductionHypothesis =>
      exact (dropLast_prefix_mergeLine line).trans inductionHypothesis

/-- An entry stays when the next line starts another one. -/
theorem mem_foldl_mergeLine {entry line : Text} (starts : Starts line) (rest : List Text) :
    entry ∈ (line :: rest).foldl mergeLine (mergedLines ++ [entry]) := by
  rw [List.foldl_cons, mergeLine_of_starts starts]
  have stays := @dropLast_prefix_foldl ((mergedLines ++ [entry]) ++ [strip line]) rest
  rw [List.dropLast_concat] at stays
  exact stays.subset (List.mem_append_right _ List.mem_cons_self)

theorem starts_row {fields : List Text} (bracket : '[' ∈ row fields) : Starts (row fields) := by
  have inside : '[' ∈ strip (row fields) := (mem_strip_iff (by decide) _).mpr bracket
  exact ⟨List.ne_nil_of_mem inside, fun _ => inside⟩

/-- The sections of the agreement: allocated, not empty, of type `PROGBITS`, and a data section
by its name. -/
structure Section.Wanted (header : Section) : Prop where
  type : header.type = .known progbits
  sectionName : header.sectionName ∈ dataPrefixes
  allocated : 'A' ∈ header.flags
  nonempty : 0 < header.size

theorem idxOf?_append_cons {front : List Text} {part : Text} (new : part ∉ front)
    (back : List Text) : (front ++ part :: back).idxOf? part = some front.length := by
  induction front with
  | nil => simp [List.idxOf?_cons]
  | cons first front inductionHypothesis =>
      rcases List.ne_and_not_mem_of_not_mem_cons new with ⟨different, later⟩
      rw [List.cons_append, List.idxOf?_cons, inductionHypothesis later]
      simp [Ne.symm different]

/-- An entry with the words of a wanted section gives this section. -/
theorem dataSection_of_words {line : Text} {front more : List Text} {addrWidth sizeWidth : Nat}
    {off : Text} (wanted : header.Wanted) (nonempty : front ≠ [])
    (indices : ∀ part ∈ front, isIndexWord part = true)
    (isParts : words line = front ++ header.sectionName :: progbits ::
      numeral 16 addrWidth header.addr :: off :: numeral 16 sizeWidth header.size :: more) :
    dataSection line = some (header.sectionName, header.extent) := by
  have notIndex : ∀ dataName ∈ dataPrefixes, isIndexWord dataName = false ∧
      dataPrefixes.any (·.isPrefixOf dataName) = true ∧ dataName ≠ progbits := by decide
  rcases notIndex header.sectionName wanted.sectionName with ⟨isName, isData, different⟩
  have found : contains progbits line = true := by
    apply contains_of_mem_words
    rw [isParts]
    exact List.mem_append_right _ (List.mem_cons_of_mem _ List.mem_cons_self)
  have name_left : (words line).dropWhile isIndexWord = header.sectionName :: progbits ::
      numeral 16 addrWidth header.addr :: off :: numeral 16 sizeWidth header.size :: more := by
    rw [isParts, List.dropWhile_append_of_pos indices,
      List.dropWhile_cons_of_neg (by simp [isName])]
  have regrouped : words line = (front ++ [header.sectionName]) ++ progbits ::
      numeral 16 addrWidth header.addr :: off :: numeral 16 sizeWidth header.size :: more := by
    rw [isParts, List.append_assoc]
    rfl
  have index : (words line).idxOf? progbits = some (front.length + 1) := by
    have new : progbits ∉ front ++ [header.sectionName] := by
      intro mem
      rcases List.mem_append.mp mem with isIndex | isName'
      · exact absurd (indices progbits isIndex) (by decide)
      · exact different (List.mem_singleton.mp isName').symm
    rw [regrouped, idxOf?_append_cons new, List.length_append]
    rfl
  have addrWord : wordAt (words line) (front.length + 1 + 1) =
      numeral 16 addrWidth header.addr := by
    rw [wordAt, isParts, List.getD_eq_getElem?_getD, List.getElem?_append_right (by omega),
      show front.length + 1 + 1 - front.length = 2 by omega]
    rfl
  have sizeWord : wordAt (words line) (front.length + 1 + 3) =
      numeral 16 sizeWidth header.size := by
    rw [wordAt, isParts, List.getD_eq_getElem?_getD, List.getElem?_append_right (by omega),
      show front.length + 1 + 3 - front.length = 4 by omega]
    rfl
  have length : (words line).length = front.length + (more.length + 5) := by
    rw [isParts, List.length_append]
    rfl
  have positive := List.length_pos_of_ne_nil nonempty
  unfold dataSection
  simp only [name_left, index, addrWord, sizeWord]
  rw [if_pos ⟨found, by omega⟩, if_pos ⟨isData, by omega, by omega⟩,
    parseInt_numeral (by decide) (by decide), parseInt_numeral (by decide) (by decide)]
  exact if_pos (Int.natCast_pos.mpr wanted.nonempty)

theorem bracket_mem_row {index : Nat} {fields : List Text} :
    '[' ∈ row (bracketed index :: fields) :=
  List.mem_cons_of_mem _ (List.mem_cons_of_mem _ List.mem_cons_self)

theorem tableLines_append (layout : Layout) (index : Nat) (front back : List Section) :
    layout.tableLines index (front ++ back) =
      layout.tableLines index front ++ layout.tableLines (index + front.length) back := by
  induction front generalizing index with
  | nil => rfl
  | cons header front inductionHypothesis =>
      rw [List.cons_append, tableLines, tableLines, inductionHypothesis, List.append_assoc,
        List.length_cons, Nat.add_assoc, Nat.add_comm 1]

/-- The line behind a section starts an entry. -/
theorem starts_behind (layout : Layout) (index : Nat) (back : List Section) :
    ∃ line rest, layout.tableLines index back ++ foot = line :: rest ∧ Starts line := by
  cases back with
  | nil =>
      refine ⟨_, _, rfl, ?_⟩
      constructor <;> decide
  | cons header back =>
      cases layout with
      | oneLine addrWidth => exact ⟨_, _, rfl, starts_row bracket_mem_row⟩
      | twoLine => exact ⟨_, _, rfl, starts_row bracket_mem_row⟩

/-! ### Characters of the lines -/

section Characters

variable {c : Char} (notBlank : c ≠ ' ')

include notBlank

omit notBlank in
theorem notMem_decimal (noDigit : digitValue 16 c = none) (n : Nat) : c ∉ decimal n := by
  intro mem
  rcases exists_digitChar (by decide) n c mem with ⟨d, small, rfl⟩
  rw [digitValue_digitChar (le_refl 16) (small.trans (by decide))] at noDigit
  cases noDigit

theorem notMem_secondLine (noDigit : digitValue 16 c = none) (flags : c ∉ header.flags) :
    c ∉ secondLine header := by
  have behind : ∀ {blanks text : Text}, (∀ c ∈ blanks, c = ' ') → c ∉ text →
      c ∉ blanks ++ text := by
    intro blanks text blank absent mem
    rcases List.mem_append.mp mem with padding | inside
    · exact notBlank (blank c padding)
    · exact absent inside
  have one : ∀ c ∈ [' '], c = ' ' := by decide
  apply notMem_row notBlank
  intro field isField
  simp only [List.mem_cons, List.not_mem_nil, or_false] at isField
  rcases isField with rfl | rfl | rfl | rfl | rfl | rfl
  · exact behind (by decide) (notMem_numeral noDigit 16 _)
  · exact behind one (notMem_numeral noDigit 16 _)
  · exact notMem_rjust notBlank flags 3
  · exact behind (by decide) (notMem_rjust notBlank (notMem_decimal noDigit _) 2)
  · exact behind (by decide) (notMem_rjust notBlank (notMem_decimal noDigit _) 3)
  · exact behind (by decide) (notMem_decimal noDigit _)

end Characters

/-- The second line of a section is joined to the first. -/
theorem secondLine_continues (printable : header.Printable) :
    (secondLine header).head?.any isSpace = true ∧ strip (secondLine header) ≠ [] ∧
      '[' ∉ strip (secondLine header) := by
  have inside : numeral 16 16 header.size ≠ [] ∧ words (secondLine header) ≠ [] := by
    refine ⟨numeral_ne_nil _ _ _, ?_⟩
    rw [words_secondLine printable]
    exact List.cons_ne_nil _ _
  refine ⟨rfl, ?_, ?_⟩
  · intro empty
    apply inside.2
    rw [← words_strip, empty, words_nil]
  · rw [mem_strip_iff (by decide)]
    exact notMem_secondLine (by decide) (by decide)
      fun mem => (printable.flags '[' mem).2 rfl

/-- The entry of a section, with the words of its line or lines. -/
theorem exists_entry (printable : header.Printable) (layout : Layout) (index : Nat)
    (mergedLines : List Text) :
    ∃ entry addrWidth sizeWidth off more,
      (layout.sectionLines index header).foldl mergeLine mergedLines = mergedLines ++ [entry] ∧
      words entry = words (bracketed index) ++ (present header.sectionName ++
        (typeWords header.type ++ (numeral 16 addrWidth header.addr :: off ::
          numeral 16 sizeWidth header.size :: more))) := by
  cases layout with
  | oneLine addrWidth =>
      exact ⟨_, _, _, _, _, mergeLine_of_starts (starts_row bracket_mem_row),
        (words_strip _).trans (words_wholeLine index printable addrWidth)⟩
  | twoLine =>
      rcases secondLine_continues printable with ⟨blank, nonempty, noBracket⟩
      refine ⟨strip (firstLine index header) ++ ' ' :: strip (secondLine header), 16, 16,
        numeral 16 8 header.off, numeral 16 16 header.entSize :: (present header.flags ++
          [decimal header.link, decimal header.info, decimal header.align]), ?_, ?_⟩
      · have joined : mergeLine mergedLines (firstLine index header) =
            mergedLines ++ [strip (firstLine index header)] :=
          mergeLine_of_starts (starts_row bracket_mem_row)
        rw [Layout.sectionLines, List.foldl_cons, joined]
        exact mergeLine_of_continues blank nonempty noBracket _
      · rw [words_append_cons (by decide), words_strip, words_strip,
          words_firstLine index printable, words_secondLine printable]
        simp only [List.append_assoc, List.cons_append, List.nil_append]

theorem bracketed_indices (index : Nat) :
    words (bracketed index) ≠ [] ∧ ∀ part ∈ words (bracketed index), isIndexWord part = true := by
  by_cases low : index < 10
  · rcases words_bracketed_of_lt low with ⟨part, bracket, isIndex⟩
    rw [bracket]
    refine ⟨List.cons_ne_nil _ _, ?_⟩
    intro part' mem
    rcases List.mem_cons.mp mem with rfl | last
    · decide
    · rw [List.mem_singleton.mp last]
      exact isIndex
  · rcases words_bracketed_of_le (Nat.not_lt.mp low) with ⟨part, bracket, _, isIndex⟩
    rw [bracket]
    refine ⟨List.cons_ne_nil _ _, ?_⟩
    intro part' last
    rw [List.mem_singleton.mp last]
    exact isIndex

/-- The second parser finds every wanted section in both layouts. -/
theorem mem_dataSections (layout : Layout) {table : List Section}
    (printable : ∀ header ∈ table, header.Printable) (mem : header ∈ table)
    (wanted : header.Wanted) (above : List Text) :
    (header.sectionName, header.extent) ∈
      ((above ++ layout.tableLines 0 table ++ foot).foldl mergeLine []).filterMap dataSection := by
  rcases List.append_of_mem mem with ⟨front, back, rfl⟩
  have isPrintable := printable header mem
  rcases starts_behind layout (0 + front.length + 1) back with ⟨line, rest, behind, starts⟩
  rcases exists_entry isPrintable layout (0 + front.length)
    ((above ++ layout.tableLines 0 front).foldl mergeLine []) with
    ⟨entry, addrWidth, sizeWidth, off, more, merged, isWords⟩
  have nonempty : header.sectionName ≠ [] := by
    have named : ∀ dataName ∈ dataPrefixes, dataName ≠ [] := by decide
    exact named _ wanted.sectionName
  rw [wanted.type, present_of_ne_nil nonempty] at isWords
  have lines : above ++ layout.tableLines 0 (front ++ header :: back) ++ foot =
      (above ++ layout.tableLines 0 front) ++
        (layout.sectionLines (0 + front.length) header ++ line :: rest) := by
    rw [tableLines_append, tableLines, ← behind]
    simp only [List.append_assoc]
  apply List.mem_filterMap.mpr
  refine ⟨entry, ?_, ?_⟩
  · rw [lines, List.foldl_append, List.foldl_append, merged]
    exact mem_foldl_mergeLine starts rest
  · exact dataSection_of_words wanted (bracketed_indices _).1 (bracketed_indices _).2 isWords

/-! ### Lines -/

theorem newline_notMem_bracketed (index : Nat) : '\n' ∉ bracketed index := by
  have noDigit : digitValue 16 '\n' = none := by decide
  have digits := notMem_rjust (by decide) (notMem_decimal noDigit index) 2
  intro mem
  rcases List.mem_append.mp mem with front | last
  · rcases List.mem_append.mp front with first | middle
    · exact absurd first (by decide)
    · exact digits middle
  · exact absurd last (by decide)

theorem newline_notMem_type (printable : header.Printable) : '\n' ∉ header.type.text := by
  cases isType : header.type with
  | known typeName =>
      intro mem
      exact absurd ((printable.type typeName isType).2 '\n' mem).1 (by decide)
  | unknown value =>
      intro mem
      rcases List.mem_append.mp mem with digit | mark
      · exact notMem_numeral (by decide) 8 value digit
      · exact absurd mark (by decide)

theorem newline_notMem_sectionLines (printable : header.Printable) (layout : Layout) (index : Nat) :
    ∀ line ∈ layout.sectionLines index header, '\n' ∉ line := by
  have notBlank : '\n' ≠ ' ' := by decide
  have noDigit : digitValue 16 '\n' = none := by decide
  have name : '\n' ∉ header.sectionName := fun mem =>
    absurd (printable.sectionName '\n' mem) (by decide)
  have flags : '\n' ∉ header.flags := fun mem => absurd (printable.flags '\n' mem).1 (by decide)
  have number := fun width n => notMem_rjust notBlank (notMem_decimal noDigit n) width
  intro line isLine
  cases layout with
  | oneLine addrWidth =>
      rw [List.mem_singleton.mp isLine]
      apply notMem_row notBlank
      intro field isField
      simp only [List.mem_cons, List.not_mem_nil, or_false] at isField
      rcases isField with rfl | rfl | rfl | rfl | rfl | rfl | rfl | rfl | rfl | rfl | rfl
      · exact newline_notMem_bracketed index
      · exact notMem_ljust notBlank name 17
      · exact notMem_ljust notBlank (newline_notMem_type printable) 15
      · exact notMem_numeral noDigit addrWidth _
      · exact notMem_numeral noDigit 6 _
      · exact notMem_numeral noDigit 6 _
      · exact notMem_numeral noDigit 2 _
      · exact notMem_rjust notBlank flags 3
      · exact number 2 _
      · exact number 3 _
      · exact number 2 _
  | twoLine =>
      rcases List.mem_cons.mp isLine with rfl | second
      · apply notMem_row notBlank
        intro field isField
        simp only [List.mem_cons, List.not_mem_nil, or_false] at isField
        rcases isField with rfl | rfl | rfl | rfl | rfl
        · exact newline_notMem_bracketed index
        · exact notMem_ljust notBlank name 17
        · exact notMem_ljust notBlank (newline_notMem_type printable) 16
        · exact notMem_numeral noDigit 16 _
        · exact List.not_mem_cons_of_ne_of_not_mem notBlank (notMem_numeral noDigit 8 _)
      · rw [List.mem_singleton.mp second]
        exact notMem_secondLine notBlank noDigit flags

theorem newline_notMem_tableLines (layout : Layout) {table : List Section}
    (printable : ∀ header ∈ table, header.Printable) (index : Nat) :
    ∀ line ∈ layout.tableLines index table, '\n' ∉ line := by
  induction table generalizing index with
  | nil => exact List.forall_mem_nil _
  | cons header table inductionHypothesis =>
      intro line mem
      rcases List.mem_append.mp mem with here | later
      · exact newline_notMem_sectionLines (printable header List.mem_cons_self) layout index line
          here
      · exact inductionHypothesis (fun other isOther => printable other
          (List.mem_cons_of_mem _ isOther)) (index + 1) line later

theorem newline_notMem_head (layout : Layout) (count start : Nat) :
    ∀ line ∈ layout.head count start, '\n' ∉ line := by
  intro line mem
  rcases List.mem_append.mp mem with top | isColumns
  · rcases List.mem_cons.mp top with rfl | more
    · simp only [List.mem_append, not_or]
      refine ⟨⟨⟨⟨by decide, notMem_decimal (by decide) count⟩, by decide⟩, ?_⟩, by decide⟩
      intro digit
      have isDigit := digit_of_mem_toDigits (by decide) (le_refl 16) start '\n' digit
      exact absurd isDigit (by decide)
    · have shape : ∀ line ∈ [[], "Section Headers:".toList], '\n' ∉ line := by decide
      exact shape line more
  · cases layout with
    | oneLine addrWidth =>
        have shape : ∀ line ∈ columns (.oneLine 0), '\n' ∉ line := by decide
        exact shape line isColumns
    | twoLine =>
        have shape : ∀ line ∈ columns .twoLine, '\n' ∉ line := by decide
        exact shape line isColumns

/-- The printed table splits into its lines. -/
theorem splitOn_stdout (layout : Layout) (start : Nat) {table : List Section}
    (printable : ∀ header ∈ table, header.Printable) :
    (layout.stdout start table).splitOn '\n' =
      layout.head table.length start ++ layout.tableLines 0 table ++ foot := by
  apply List.splitOn_intercalate
  case hls =>
    intro empty
    exact absurd (List.append_eq_nil_iff.mp empty).2 (by decide)
  case hx =>
    intro line mem
    rcases List.mem_append.mp mem with above | below
    · rcases List.mem_append.mp above with top | inside
      · exact newline_notMem_head layout table.length start line top
      · exact newline_notMem_tableLines layout printable 0 line inside
    · have shape : ∀ line ∈ foot, '\n' ∉ line := by decide
      exact shape line below

end DataSections

/-! ## Agreement -/

/-- Both parsers have the address and the size of every wanted section of a table. -/
def Agree (stdout : Text) (table : List Section) : Prop :=
  ∀ header ∈ table, header.Wanted →
    (getSectionHeaders stdout).get? header.sectionName = some header.extent ∧
      (header.sectionName, header.extent) ∈ getDataSectionsInfo stdout

/-- The parsers agree exactly on the tables with one line for each section in which every wanted
section is the last loaded one of its name among the first ten, or has the same address and
size. -/
theorem agree_iff (layout : Layout) (start : Nat) {table : List Section}
    (printable : ∀ header ∈ table, header.Printable) :
    Agree (layout.stdout start table) table ↔
      ∀ header ∈ table, header.Wanted → layout ≠ .twoLine ∧
        lastLoaded header.sectionName table = some header.extent := by
  have dotted : ∀ dataName ∈ dataPrefixes, '.' ∈ dataName := by decide
  apply forall₃_congr
  intro header mem wanted
  have second : (header.sectionName, header.extent) ∈
      getDataSectionsInfo (layout.stdout start table) := by
    rw [getDataSectionsInfo, splitOn_stdout layout start printable, List.mem_mergeSort]
    exact mem_dataSections layout printable mem wanted _
  have first : (getSectionHeaders (layout.stdout start table)).get? header.sectionName =
      lastKept layout header.sectionName 0 table none := by
    rw [getSectionHeaders, splitOn_stdout layout start printable]
    exact get?_getSectionHeaders layout printable (dotted _ wanted.sectionName) _ _
  rw [and_iff_left second, first]
  cases layout with
  | oneLine addrWidth =>
      rw [lastKept_oneLine, Option.or_none, and_iff_right Layout.noConfusion]
      rfl
  | twoLine =>
      rw [lastKept_twoLine]
      simp

/-- A table with the null section and a data section, as printed for 64-bit files. -/
def dataTable : List Section :=
  [⟨[], .known "NULL".toList, 0, 0, 0, 0, [], 0, 0, 0⟩,
   ⟨".data".toList, .known progbits, 0x80002000, 0x3000, 0x30, 0, "WA".toList, 0, 0, 8⟩]

theorem printable_dataTable : ∀ header ∈ dataTable, header.Printable := by
  intro header mem
  simp only [dataTable, List.mem_cons, List.not_mem_nil, or_false] at mem
  rcases mem with rfl | rfl
  · refine ⟨by decide, ?_, by decide⟩
    intro typeName isType
    cases isType
    decide
  · refine ⟨by decide, ?_, by decide⟩
    intro typeName isType
    cases isType
    decide

/-- In the layout with one line both parsers find the data section. -/
theorem agree_iff_dataTable : Agree (Layout.stdout (.oneLine 8) 64 dataTable) dataTable := by
  apply (agree_iff (.oneLine 8) 64 printable_dataTable).mpr
  intro header mem wanted
  refine ⟨Layout.noConfusion, ?_⟩
  simp only [dataTable, List.mem_cons, List.not_mem_nil, or_false] at mem
  rcases mem with rfl | rfl
  · exact absurd wanted.nonempty (Nat.lt_irrefl 0)
  · decide

/-- In the layout with two lines `_get_section_headers` misses it. -/
theorem not_agree_dataTable : ¬ Agree (Layout.stdout .twoLine 64 dataTable) dataTable := by
  intro agree
  have both := agree _ (List.mem_cons_of_mem _ List.mem_cons_self)
    ⟨rfl, by decide, by decide, by decide⟩
  have missed : (getSectionHeaders (Layout.stdout .twoLine 64 dataTable)).get? ".data".toList =
      none := by decide +kernel
  have found := both.1.symm.trans missed
  cases found

end Difftest.Host
