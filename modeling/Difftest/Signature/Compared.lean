import Difftest.Signature.Comparer

/-!
# What the standalone comparer leaves out

Each register slot and each word of a data section has a place in a file that
`save_signature` wrote: a line and a column.  The comparer finds words by an
address formula in the list of the well-formed lines, so whether it looks at that
place depends on the symbol table and on which lines of the two files are records.
The main result gives the exact condition.
-/

namespace Difftest.Signature

open Difftest.Text

/-! ## Places -/

/-- A line of a file and a column in it: `0` for the word at the lower address, in
the last sixteen characters, and `1` for the other. -/
abbrev Place := Nat × Nat

/-- The word of one line. -/
def lineWord (column : Nat) (raw : Text) : Option Int :=
  if (strip raw).length = 32 then
    parseInt 16 (slice (16 - 16 * column) (32 - 16 * column) (strip raw))
  else none

/-- The word that a file contains at a place. -/
def fileWord (file : Text) (place : Place) : Option Int :=
  (readlines file)[place.1]?.bind (lineWord place.2)

/-- Number of records that `save_signature` writes for a range of addresses. -/
def recordCount (range : Nat × Nat) : Nat := (stepRange range.1 range.2 16).length

/-- The place of a word of the signature block; `none` outside the block. -/
def blockPlace (block : Nat × Nat) (addr : Nat) : Option Place :=
  if block.1 ≤ addr ∧ (addr - block.1) / 16 < recordCount block then
    some ((addr - block.1) / 16, (addr - block.1) / 8 % 2)
  else none

/-- The places of the words of the data sections, stored from line `base` on. -/
def sectionPlaces : Nat → List (Nat × Nat) → List Place
  | _, [] => []
  | base, range :: ranges =>
      (List.range (sizeWords range).toNat).map (fun j => (base + j / 2, j % 2)) ++
        sectionPlaces (base + recordCount range) ranges

/-- The places of all words that a verdict is about: the register slots of the
symbol table, which lie in the signature block, and the words of its data sections,
which are stored after the block in the order of the sections. -/
def requiredPlaces (symbols : Symbols) (block : Nat × Nat) : List (Option Place) :=
  ((xregSlots ++ fregSlots ++ csrSlots).filterMap fun slot =>
      (symbols slot.1).map (blockPlace block)) ++
    (sectionPlaces (recordCount block) ((List.range 6).filterMap (sectionRange symbols))).map some

/-- Both files contain every word that the verdict is about, with the same value. -/
def Agree (symbols : Symbols) (isa rtl : Text) : Prop :=
  ∀ start stop, symbols "begin_signature" = some start → symbols "end_signature" = some stop →
    ∀ slot ∈ requiredPlaces symbols (start, stop),
      ∃ place value, slot = some place ∧ fileWord isa place = some value ∧
        fileWord rtl place = some value

/-! ## Shapes -/

/-- Which lines of a file are records. -/
def shape (file : Text) : List Bool :=
  (readlines file).map fun raw => decide ((strip raw).length = 32)

/-- The index of a place in the list of words that the comparer reads. -/
def wordNumber (shape : List Bool) (place : Place) : Option Nat :=
  if shape[place.1]? = some true then some (2 * (shape.take place.1).count true + place.2)
  else none

/-- The comparer looks at every place that the verdict is about, if it gets that
far: the files have equally many records, and no index is below the lists. -/
def Locates (symbols : Symbols) (isaShape rtlShape : List Bool) : Prop :=
  ∀ start stop, symbols "begin_signature" = some start → symbols "end_signature" = some stop →
    isaShape.count true = rtlShape.count true →
    let words := 2 * isaShape.count true
    (∀ idx ∈ comparedIndices symbols start words, -(words : Int) ≤ idx) →
    ∀ slot ∈ requiredPlaces symbols (start, stop),
      ∃ place number, slot = some place ∧
        wordNumber isaShape place = some number ∧ wordNumber rtlShape place = some number ∧
        ∃ idx ∈ comparedIndices symbols start words, idx % words = number

theorem wordNumber_cons_succ (first : Bool) (shape : List Bool) (n column : Nat) :
    wordNumber (first :: shape) (n + 1, column) =
      (wordNumber shape (n, column)).map (2 * [first].count true + ·) := by
  rw [wordNumber, wordNumber, List.getElem?_cons_succ, List.take_succ_cons]
  by_cases isRecord : shape[n]? = some true
  · rw [if_pos isRecord, if_pos isRecord, Option.map_some, List.count_cons, List.count_singleton]
    congr 1
    ring
  · rw [if_neg isRecord, if_neg isRecord, Option.map_none]

/-- The comparer reads the records in order and drops the other lines. -/
theorem lineWord_eq_of_mapM {lines : List Text} {words : List (List Int)}
    (read : lines.mapM readSignatureLine = some words) {column : Nat} (small : column < 2)
    (n : Nat) :
    lines[n]?.bind (lineWord column) =
      (wordNumber (lines.map fun raw => decide ((strip raw).length = 32)) (n, column)).bind
        (words.flatten[·]?) := by
  induction lines generalizing words n with
  | nil =>
      cases read
      rfl
  | cons raw lines ih =>
      rw [List.mapM_cons] at read
      obtain ⟨first, firstRead, read⟩ := Option.bind_eq_some_iff.mp read
      obtain ⟨others, othersRead, read⟩ := Option.bind_eq_some_iff.mp read
      cases read
      rw [List.map_cons, List.flatten_cons]
      by_cases isRecord : (strip raw).length = 32
      · have nonempty : strip raw ≠ [] := by
          intro empty
          rw [empty] at isRecord
          cases isRecord
        simp only [readSignatureLine, if_neg nonempty, if_pos isRecord] at firstRead
        obtain ⟨low, lowRead, firstRead⟩ := Option.bind_eq_some_iff.mp firstRead
        obtain ⟨high, highRead, firstRead⟩ := Option.bind_eq_some_iff.mp firstRead
        cases firstRead
        rw [decide_eq_true isRecord]
        cases n with
        | zero =>
            have number : wordNumber (true :: lines.map fun raw => decide ((strip raw).length = 32))
                (0, column) = some column := by
              simp [wordNumber]
            rw [number, List.getElem?_cons_zero, Option.bind_some, Option.bind_some, lineWord,
              if_pos isRecord]
            interval_cases column
            · exact lowRead
            · exact highRead
        | succ n =>
            rw [List.getElem?_cons_succ, ih othersRead, wordNumber_cons_succ, Option.bind_map]
            congr 1
            funext number
            simp [Nat.add_comm 2 number]
      · have dropped : first = [] := by
          simp only [readSignatureLine, if_neg isRecord, ite_self] at firstRead
          exact (Option.some.inj firstRead).symm
        rw [decide_eq_false isRecord, dropped, List.nil_append]
        cases n with
        | zero => simp [wordNumber, lineWord, isRecord]
        | succ n =>
            rw [List.getElem?_cons_succ, ih othersRead, wordNumber_cons_succ, Option.bind_map]
            congr 1
            funext number
            simp

theorem length_of_mapM {lines : List Text} {words : List (List Int)}
    (read : lines.mapM readSignatureLine = some words) :
    words.flatten.length =
      2 * (lines.map fun raw => decide ((strip raw).length = 32)).count true := by
  induction lines generalizing words with
  | nil =>
      cases read
      rfl
  | cons raw lines ih =>
      rw [List.mapM_cons] at read
      obtain ⟨first, firstRead, read⟩ := Option.bind_eq_some_iff.mp read
      obtain ⟨others, othersRead, read⟩ := Option.bind_eq_some_iff.mp read
      cases read
      rw [List.flatten_cons, List.length_append, ih othersRead, List.map_cons, List.count_cons]
      by_cases isRecord : (strip raw).length = 32
      · have nonempty : strip raw ≠ [] := by
          intro empty
          rw [empty] at isRecord
          cases isRecord
        simp only [readSignatureLine, if_neg nonempty, if_pos isRecord] at firstRead
        obtain ⟨low, lowRead, firstRead⟩ := Option.bind_eq_some_iff.mp firstRead
        obtain ⟨high, highRead, firstRead⟩ := Option.bind_eq_some_iff.mp firstRead
        cases firstRead
        simp only [decide_eq_true isRecord, List.length_cons, List.length_nil, beq_self_eq_true,
          if_true]
        ring
      · simp only [readSignatureLine, if_neg isRecord, ite_self] at firstRead
        cases firstRead
        simp [isRecord]

/-- The comparer's list holds the word of a place under the number of the place. -/
theorem fileWord_eq {file : Text} {values : List Int} (read : readSignatureFile file = some values)
    {place : Place} (small : place.2 < 2) :
    fileWord file place = (wordNumber (shape file) place).bind (values[·]?) := by
  obtain ⟨words, linesRead, same⟩ := Option.bind_eq_some_iff.mp read
  cases same
  exact lineWord_eq_of_mapM linesRead small place.1

theorem values_length {file : Text} {values : List Int} (read : readSignatureFile file = some values) :
    values.length = 2 * (shape file).count true := by
  obtain ⟨words, linesRead, same⟩ := Option.bind_eq_some_iff.mp read
  cases same
  exact length_of_mapM linesRead

/-! ## Files of a given shape -/

/-- A file of the given shape; `word` gives the words of its records. -/
def render (word : Nat → Nat) : Nat → List Bool → Text
  | _, [] => []
  | number, true :: shape =>
      line (numeral 16 16 (word (number + 1)) ++ numeral 16 16 (word number)) ++
        render word (number + 2) shape
  | number, false :: shape => line [] ++ render word number shape

theorem strip_record (high low : Nat) :
    strip (line (numeral 16 16 high ++ numeral 16 16 low)) =
      numeral 16 16 high ++ numeral 16 16 low := by
  apply strip_append_spaces
  · intro c mem
    rcases List.mem_append.mp mem with mem | mem
    · exact not_isSpace_of_digit (digit_of_mem_numeral (by decide) (by decide) _ _ c mem)
    · exact not_isSpace_of_digit (digit_of_mem_numeral (by decide) (by decide) _ _ c mem)
  · decide

theorem record_length {high low : Nat} (highSmall : high < 2 ^ 64) (lowSmall : low < 2 ^ 64) :
    (strip (line (numeral 16 16 high ++ numeral 16 16 low))).length = 32 := by
  rw [strip_record, List.length_append,
    numeral_length (by decide) (by decide) (show high < 16 ^ 16 from highSmall),
    numeral_length (by decide) (by decide) (show low < 16 ^ 16 from lowSmall)]

theorem readSignatureLine_record {high low : Nat} (highSmall : high < 2 ^ 64)
    (lowSmall : low < 2 ^ 64) :
    readSignatureLine (line (numeral 16 16 high ++ numeral 16 16 low)) =
      some [(low : Int), (high : Int)] := by
  have highLength : (numeral 16 16 high).length = 16 :=
    numeral_length (by decide) (by decide) highSmall
  have lowLength : (numeral 16 16 low).length = 32 - 16 :=
    numeral_length (by decide) (by decide) lowSmall
  have length := record_length highSmall lowSmall
  rw [strip_record] at length
  have nonempty : numeral 16 16 high ++ numeral 16 16 low ≠ [] := by
    intro empty
    rw [empty] at length
    cases length
  have second := slice_second highLength lowLength []
  rw [List.append_nil] at second
  rw [readSignatureLine]
  simp only [strip_record, if_neg nonempty, if_pos length, second,
    slice_first highLength, parseInt_numeral (by decide : 1 < 16) (by decide : 16 ≤ 16),
    Option.bind_eq_bind, Option.bind_some]

theorem newline_notMem_record (high low : Nat) :
    '\n' ∉ numeral 16 16 high ++ numeral 16 16 low := by
  intro mem
  rcases List.mem_append.mp mem with mem | mem
  · exact newline_notMem_numeral (by decide) (by decide) 16 _ mem
  · exact newline_notMem_numeral (by decide) (by decide) 16 _ mem

section Render

variable {word : Nat → Nat} (small : ∀ number, word number < 2 ^ 64)

include small

theorem shape_render (number : Nat) (shape : List Bool) :
    Signature.shape (render word number shape) = shape := by
  induction shape generalizing number with
  | nil => rfl
  | cons isRecord shape ih =>
      cases isRecord with
      | false =>
          have rest := ih number
          rw [Signature.shape] at rest ⊢
          rw [render, readlines_line_append (by simp), List.map_cons, rest]
          rfl
      | true =>
          have rest := ih (number + 2)
          rw [Signature.shape] at rest ⊢
          rw [render, readlines_line_append (newline_notMem_record _ _), List.map_cons, rest,
            decide_eq_true (record_length (small (number + 1)) (small number))]

/-- The comparer reads the words of the records back. -/
theorem readSignatureFile_render (number : Nat) (shape : List Bool) :
    readSignatureFile (render word number shape) =
      some ((List.range' number (2 * shape.count true)).map fun n => (word n : Int)) := by
  induction shape generalizing number with
  | nil => rfl
  | cons isRecord shape ih =>
      cases isRecord with
      | false =>
          obtain ⟨words, read, same⟩ := Option.bind_eq_some_iff.mp (ih number)
          have dropped : readSignatureLine (line []) = some [] := by decide
          rw [readSignatureFile, render, readlines_line_append (by simp), List.mapM_cons, dropped,
            read]
          exact same
      | true =>
          obtain ⟨words, read, same⟩ := Option.bind_eq_some_iff.mp (ih (number + 2))
          have first := readSignatureLine_record (small (number + 1)) (small number)
          rw [readSignatureFile, render, readlines_line_append (newline_notMem_record _ _),
            List.mapM_cons, first, read]
          have count : 2 * (true :: shape).count true = 2 * shape.count true + 1 + 1 := by
            rw [List.count_cons_self]
            ring
          rw [count, List.range'_succ, List.range'_succ, List.map_cons, List.map_cons,
            ← Option.some.inj same]
          rfl

/-- Two rendered files of the same size pass when the words at the compared
indices are the same. -/
theorem render_isMatch {symbols : Symbols} {start stop : Nat}
    (hasStart : symbols "begin_signature" = some start)
    (hasStop : symbols "end_signature" = some stop) {isaShape rtlShape : List Bool}
    (count : isaShape.count true = rtlShape.count true)
    (low : ∀ idx ∈ comparedIndices symbols start (2 * isaShape.count true),
      -((2 * isaShape.count true : Nat) : Int) ≤ idx)
    {other : Nat → Nat} (otherSmall : ∀ number, other number < 2 ^ 64)
    (same : ∀ idx ∈ comparedIndices symbols start (2 * isaShape.count true),
      word (idx % (2 * isaShape.count true : Nat)).toNat =
        other (idx % (2 * isaShape.count true : Nat)).toNat) :
    ∃ result, compareSignatures symbols (some (render word 0 isaShape))
        (some (some (render other 0 rtlShape))) = some result ∧ result.isMatch = true := by
  apply compareSignatures_isMatch_iff.mpr
  refine ⟨start, stop, _, _, hasStart, hasStop, readSignatureFile_render small 0 isaShape,
    readSignatureFile_render otherSmall 0 rtlShape, ?_, ?_⟩
  · rw [List.length_map, List.length_map, List.length_range', List.length_range', count]
  · rw [List.length_map, List.length_range']
    intro idx mem
    have bound := lt_of_mem_comparedIndices mem
    have pos := low idx mem
    have read : ∀ word : Nat → Nat,
        index? ((List.range' 0 (2 * isaShape.count true)).map fun n => (word n : Int)) idx =
          some (word (idx % (2 * isaShape.count true : Nat)).toNat : Int) := by
      intro word
      have inside : (idx % (2 * isaShape.count true : Nat)).toNat < 2 * isaShape.count true := by
        have nonneg := Int.emod_nonneg idx (b := (2 * isaShape.count true : Nat)) (by omega)
        have less := Int.emod_lt_of_pos idx (b := (2 * isaShape.count true : Nat)) (by omega)
        omega
      rw [index?_eq_getElem?_emod (by rwa [List.length_map, List.length_range'])
        (by rwa [List.length_map, List.length_range']), List.length_map, List.length_range',
        List.getElem?_map, List.getElem?_range' inside]
      simp
    refine ⟨_, read word, ?_⟩
    rw [← count, same idx mem]
    exact read other

end Render

theorem fileWord_render {word : Nat → Nat} (small : ∀ number, word number < 2 ^ 64)
    (shape : List Bool) {place : Place} (column : place.2 < 2) {value : Int}
    (found : fileWord (render word 0 shape) place = some value) :
    ∃ number, wordNumber shape place = some number ∧ value = word number := by
  rw [fileWord_eq (readSignatureFile_render small 0 shape) column, shape_render small] at found
  obtain ⟨number, numbered, found⟩ := Option.bind_eq_some_iff.mp found
  refine ⟨number, numbered, ?_⟩
  rw [List.getElem?_map] at found
  obtain ⟨n, listed, rfl⟩ := Option.map_eq_some_iff.mp found
  obtain ⟨_, rfl⟩ := List.getElem?_eq_some_iff.mp listed
  simp

/-! ## When a passing verdict covers everything -/

theorem column_lt_two_of_required {symbols : Symbols} {block : Nat × Nat} {place : Place}
    (required : some place ∈ requiredPlaces symbols block) : place.2 < 2 := by
  rcases List.mem_append.mp required with slot | data
  · obtain ⟨name, _, found⟩ := List.mem_filterMap.mp slot
    obtain ⟨addr, _, placed⟩ := Option.map_eq_some_iff.mp found
    rw [blockPlace] at placed
    split at placed
    · cases placed
      exact Nat.mod_lt _ Nat.two_pos
    · cases placed
  · obtain ⟨listed, mem, same⟩ := List.mem_map.mp data
    cases same
    generalize (List.range 6).filterMap (sectionRange symbols) = ranges at mem
    generalize recordCount block = base at mem
    induction ranges generalizing base with
    | nil => cases mem
    | cons range ranges ih =>
        rcases List.mem_append.mp mem with first | rest
        · obtain ⟨j, _, rfl⟩ := List.mem_map.mp first
          exact Nat.mod_lt _ Nat.two_pos
        · exact ih _ rest

/-- Every verdict that passes files of two given shapes covers all words that it is
about, whatever the words are, exactly when the comparer locates all of them. -/
theorem compare_covers_iff (symbols : Symbols) (isaShape rtlShape : List Bool) :
    (∀ isa rtl, shape isa = isaShape → shape rtl = rtlShape →
      ∀ result, compareSignatures symbols (some isa) (some (some rtl)) = some result →
        result.isMatch = true → Agree symbols isa rtl) ↔
      Locates symbols isaShape rtlShape := by
  constructor
  · intro covers start stop hasStart hasStop count words low slot required
    let marked : Nat → Nat → Nat := fun mark number => if number = mark then 1 else 0
    let zeros : Nat → Nat := fun _ => 0
    have markedSmall : ∀ mark number, marked mark number < 2 ^ 64 := by
      intro mark number
      by_cases hit : number = mark <;> simp [marked, hit]
    have zerosSmall : ∀ number, zeros number < 2 ^ 64 := fun _ => by decide
    -- A pair of rendered files that passes has the same word at the place of the slot.
    have agrees : ∀ word other : Nat → Nat, (∀ number, word number < 2 ^ 64) →
        (∀ number, other number < 2 ^ 64) →
        (∀ idx ∈ comparedIndices symbols start words,
          word (idx % words).toNat = other (idx % words).toNat) →
        ∃ place isaNumber rtlNumber, slot = some place ∧
          wordNumber isaShape place = some isaNumber ∧
          wordNumber rtlShape place = some rtlNumber ∧ word isaNumber = other rtlNumber := by
      intro word other small otherSmall same
      obtain ⟨result, compared, passed⟩ :=
        render_isMatch small hasStart hasStop count low otherSmall same
      obtain ⟨place, value, rfl, isaWord, rtlWord⟩ := covers _ _ (shape_render small 0 isaShape)
        (shape_render otherSmall 0 rtlShape) result compared passed start stop hasStart hasStop
        slot required
      have column := column_lt_two_of_required required
      obtain ⟨isaNumber, isaNumbered, isaValue⟩ := fileWord_render small isaShape column isaWord
      obtain ⟨rtlNumber, rtlNumbered, rtlValue⟩ := fileWord_render otherSmall rtlShape column rtlWord
      exact ⟨place, isaNumber, rtlNumber, rfl, isaNumbered, rtlNumbered,
        Int.ofNat.inj (isaValue.symm.trans rtlValue)⟩
    obtain ⟨place, number, rtlNumber, rfl, isaNumbered, rtlNumbered, _⟩ :=
      agrees zeros zeros zerosSmall zerosSmall fun _ _ => rfl
    -- A mark that both files carry shows that the place has one number in both.
    obtain ⟨_, _, _, samePlace, isaAgain, rtlAgain, sameMark⟩ :=
      agrees (marked number) (marked number) (markedSmall number) (markedSmall number)
        fun _ _ => rfl
    cases samePlace
    cases isaNumbered.symm.trans isaAgain
    cases rtlNumbered.symm.trans rtlAgain
    have sameNumber : rtlNumber = number := by
      by_contra differ
      simp [marked, differ] at sameMark
    subst sameNumber
    refine ⟨place, rtlNumber, rfl, isaNumbered, rtlNumbered, ?_⟩
    -- A mark that only one file carries must be at a compared index.
    by_contra unseen
    push Not at unseen
    obtain ⟨_, _, _, samePlace, isaAgain, rtlAgain, visible⟩ :=
      agrees (marked rtlNumber) zeros (markedSmall rtlNumber) zerosSmall (by
        intro idx mem
        have nonneg := low idx mem
        have bound := lt_of_mem_comparedIndices mem
        have remainder := Int.emod_nonneg idx (b := words) (by omega)
        have miss : (idx % words).toNat ≠ rtlNumber := by
          intro hit
          apply unseen idx mem
          rw [← hit, Int.toNat_of_nonneg remainder]
        simp [marked, zeros, miss])
    cases samePlace
    cases isaNumbered.symm.trans isaAgain
    simp [marked, zeros] at visible
  · rintro locates isa rtl rfl rfl result compared passed start stop hasStart hasStop slot required
    obtain ⟨start', stop', isaValues, rtlValues, hasStart', hasStop', isaRead, rtlRead, length, same⟩ :=
      compareSignatures_isMatch_iff.mp ⟨result, compared, passed⟩
    cases hasStart.symm.trans hasStart'
    cases hasStop.symm.trans hasStop'
    have isaLength := values_length isaRead
    have rtlLength := values_length rtlRead
    have low : ∀ idx ∈ comparedIndices symbols start (2 * (shape isa).count true),
        -((2 * (shape isa).count true : Nat) : Int) ≤ idx := by
      intro idx mem
      rw [← isaLength] at mem ⊢
      obtain ⟨value, found, _⟩ := same idx mem
      exact low_of_index? found
    obtain ⟨place, number, rfl, isaNumbered, rtlNumbered, idx, mem, hit⟩ :=
      locates start stop hasStart hasStop (by omega) low slot required
    have column := column_lt_two_of_required required
    rw [← isaLength] at mem hit
    obtain ⟨value, isaFound, rtlFound⟩ := same idx mem
    have above := low_of_index? isaFound
    have below := lt_of_mem_comparedIndices mem
    refine ⟨place, value, rfl, ?_, ?_⟩
    · rw [fileWord_eq isaRead column, isaNumbered, Option.bind_some, ← isaFound,
        index?_eq_getElem?_emod above below, hit, Int.toNat_natCast]
    · rw [fileWord_eq rtlRead column, rtlNumbered, Option.bind_some, ← rtlFound,
        index?_eq_getElem?_emod (length ▸ above) (length ▸ below), ← length, hit,
        Int.toNat_natCast]

/-- A block of one record, and a data section of one record a page further on. -/
def sectionSymbols : Symbols := fun name =>
  if name = "begin_signature" then some 0x1000
  else if name = "end_signature" then some 0x1010
  else if name = "_random_data0" then some 0x2000
  else if name = "_end_data0" then some 0x2010
  else none

/-- A signature of two records whose last word is given. -/
def sectionFile (last : Nat) : Text :=
  render (fun number => if number = 3 then last else 0) 0 [true, true]

/-- The files differ in a word of the data section, and the verdict passes. -/
theorem compare_skips_section :
    (∃ result, compareSignatures sectionSymbols (some (sectionFile 0))
        (some (some (sectionFile 1))) = some result ∧ result.isMatch = true) ∧
      ¬ Agree sectionSymbols (sectionFile 0) (sectionFile 1) := by
  constructor
  · have passes : (compareSignatures sectionSymbols (some (sectionFile 0))
        (some (some (sectionFile 1)))).map ComparerResult.isMatch = some true := by
      decide +kernel
    obtain ⟨result, compared, passed⟩ := Option.map_eq_some_iff.mp passes
    exact ⟨result, compared, passed⟩
  · intro agree
    have required : some (1, 1) ∈ requiredPlaces sectionSymbols (0x1000, 0x1010) := by
      decide +kernel
    obtain ⟨place, value, samePlace, isaWord, rtlWord⟩ := agree 0x1000 0x1010 rfl rfl _ required
    cases samePlace
    have differ : fileWord (sectionFile 0) (1, 1) ≠ fileWord (sectionFile 1) (1, 1) := by
      decide +kernel
    exact differ (isaWord.trans rtlWord.symm)

end Difftest.Signature
