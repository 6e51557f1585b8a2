import Difftest.Host.DataWords
import Difftest.Text.Format

/-!
# Data sections of a fuzz input

The preprocessor splits the data words into six sections of the same size and writes two words a
line behind the label of each section.  The host walks over the same list with an offset that it
reads off the symbols.  Both agree as long as a section does not consist of a single word.
-/

namespace Difftest.Fuzzer

open Difftest.Text Difftest.Host Difftest.Signature

/-! ## The preprocessor -/

/-- `section_size`. -/
def sectionSize (data : List Nat) : Nat := data.length / 6

/-- The assertions of `process` on the data. -/
structure ProcessAsserts (data : List Nat) : Prop where
  nonempty : data ≠ []
  powerOfTwo : sectionSize data &&& (sectionSize data - 1) = 0

/-- A line with two words, in some lines behind a label `d_n_k`. -/
structure DataLine where
  label : Option (Nat × Nat)
  first : Nat
  second : Nat
deriving DecidableEq, Repr

/-- The label of a line. -/
def DataLine.labelText (line : DataLine) : Text :=
  match line.label with
  | none => []
  | some (n, k) => ['d', '_'] ++ numeral 10 1 n ++ '_' :: numeral 10 1 k ++ [':']

/-- The line as it is written. -/
def DataLine.text (line : DataLine) : Text :=
  ljust 16 line.labelText ++ ".dword 0x".toList ++ numeral 16 16 line.first ++ ", 0x".toList ++
    numeral 16 16 line.second ++ ['\n']

/-- The words that an assembler places for a line. -/
def DataLine.words (line : DataLine) : List Nat := [line.first, line.second]

/-- The lines for the words of section `n` from `start` to `stop`, with the number of the next
label; `none` is an `IndexError`. -/
def pairLines (data : List Nat) (n start stop : Nat) : List Nat → Nat → Option (List DataLine)
  | [], _ => some []
  | i :: rest, k => do
      let first ← data[i]?
      let second ← data[i + 1]?
      let labelled := decide (start + 2 < i ∧ i + 4 < stop)
      let lines ← pairLines data n start stop rest (if labelled then k + 1 else k)
      some (⟨if labelled then some (n, k) else none, first, second⟩ :: lines)

/-- The lines of section `n`. -/
def sectionLines (data : List Nat) (n : Nat) : Option (List DataLine) :=
  let start := n * sectionSize data
  let stop := start + sectionSize data
  pairLines data n start stop (stepRange start stop 2) 0

/-- What is written behind a line of the template that names data sections. -/
def linesBehind (data : List Nat) (line : Text) : Option (List DataLine) :=
  ((List.range 6).mapM fun n =>
    if contains (dataStartSymbol n).toList line = true then sectionLines data n
    else some []).map List.flatten

/-- The lines of the templates from the label of a section to the label of its end. -/
def templateLines (n : Nat) : List Text :=
  [(dataStartSymbol n).toList ++ [':', '\n'], "        /* Random data */\n".toList]

/-- The words that are assembled between the labels of a section. -/
def emittedWords (data : List Nat) (n : Nat) : Option (List Nat) :=
  ((templateLines n).mapM (linesBehind data)).map fun lines => lines.flatten.flatMap DataLine.words

/-! ## What the host loads -/

/-- The program is assembled, and wherever its sections are placed, the host finds all data words
and loads the words that are assembled. -/
def LoadsAssembled (data : List Nat) : Prop :=
  ∃ words : Nat → List Nat, (∀ n < 6, emittedWords data n = some (words n)) ∧
    ∀ symbols starts, Linked words symbols starts → ∀ hexfile memory,
      ∃ memory' ranges, restoreData ⟨hexfile, data, symbols, []⟩ memory = .ok (memory', ranges) ∧
        ∀ n < 6, ∀ k word, (words n)[k]? = some word →
          memory'.get? (starts n + 8 * k) = some word

/-! ## The emitted words -/

section Emitted

variable {data : List Nat}

/-- The line with the label of a section names this section only. -/
theorem linesBehind_label {n : Nat} (below : n < 6) :
    linesBehind data ((dataStartSymbol n).toList ++ [':', '\n']) = sectionLines data n := by
  have names : ∀ n < 6, ∀ m < 6, contains (dataStartSymbol m).toList
      ((dataStartSymbol n).toList ++ [':', '\n']) = decide (m = n) := by decide +kernel
  have each : ∀ m ∈ List.range 6, (if contains (dataStartSymbol m).toList
      ((dataStartSymbol n).toList ++ [':', '\n']) = true then sectionLines data m else some []) =
      if m = n then sectionLines data n else some [] := by
    intro m mem
    rw [names n below m (List.mem_range.mp mem)]
    by_cases same : m = n
    · simp [same]
    · simp [same]
  rw [linesBehind, mapM_congr each]
  cases sectionLines data n with
  | none => interval_cases n <;> rfl
  | some lines => interval_cases n <;> simp [List.range_succ]

theorem linesBehind_comment : linesBehind data "        /* Random data */\n".toList = some [] := by
  have unnamed : ∀ m < 6, contains (dataStartSymbol m).toList
      "        /* Random data */\n".toList = false := by decide +kernel
  have each : ∀ m ∈ List.range 6, (if contains (dataStartSymbol m).toList
      "        /* Random data */\n".toList = true then sectionLines data m else some []) =
      some [] := by
    intro m mem
    rw [unnamed m (List.mem_range.mp mem)]
    rfl
  rw [linesBehind, mapM_congr each]
  rfl

theorem emittedWords_eq {n : Nat} (below : n < 6) :
    emittedWords data n = (sectionLines data n).map fun lines => lines.flatMap DataLine.words := by
  rw [emittedWords, templateLines, List.mapM_cons, List.mapM_cons, List.mapM_nil,
    linesBehind_label below, linesBehind_comment]
  cases sectionLines data n with
  | none => rfl
  | some lines => simp

/-- Pairs of words that all exist are written in their order. -/
theorem words_pairLines {n start stop : Nat} (count : Nat) {i : Nat} (k : Nat)
    (inside : i + 2 * count ≤ data.length) :
    (pairLines data n start stop (List.range' i count 2) k).map
      (fun lines => lines.flatMap DataLine.words) = some ((data.drop i).take (2 * count)) := by
  induction count generalizing i k with
  | zero => simp [pairLines]
  | succ count inductionHypothesis =>
      have first : i < data.length := by omega
      have second : i + 1 < data.length := by omega
      have rest := @inductionHypothesis (i + 2)
        (if decide (start + 2 < i ∧ i + 4 < stop) = true then k + 1 else k) (by omega)
      rcases Option.map_eq_some_iff.mp rest with ⟨lines, isLines, words⟩
      have double : 2 * (count + 1) = 2 * count + 1 + 1 := by ring
      rw [List.range'_succ, pairLines, List.getElem?_eq_getElem first,
        List.getElem?_eq_getElem second, List.drop_eq_getElem_cons first,
        List.drop_eq_getElem_cons second, double, List.take_succ_cons, List.take_succ_cons, ← words]
      simp only [Option.bind_eq_bind, Option.bind_some, isLines, Option.map_some,
        List.flatMap_cons, DataLine.words, List.cons_append, List.nil_append]

/-- A section of an even number of words. -/
theorem emittedWords_even {n : Nat} (below : n < 6) (even : sectionSize data % 2 = 0) :
    emittedWords data n =
      some ((data.drop (n * sectionSize data)).take (sectionSize data)) := by
  have whole : 6 * sectionSize data ≤ data.length := Nat.mul_div_le data.length 6
  have fits : (n + 1) * sectionSize data ≤ 6 * sectionSize data :=
    Nat.mul_le_mul_right _ below
  have pairs : (n * sectionSize data + sectionSize data - n * sectionSize data + 2 - 1) / 2 =
      sectionSize data / 2 := by omega
  have double : 2 * (sectionSize data / 2) = sectionSize data := by omega
  rw [emittedWords_eq below, sectionLines, stepRange, pairs, words_pairLines, double]
  rw [double]
  rw [Nat.succ_mul] at fits
  exact fits.trans whole

/-- A section of one word is written with the word behind it. -/
theorem length_emittedWords_single {n : Nat} (below : n < 6) (single : sectionSize data = 1)
    {words : List Nat} (emitted : emittedWords data n = some words) : words.length = 2 := by
  rw [emittedWords_eq below, sectionLines, single] at emitted
  rcases Option.map_eq_some_iff.mp emitted with ⟨lines, isLines, rfl⟩
  have one : stepRange (n * 1) (n * 1 + 1) 2 = [n * 1] := by
    rw [stepRange, Nat.add_sub_cancel_left]
    rfl
  rw [one, pairLines] at isLines
  rcases Option.bind_eq_some_iff.mp isLines with ⟨first, _, isLines⟩
  rcases Option.bind_eq_some_iff.mp isLines with ⟨second, _, isLines⟩
  cases isLines
  rfl

end Emitted

/-! ## The loaded words -/

section Loaded

variable {data : List Nat} {size : Nat} {starts : Nat → Nat}

/-- The ranges of sections of `size` words. -/
def sectionsAt (starts : Nat → Nat) (size n : Nat) : Nat × Nat := (starts n, starts n + 8 * size)

theorem offsetOf_sectionsAt (n : Nat) : offsetOf (sectionsAt starts size) n = n * size := by
  induction n with
  | zero => simp [offsetOf]
  | succ n inductionHypothesis =>
      have words : ((starts n + 8 * size : Nat) - starts n : Int) / 8 = size := by omega
      rw [offsetOf_succ, inductionHypothesis, sectionsAt, words]
      push_cast
      ring

/-- The stores for a section go through its words in order. -/
theorem mem_sectionStores_iff {n addr : Nat} {index : Int} (aligned : 8 ∣ starts n) :
    (addr, index) ∈ sectionStores (sectionsAt starts size) n ↔
      ∃ k < size, addr = starts n + 8 * k ∧ index = n * size + k := by
  have first : starts n / 8 * 8 = starts n := Nat.div_mul_cancel aligned
  have last : (starts n + 8 * size) / 8 * 8 = starts n + 8 * size := by omega
  have count : (stepRange (starts n) (starts n + 8 * size) 8).length = size := by
    rw [length_stepRange]
    omega
  rw [sectionStores, sectionsAt, first, last, offsetOf_sectionsAt, List.mem_map]
  constructor
  · rintro ⟨turn, mem, same⟩
    cases same
    have found := List.mem_zipIdx_iff_getElem?.mp mem
    have inside := (List.getElem?_eq_some_iff.mp found).1
    rw [getElem?_stepRange inside] at found
    rw [count] at inside
    exact ⟨turn.2, inside, (Option.some.inj found).symm, Int.add_comm _ _⟩
  · rintro ⟨k, inside, rfl, rfl⟩
    refine ⟨(starts n + 8 * k, k), ?_, by rw [Int.add_comm]⟩
    rw [List.mem_zipIdx_iff_getElem?]
    exact getElem?_stepRange (count.symm ▸ inside)

/-- What is stored at a word of a section, when the sections follow one another. -/
theorem lastOf_stores (aligned : ∀ n < 6, 8 ∣ starts n)
    (apart : ∀ m n, m < n → n < 6 → starts m + 8 * size ≤ starts n) {n k : Nat} (below : n < 6)
    (inside : k < size) :
    Dict.lastOf (starts n + 8 * k) (stores (sectionsAt starts size) 6) =
      some ((n * size + k : Nat) : Int) := by
  have stored : (starts n + 8 * k, ((n * size + k : Nat) : Int)) ∈
      stores (sectionsAt starts size) 6 := by
    apply List.mem_flatMap.mpr
    refine ⟨n, List.mem_range.mpr below, ?_⟩
    exact (mem_sectionStores_iff (aligned n below)).mpr ⟨k, inside, rfl, by push_cast; rfl⟩
  cases last : Dict.lastOf (starts n + 8 * k) (stores (sectionsAt starts size) 6) with
  | none =>
      rw [Dict.lastOf_eq_none_iff] at last
      exact absurd (List.mem_map.mpr ⟨_, stored, rfl⟩) last
  | some index =>
      rcases List.mem_flatMap.mp (Dict.mem_of_lastOf last) with ⟨m, isSection, mem⟩
      have belowM := List.mem_range.mp isSection
      rcases (mem_sectionStores_iff (aligned m belowM)).mp mem with ⟨j, insideJ, same, rfl⟩
      have isSame : m = n := by
        rcases Nat.lt_trichotomy m n with before | equal | after
        · have order := apart m n before below
          omega
        · exact equal
        · have order := apart n m after belowM
          omega
      subst isSame
      have isWord : j = k := by omega
      subst isWord
      push_cast
      rfl

/-- Sections of as many words as the list has for them are loaded in order. -/
theorem restoreData_sectionsAt {symbols : Symbols} (fits : 6 * size ≤ data.length)
    (resolves : ∀ n < 6, sectionRange symbols n = some (sectionsAt starts size n))
    (aligned : ∀ n < 6, 8 ∣ starts n)
    (apart : ∀ m n, m < n → n < 6 → starts m + 8 * size ≤ starts n) (hexfile : Text)
    (memory : Dict Nat Nat) :
    ∃ memory' ranges, restoreData ⟨hexfile, data, symbols, []⟩ memory = .ok (memory', ranges) ∧
      ∀ n < 6, ∀ k < size, memory'.get? (starts n + 8 * k) = data[n * size + k]? := by
  have inList : ∀ n < 6, ∀ k < size, n * size + k < data.length := by
    intro n below k inside
    have upper : (n + 1) * size ≤ 6 * size := Nat.mul_le_mul_right _ below
    rw [Nat.succ_mul] at upper
    omega
  rw [restoreData_wrapped]
  rcases @restoreSections_cases _ _ data 6 resolves memory with
    ⟨_, result⟩ | ⟨⟨store, mem, isNone⟩, _⟩
  · rw [result]
    refine ⟨_, _, rfl, ?_⟩
    intro n below k inside
    have isWord := List.getElem?_eq_getElem (inList n below k inside)
    rw [Dict.get?_setAll, storedWords, lastOf_map_value _ _ fun index =>
      (index? data index).getD 0, lastOf_stores aligned apart below inside, Option.map_some,
      index?_natCast, isWord]
    rfl
  · rcases List.mem_flatMap.mp mem with ⟨n, isSection, mem⟩
    have below := List.mem_range.mp isSection
    rcases (mem_sectionStores_iff (aligned n below)).mp mem with ⟨k, inside, _, isIndex⟩
    have found : store.2 = ((n * size + k : Nat) : Int) := by
      rw [isIndex]
      push_cast
      rfl
    rw [found, index?_natCast, List.getElem?_eq_getElem (inList n below k inside)] at isNone
    cases isNone

/-- The host goes through only when the list has a word for every word of a section. -/
theorem length_of_restoreData {symbols : Symbols} {memory memory' : Dict Nat Nat}
    {ranges : List (Nat × Nat)} {hexfile : Text}
    (resolves : ∀ n < 6, sectionRange symbols n = some (sectionsAt starts size n))
    (aligned : ∀ n < 6, 8 ∣ starts n) (nonempty : 0 < size)
    (restored : restoreData ⟨hexfile, data, symbols, []⟩ memory = .ok (memory', ranges)) :
    6 * size ≤ data.length := by
  rw [restoreData_wrapped] at restored
  rcases @restoreSections_cases _ _ data 6 resolves memory with ⟨found, _⟩ | ⟨_, result⟩
  · have stored : (starts 5 + 8 * (size - 1), ((5 * size + (size - 1) : Nat) : Int)) ∈
        stores (sectionsAt starts size) 6 := by
      apply List.mem_flatMap.mpr
      refine ⟨5, by decide, ?_⟩
      exact (mem_sectionStores_iff (aligned 5 (by decide))).mpr
        ⟨size - 1, by omega, rfl, by push_cast; rfl⟩
    rcases found _ stored with ⟨word, isWord⟩
    rw [index?_natCast] at isWord
    have inside := (List.getElem?_eq_some_iff.mp isWord).1
    omega
  · rw [result] at restored
    cases restored

end Loaded

/-! ## Agreement -/

section Agreement

variable {data : List Nat}

/-- The test of `process` lets through one word and even numbers of words. -/
theorem ProcessAsserts.single_or_even (asserts : ProcessAsserts data) :
    sectionSize data = 1 ∨ sectionSize data % 2 = 0 := by
  by_cases empty : sectionSize data = 0
  · right
    rw [empty]
  · rcases (Nat.and_sub_one_eq_zero_iff_isPowerOfTwo empty).mp asserts.powerOfTwo with ⟨k, power⟩
    cases k with
    | zero => exact Or.inl power
    | succ k =>
        right
        rw [power, Nat.pow_succ, Nat.mul_mod_left]

theorem loadsAssembled_even (even : sectionSize data % 2 = 0) : LoadsAssembled data := by
  have whole : 6 * sectionSize data ≤ data.length := Nat.mul_div_le data.length 6
  have counts : ∀ n < 6, ((data.drop (n * sectionSize data)).take (sectionSize data)).length =
      sectionSize data := by
    intro n below
    have upper : (n + 1) * sectionSize data ≤ 6 * sectionSize data := Nat.mul_le_mul_right _ below
    rw [Nat.succ_mul] at upper
    rw [List.length_take, List.length_drop]
    omega
  refine ⟨fun n => (data.drop (n * sectionSize data)).take (sectionSize data),
    fun n below => emittedWords_even below even, ?_⟩
  intro symbols starts linked hexfile memory
  have resolves : ∀ n < 6, sectionRange symbols n =
      some (sectionsAt starts (sectionSize data) n) := by
    intro n below
    rw [linked.range n below, counts n below]
    rfl
  have aligned : ∀ n < 6, 8 ∣ starts n := fun n below =>
    (Nat.pow_dvd_pow 2 (by decide : 3 ≤ 8)).trans (linked.aligned n below)
  have apart : ∀ m n, m < n → n < 6 → starts m + 8 * sectionSize data ≤ starts n := by
    intro m n before below
    have order := linked.apart m n before below
    rwa [counts m (before.trans below)] at order
  rcases restoreData_sectionsAt whole resolves aligned apart hexfile memory with
    ⟨memory', ranges, restored, loaded⟩
  refine ⟨memory', ranges, restored, ?_⟩
  intro n below k word isWord
  have inside : k < sectionSize data := by
    have bound := (List.getElem?_eq_some_iff.mp isWord).1
    rwa [counts n below] at bound
  rw [loaded n below k inside, ← isWord, List.getElem?_take_of_lt inside, List.getElem?_drop]

/-- Sections behind one another, far enough apart. -/
def spread (n : Nat) : Nat := 0x80010000 + 0x10000 * n

theorem sectionRange_spread {n : Nat} (below : n < 6) (size : Nat) :
    sectionRange (sectionSymbols (sectionsAt spread size)) n = some (sectionsAt spread size n) := by
  interval_cases n <;> rfl

theorem not_loadsAssembled_single (single : sectionSize data = 1) : ¬ LoadsAssembled data := by
  rintro ⟨words, emitted, loads⟩
  have counts : ∀ n < 6, (words n).length = 2 := fun n below =>
    length_emittedWords_single below single (emitted n below)
  have aligned : ∀ n, 2 ^ 8 ∣ spread n := by
    intro n
    rw [spread]
    omega
  have linked : Linked words (sectionSymbols (sectionsAt spread 2)) spread := by
    constructor
    · intro n below
      rw [sectionRange_spread below, counts n below]
      rfl
    · exact fun n _ => aligned n
    · intro m n before below
      rw [counts m (before.trans below), spread, spread]
      omega
  rcases loads _ _ linked [] Dict.empty with ⟨memory', ranges, restored, _⟩
  have enough := length_of_restoreData (fun n below => sectionRange_spread below 2)
    (fun n _ => (Nat.pow_dvd_pow 2 (by decide : 3 ≤ 8)).trans (aligned n)) (by decide) restored
  rw [sectionSize] at single
  omega

/-- For data that pass the assertions, the words that are assembled and the ones that the host
loads agree exactly when a section does not consist of a single word. -/
theorem loadsAssembled_iff (asserts : ProcessAsserts data) :
    LoadsAssembled data ↔ data.length / 6 ≠ 1 := by
  constructor
  · intro loads single
    exact not_loadsAssembled_single single loads
  · intro notSingle
    rcases asserts.single_or_even with single | even
    · exact absurd single notSingle
    · exact loadsAssembled_even even

/-- Sections of two words. -/
theorem loadsAssembled_pairs : LoadsAssembled (List.range 12) :=
  (loadsAssembled_iff ⟨by decide, by decide⟩).mpr (by decide)

/-- Eight words pass the assertions and are written, two for each section, but the host runs out of
words. -/
theorem loadsAssembled_fails : ProcessAsserts (List.range 8) ∧
    ¬ LoadsAssembled (List.range 8) ∧
    (∀ n < 6, emittedWords (List.range 8) n = some [n, n + 1]) ∧
    restoreData ⟨[], List.range 8, sectionSymbols (sectionsAt spread 2), []⟩ Dict.empty =
      .error .indexError := by
  refine ⟨⟨by decide, by decide⟩, not_loadsAssembled_single (by decide), by decide +kernel, ?_⟩
  rw [restoreData_wrapped]
  rcases @restoreSections_cases _ _ (List.range 8) 6 (fun n below => sectionRange_spread below 2)
    Dict.empty with ⟨found, _⟩ | ⟨_, result⟩
  · have stored : (spread 4, (8 : Int)) ∈ stores (sectionsAt spread 2) 6 := by decide +kernel
    rcases found _ stored with ⟨word, isWord⟩
    cases isWord
  · rw [result]
    rfl

end Agreement

end Difftest.Fuzzer
