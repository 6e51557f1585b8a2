import Difftest.Host.HexFile

/-!
# Extracted data words

The words of the data sections reach the host as one flat list without addresses.  The list
leaves out the words that the image does not contain; the host walks over the same sections
without knowing of them, and rounds the sections of wrapped programs differently.
-/

namespace Difftest.Host

open Difftest.Text Difftest.Signature

/-! ## Addresses of the extracted words -/

/-- The addresses of a range that the image contains. -/
def presentAddrs (image : Dict Nat Nat) (start stop : Nat) : List Nat :=
  (stepRange start stop 8).filter fun addr => decide (addr ∈ image.keys)

/-- The addresses of all words of ordinary data sections, rounded to whole words. -/
def walked (ranges : List (Nat × Nat)) : List Nat :=
  ranges.flatMap fun range => stepRange (alignDown range.1) (alignDown (range.2 + 7)) 8

/-- The addresses of one of the sections of a wrapped program that the image contains. -/
def randomAddrs (symbols : Symbols) (image : Dict Nat Nat) (n : Nat) : List Nat :=
  match sectionRange symbols n with
  | none => []
  | some (dataStart, dataEnd) => presentAddrs image (alignDown dataStart) dataEnd

/-- The addresses of the extracted words in order. -/
def extractedAddrs (symbols : Symbols) (image : Dict Nat Nat) (ranges : List (Nat × Nat)) :
    List Nat :=
  (ranges.flatMap fun range =>
    presentAddrs image (alignDown range.1) (alignDown (range.2 + 7))) ++
    (List.range 6).flatMap (randomAddrs symbols image)

theorem mem_keys_iff_exists {image : Dict Nat Nat} {addr : Nat} :
    addr ∈ image.keys ↔ ∃ word, image.get? addr = some word := by
  rw [Dict.mem_keys_iff, Option.isSome_iff_exists]

theorem presentWords_eq (image : Dict Nat Nat) (start stop : Nat) :
    presentWords image start stop =
      (presentAddrs image start stop).map fun addr => image.getD addr 0 := by
  rw [presentWords, presentAddrs]
  induction stepRange start stop 8 with
  | nil => rfl
  | cons addr addrs inductionHypothesis =>
      cases found : image.get? addr with
      | none =>
          have absent : addr ∉ image.keys := by simp [mem_keys_iff_exists, found]
          rw [List.filterMap_cons_none found, List.filter_cons_of_neg (by simpa using absent),
            inductionHypothesis]
      | some word =>
          have present : addr ∈ image.keys := mem_keys_iff_exists.mpr ⟨word, found⟩
          have isWord : image.getD addr 0 = word := by rw [Dict.getD, found, Option.getD_some]
          rw [List.filterMap_cons_some found, List.filter_cons_of_pos (by simpa using present),
            List.map_cons, isWord, inductionHypothesis]

/-- The extracted words are the words of the image at the extracted addresses. -/
theorem extractDataWords_eq (symbols : Symbols) (image : Dict Nat Nat)
    (ranges : List (Nat × Nat)) :
    extractDataWords symbols (some image) ranges =
      (if extractedAddrs symbols image ranges = [] then (List.range 6).flatMap (placeholders symbols)
        else (extractedAddrs symbols image ranges).map fun addr => image.getD addr 0, ranges) := by
  have words : ranges.flatMap (sectionWords image) ++
      (List.range 6).flatMap (randomWords symbols image) =
      (extractedAddrs symbols image ranges).map fun addr => image.getD addr 0 := by
    have sections : sectionWords image = fun range =>
        (presentAddrs image (alignDown range.1) (alignDown (range.2 + 7))).map
          fun addr => image.getD addr 0 := funext fun range => presentWords_eq image _ _
    have random : randomWords symbols image = fun n =>
        (randomAddrs symbols image n).map fun addr => image.getD addr 0 := by
      funext n
      rw [randomWords, randomAddrs]
      cases sectionRange symbols n with
      | none => rfl
      | some range => exact presentWords_eq image _ _
    rw [extractedAddrs, List.map_append, List.map_flatMap, List.map_flatMap, sections, random]
  simp only [extractDataWords, words, List.map_eq_nil_iff]
  split <;> rfl

/-! ## Ordinary data sections -/

/-- Words that are assigned one after the other, as long as there are any. -/
theorem foldl_restoreWord (data : List Nat) (addrs : List Nat) (memory : Dict Nat Nat)
    (index : Nat) :
    addrs.foldl (restoreWord data) (memory, index) =
      (memory.setAll (addrs.zip (data.drop index)),
        index + min addrs.length (data.length - index)) := by
  induction addrs generalizing memory index with
  | nil => simp [Dict.setAll]
  | cons addr addrs inductionHypothesis =>
      rw [List.foldl_cons, restoreWord]
      by_cases inside : index < data.length
      · rw [List.getElem?_eq_getElem inside]
        simp only
        rw [inductionHypothesis, List.drop_eq_getElem_cons inside, List.zip_cons_cons,
          List.length_cons, Prod.mk.injEq]
        constructor
        · rfl
        · omega
      · have past := Nat.not_lt.mp inside
        rw [List.getElem?_eq_none past]
        simp only
        rw [inductionHypothesis, List.drop_of_length_le past, List.zip_nil_right,
          List.zip_nil_right, List.length_cons, Prod.mk.injEq]
        constructor
        · rfl
        · omega

theorem restoreRanges_eq (data : List Nat) (ranges : List (Nat × Nat)) (memory : Dict Nat Nat) :
    restoreRanges data ranges memory = memory.setAll ((walked ranges).zip data) := by
  have flat : ∀ (ranges : List (Nat × Nat)) state,
      ranges.foldl (fun state range =>
        (stepRange (alignDown range.1) (alignDown (range.2 + 7)) 8).foldl (restoreWord data) state)
        state = (walked ranges).foldl (restoreWord data) state := by
    intro ranges state
    rw [walked, List.foldl_flatMap]
  rw [restoreRanges, flat, foldl_restoreWord, List.drop_zero]

/-! ## Sections of wrapped programs -/

section Wrapped

variable {symbols : Symbols} {sections : Nat → Nat × Nat} {data : List Nat}

/-- The index at which the words of a section start in the flat list. -/
def offsetOf (sections : Nat → Nat × Nat) (n : Nat) : Int :=
  ((List.range n).map fun m => (((sections m).2 : Int) - (sections m).1) / 8).sum

/-- The addresses that are stored for a section, with the indices of their words. -/
def sectionStores (sections : Nat → Nat × Nat) (n : Nat) : List (Nat × Int) :=
  (stepRange ((sections n).1 / 8 * 8) ((sections n).2 / 8 * 8) 8).zipIdx.map fun turn =>
    (turn.1, turn.2 + offsetOf sections n)

/-- The addresses that are stored for the first sections, with the indices of their words. -/
def stores (sections : Nat → Nat × Nat) (count : Nat) : List (Nat × Int) :=
  (List.range count).flatMap (sectionStores sections)

theorem stores_succ (count : Nat) :
    stores sections (count + 1) = stores sections count ++ sectionStores sections count := by
  rw [stores, List.range_succ, List.flatMap_append, List.flatMap_singleton]
  rfl

theorem offsetOf_succ (n : Nat) : offsetOf sections (n + 1) =
    offsetOf sections n + (((sections n).2 : Int) - (sections n).1) / 8 := by
  rw [offsetOf, List.range_succ, List.map_append, List.sum_append, List.map_singleton,
    List.sum_singleton]
  rfl

/-- The data word at an index. -/
def dataWord (data : List Nat) (index : Int) : Except Raised Nat :=
  match index? data index with
  | none => .error .indexError
  | some word => .ok word

theorem dataWord_eq_ok_iff {index : Int} {word : Nat} :
    dataWord data index = .ok word ↔ index? data index = some word := by
  rw [dataWord]
  cases index? data index <;> simp

theorem dataWord_eq_error_iff {index : Int} {raised : Raised} :
    dataWord data index = .error raised ↔ index? data index = none ∧ raised = .indexError := by
  rw [dataWord]
  cases index? data index <;> simp [eq_comm]

theorem restoreIndexed_eq (offset : Int) (memory : Dict Nat Nat) (turn : Nat × Nat) :
    restoreIndexed data offset memory turn =
      (dataWord data (turn.2 + offset)).map (memory.set turn.1) := by
  rw [restoreIndexed, dataWord]
  cases index? data (turn.2 + offset) <;> rfl

theorem symbols_of_sectionRange {n : Nat} {range : Nat × Nat}
    (resolves : sectionRange symbols n = some range) :
    symbols (dataStartSymbol n) = some range.1 ∧ symbols (dataEndSymbol n) = some range.2 := by
  rcases Option.bind_eq_some_iff.mp resolves with ⟨dataStart, isStart, rest⟩
  rcases Option.bind_eq_some_iff.mp rest with ⟨dataEnd, isEnd, same⟩
  cases same
  exact ⟨isStart, isEnd⟩

/-- What the stored addresses hold. -/
def storedWords (data : List Nat) (list : List (Nat × Int)) : List (Nat × Nat) :=
  list.map fun store => (store.1, (index? data store.2).getD 0)

/-- The words of one section are stored, or one of its indices lies outside the list. -/
theorem restoreSection_cases {n : Nat} (resolves : sectionRange symbols n = some (sections n))
    (memory : Dict Nat Nat) (ranges : List (Nat × Nat)) :
    ((∀ store ∈ sectionStores sections n, ∃ word, index? data store.2 = some word) ∧
      restoreSection data symbols (memory, offsetOf sections n, ranges) n =
        .ok (memory.setAll (storedWords data (sectionStores sections n)),
          offsetOf sections (n + 1), ranges ++ [sections n])) ∨
    ((∃ store ∈ sectionStores sections n, index? data store.2 = none) ∧
      restoreSection data symbols (memory, offsetOf sections n, ranges) n =
        .error .indexError) := by
  rcases symbols_of_sectionRange resolves with ⟨isStart, isEnd⟩
  have unfolded : restoreSection data symbols (memory, offsetOf sections n, ranges) n =
      ((stepRange ((sections n).1 / 8 * 8) ((sections n).2 / 8 * 8) 8).zipIdx.foldlM
        (restoreIndexed data (offsetOf sections n)) memory).map fun memory =>
          (memory, offsetOf sections (n + 1), ranges ++ [sections n]) := by
    rw [restoreSection, lookup, lookup, isStart, isEnd, offsetOf_succ]
    rfl
  rw [unfolded]
  rcases foldlM_set_cases (stepRange ((sections n).1 / 8 * 8) ((sections n).2 / 8 * 8) 8).zipIdx
    (restoreIndexed_eq (offsetOf sections n)) memory with all | ⟨turn, mem, raised, raises, result⟩
  · left
    have found : ∀ turn ∈ (stepRange ((sections n).1 / 8 * 8) ((sections n).2 / 8 * 8) 8).zipIdx,
        ∃ word, index? data (turn.2 + offsetOf sections n) = some word := by
      intro turn mem
      rcases all turn mem with ⟨word, isWord⟩
      exact ⟨word, dataWord_eq_ok_iff.mp isWord⟩
    constructor
    · intro store mem
      rcases List.mem_map.mp mem with ⟨turn, isTurn, rfl⟩
      exact found turn isTurn
    · have values : ∀ turn ∈
          (stepRange ((sections n).1 / 8 * 8) ((sections n).2 / 8 * 8) 8).zipIdx,
          dataWord data (turn.2 + offsetOf sections n) =
            .ok ((index? data (turn.2 + offsetOf sections n)).getD 0) := by
        intro turn mem
        rcases found turn mem with ⟨word, isWord⟩
        rw [isWord, Option.getD_some]
        exact dataWord_eq_ok_iff.mpr isWord
      rw [foldlM_set (restoreIndexed_eq _) values, storedWords, sectionStores, List.map_map]
      rfl
  · right
    rcases dataWord_eq_error_iff.mp raises with ⟨isNone, rfl⟩
    constructor
    · exact ⟨_, List.mem_map.mpr ⟨turn, mem, rfl⟩, isNone⟩
    · rw [result]
      rfl

theorem restoreData_wrapped (hexfile : Text) (data : List Nat) (symbols : Symbols)
    (memory : Dict Nat Nat) :
    restoreData ⟨hexfile, data, symbols, []⟩ memory =
      ((List.range 6).foldlM (restoreSection data symbols) (memory, 0, [])).map fun state =>
        (state.1, state.2.2) := rfl

/-- The words of the first sections are stored, or an index lies outside the list. -/
theorem restoreSections_cases {count : Nat}
    (resolves : ∀ n < count, sectionRange symbols n = some (sections n)) (memory : Dict Nat Nat) :
    ((∀ store ∈ stores sections count, ∃ word, index? data store.2 = some word) ∧
      (List.range count).foldlM (restoreSection data symbols) (memory, 0, []) =
        .ok (memory.setAll (storedWords data (stores sections count)),
          offsetOf sections count, (List.range count).map sections)) ∨
    ((∃ store ∈ stores sections count, index? data store.2 = none) ∧
      (List.range count).foldlM (restoreSection data symbols) (memory, 0, []) =
        .error .indexError) := by
  induction count with
  | zero => exact Or.inl ⟨fun _ mem => (List.not_mem_nil mem).elim, rfl⟩
  | succ count inductionHypothesis =>
      have before := inductionHypothesis fun n below => resolves n (Nat.lt_succ_of_lt below)
      rw [List.range_succ, List.foldlM_append, stores_succ]
      rcases before with ⟨found, result⟩ | ⟨⟨store, mem, isNone⟩, result⟩
      · rw [result, ok_bind]
        simp only [List.foldlM_cons, List.foldlM_nil, bind_pure]
        rcases @restoreSection_cases _ _ data _ (resolves count (Nat.lt_succ_self count))
          (memory.setAll (storedWords data (stores sections count)))
          ((List.range count).map sections) with ⟨more, last⟩ | ⟨⟨store, mem, isNone⟩, last⟩
        · left
          constructor
          · intro store mem
            rcases List.mem_append.mp mem with mem | mem
            · exact found store mem
            · exact more store mem
          · have words : storedWords data (stores sections count ++ sectionStores sections count) =
                storedWords data (stores sections count) ++
                  storedWords data (sectionStores sections count) := List.map_append
            rw [last, words, Dict.setAll_append, List.map_append, List.map_singleton]
        · right
          rw [last]
          exact ⟨⟨store, List.mem_append_right _ mem, isNone⟩, rfl⟩
      · right
        rw [result]
        exact ⟨⟨store, List.mem_append_left _ mem, isNone⟩, rfl⟩

end Wrapped

/-! ## Return to the addresses -/

theorem lastOf_map_value {α β : Type} (key : Nat) (entries : List (Nat × α)) (f : α → β) :
    Dict.lastOf key (entries.map fun entry => (entry.1, f entry.2)) =
      (Dict.lastOf key entries).map f := by
  induction entries with
  | nil => rfl
  | cons entry entries inductionHypothesis =>
      rw [List.map_cons, Dict.lastOf_cons, Dict.lastOf_cons, inductionHypothesis]
      cases Dict.lastOf key entries with
      | some value => rfl
      | none =>
          by_cases same : entry.1 = key
          · simp [same]
          · simp [same]

/-- Stored words of the image are the words of the image. -/
def Returns (image memory : Dict Nat Nat) (stored : List Nat) : Prop :=
  ∀ addr ∈ stored, ∀ word, image.get? addr = some word → memory.get? addr = some word

/-- The number of words in the flat list. -/
def wordCount (symbols : Symbols) (image : Dict Nat Nat) (ranges : List (Nat × Nat)) : Nat :=
  if extractedAddrs symbols image ranges = [] then
    ((List.range 6).flatMap (placeholders symbols)).length
  else (extractedAddrs symbols image ranges).length

theorem length_extractDataWords (symbols : Symbols) (image : Dict Nat Nat)
    (ranges : List (Nat × Nat)) :
    (extractDataWords symbols (some image) ranges).1.length = wordCount symbols image ranges := by
  rw [extractDataWords_eq, wordCount]
  split
  · rfl
  · exact List.length_map _

theorem index?_isSome_iff {α : Type} {list : List α} {index : Int} :
    (∃ word, index? list index = some word) ↔
      -(list.length : Int) ≤ index ∧ index < list.length := by
  constructor
  · rintro ⟨word, found⟩
    refine ⟨low_of_index? found, ?_⟩
    rw [index?] at found
    split at found
    · have inside := (List.getElem?_eq_some_iff.mp found).1
      omega
    · omega
  · rintro ⟨low, high⟩
    have inside : (index % list.length).toNat < list.length := by
      have positive : 0 < (list.length : Int) := by omega
      have bound := Int.emod_lt_of_pos index positive
      omega
    rw [index?_eq_getElem?_emod low high, List.getElem?_eq_getElem inside]
    exact ⟨_, rfl⟩

theorem index?_map {list : List Nat} (f : Nat → Nat) (index : Int) :
    index? (list.map f) index = (index? list index).map f := by
  rw [index?, index?, List.length_map]
  split
  · exact List.getElem?_map
  · split
    · exact List.getElem?_map
    · rfl

/-- The word of the image at an address is the one that the host finds at the position. -/
def SameWord (image : Dict Nat Nat) (addr : Nat) (source : Option Nat) : Prop :=
  ∃ other, source = some other ∧ image.getD other 0 = image.getD addr 0

theorem mem_randomAddrs {symbols : Symbols} {image : Dict Nat Nat} {n : Nat}
    {range : Nat × Nat} (resolves : sectionRange symbols n = some range) {addr : Nat}
    (present : addr ∈ image.keys) (mem : addr ∈ stepRange (range.1 / 8 * 8) (range.2 / 8 * 8) 8) :
    addr ∈ randomAddrs symbols image n := by
  rw [randomAddrs, resolves]
  rcases (mem_stepRange (by decide)).mp mem with ⟨j, isAddr, below⟩
  have inRange : addr ∈ stepRange (alignDown range.1) range.2 8 := by
    rw [mem_stepRange (by decide), alignDown_eq]
    exact ⟨j, isAddr, by omega⟩
  exact List.mem_filter.mpr ⟨inRange, by simpa using present⟩

/-- Every stored word of the image is extracted. -/
theorem extracted_of_stored {symbols : Symbols} {image : Dict Nat Nat} {ranges : List (Nat × Nat)}
    {sections : Nat → Nat × Nat}
    (resolves : ∀ n < 6, sectionRange symbols n = some (sections n)) {addr : Nat}
    (present : addr ∈ image.keys) (stored : addr ∈ (stores sections 6).map Prod.fst) :
    addr ∈ extractedAddrs symbols image ranges := by
  rcases List.mem_map.mp stored with ⟨store, mem, rfl⟩
  rcases List.mem_flatMap.mp mem with ⟨n, isSection, mem⟩
  rcases List.mem_map.mp mem with ⟨turn, isTurn, rfl⟩
  have inRange : turn.1 ∈ stepRange ((sections n).1 / 8 * 8) ((sections n).2 / 8 * 8) 8 :=
    List.mem_of_getElem? (List.mem_zipIdx_iff_getElem?.mp isTurn)
  have isExtracted := mem_randomAddrs (resolves n (List.mem_range.mp isSection)) present inRange
  exact List.mem_append_right _ (List.mem_flatMap.mpr ⟨n, isSection, isExtracted⟩)

/-- Every word of the image in an ordinary data section is extracted. -/
theorem extracted_of_walked {symbols : Symbols} {image : Dict Nat Nat} {ranges : List (Nat × Nat)}
    {addr : Nat} (present : addr ∈ image.keys) (isWalked : addr ∈ walked ranges) :
    addr ∈ extractedAddrs symbols image ranges := by
  rcases List.mem_flatMap.mp isWalked with ⟨range, isRange, mem⟩
  have isPresent : addr ∈ presentAddrs image (alignDown range.1) (alignDown (range.2 + 7)) :=
    List.mem_filter.mpr ⟨mem, decide_eq_true present⟩
  exact List.mem_append_left _ (List.mem_flatMap.mpr ⟨range, isRange, isPresent⟩)

/-- What is stored for the sections returns to its addresses exactly when the last word that is
stored at each address of the image is the word there. -/
theorem returns_storedWords_iff {image memory : Dict Nat Nat} {list : List (Nat × Int)}
    {extracted data : List Nat}
    (isData : ∀ addr ∈ image.keys, addr ∈ list.map Prod.fst →
      data = extracted.map fun addr => image.getD addr 0)
    (found : ∀ store ∈ list, ∃ word, index? data store.2 = some word) :
    Returns image (memory.setAll (storedWords data list)) (list.map Prod.fst) ↔
      ∀ addr ∈ image.keys, ∀ index, Dict.lastOf addr list = some index →
        SameWord image addr (index? extracted index) := by
  have held : ∀ addr index, Dict.lastOf addr list = some index →
      (memory.setAll (storedWords data list)).get? addr = index? data index := by
    intro addr index last
    rcases found _ (Dict.mem_of_lastOf last) with ⟨word, isWord⟩
    rw [Dict.get?_setAll, storedWords, lastOf_map_value addr list fun index =>
      (index? data index).getD 0, last, Option.map_some, isWord]
    rfl
  constructor
  · intro returns addr present index last
    rcases mem_keys_iff_exists.mp present with ⟨word, isWord⟩
    have stored : addr ∈ list.map Prod.fst :=
      List.mem_map.mpr ⟨(addr, index), Dict.mem_of_lastOf last, rfl⟩
    have same := returns addr stored word isWord
    rw [held addr index last, isData addr present stored, index?_map] at same
    rcases Option.map_eq_some_iff.mp same with ⟨other, isOther, isSame⟩
    exact ⟨other, isOther, by rw [isSame, Dict.getD, isWord, Option.getD_some]⟩
  · intro same addr stored word isWord
    have present := mem_keys_iff_exists.mpr ⟨word, isWord⟩
    cases last : Dict.lastOf addr list with
    | none => exact absurd stored (Dict.lastOf_eq_none_iff.mp last)
    | some index =>
        rcases same addr present index last with ⟨other, isOther, isSame⟩
        rw [held addr index last, isData addr present stored, index?_map, isOther,
          Option.map_some, isSame, Dict.getD, isWord, Option.getD_some]

/-- The sections of a wrapped program. -/
theorem restoreWrapped_iff {symbols : Symbols} {sections : Nat → Nat × Nat}
    (resolves : ∀ n < 6, sectionRange symbols n = some (sections n)) (image memory : Dict Nat Nat)
    (hexfile : Text) :
    (∃ memory' ranges, restoreData
        ⟨hexfile, (extractDataWords symbols (some image) []).1, symbols, []⟩ memory =
          .ok (memory', ranges) ∧
        Returns image memory' ((stores sections 6).map Prod.fst)) ↔
      (∀ store ∈ stores sections 6, -(wordCount symbols image [] : Int) ≤ store.2 ∧
          store.2 < wordCount symbols image []) ∧
        ∀ addr ∈ image.keys, ∀ index, Dict.lastOf addr (stores sections 6) = some index →
          SameWord image addr (index? (extractedAddrs symbols image []) index) := by
  have inside : ∀ index : Int,
      (∃ word, index? (extractDataWords symbols (some image) []).1 index = some word) ↔
        -(wordCount symbols image [] : Int) ≤ index ∧ index < wordCount symbols image [] := by
    intro index
    rw [index?_isSome_iff, length_extractDataWords]
  have isData : ∀ addr ∈ image.keys, addr ∈ (stores sections 6).map Prod.fst →
      (extractDataWords symbols (some image) []).1 =
        (extractedAddrs symbols image []).map fun addr => image.getD addr 0 := by
    intro addr present stored
    have isExtracted := @extracted_of_stored symbols image [] sections resolves addr present stored
    rw [extractDataWords_eq, if_neg (List.ne_nil_of_mem isExtracted)]
  rw [restoreData_wrapped]
  rcases @restoreSections_cases symbols sections (extractDataWords symbols (some image) []).1 6
    resolves memory with ⟨found, result⟩ | ⟨⟨store, mem, isNone⟩, result⟩
  · rw [result, ← returns_storedWords_iff isData found]
    constructor
    · rintro ⟨memory', ranges, same, returns⟩
      cases same
      exact ⟨fun store mem => (inside store.2).mp (found store mem), returns⟩
    · rintro ⟨_, returns⟩
      exact ⟨_, _, rfl, returns⟩
  · rw [result]
    constructor
    · rintro ⟨memory', ranges, same, _⟩
      cases same
    · rintro ⟨bounds, _⟩
      rcases (inside store.2).mpr (bounds store mem) with ⟨word, isWord⟩
      cases isNone.symm.trans isWord

/-- The ordinary data sections of a program that is not wrapped. -/
theorem restoreOrdinary_iff {symbols : Symbols} {ranges : List (Nat × Nat)} (some' : ranges ≠ [])
    (image memory : Dict Nat Nat) (hexfile : Text) :
    (∃ memory' ranges', restoreData
        ⟨hexfile, (extractDataWords symbols (some image) ranges).1, symbols, ranges⟩ memory =
          .ok (memory', ranges') ∧
        Returns image memory' (((walked ranges).zip
          (extractDataWords symbols (some image) ranges).1).map Prod.fst)) ↔
      ∀ addr ∈ image.keys, ∀ other,
        Dict.lastOf addr ((walked ranges).zip (extractedAddrs symbols image ranges)) = some other →
          image.getD other 0 = image.getD addr 0 := by
  have unfolded : restoreData
      ⟨hexfile, (extractDataWords symbols (some image) ranges).1, symbols, ranges⟩ memory =
      .ok (restoreRanges (extractDataWords symbols (some image) ranges).1 ranges memory, ranges) :=
    if_pos some'
  rw [unfolded, restoreRanges_eq]
  have stored_walked : ∀ addr, addr ∈ ((walked ranges).zip
      (extractDataWords symbols (some image) ranges).1).map Prod.fst → addr ∈ walked ranges := by
    intro addr mem
    rcases List.mem_map.mp mem with ⟨store, isStore, rfl⟩
    exact (List.of_mem_zip isStore).1
  have isData : ∀ addr ∈ image.keys, addr ∈ walked ranges →
      (walked ranges).zip (extractDataWords symbols (some image) ranges).1 =
        ((walked ranges).zip (extractedAddrs symbols image ranges)).map fun source =>
          (source.1, image.getD source.2 0) := by
    intro addr present isWalked
    have isExtracted := @extracted_of_walked symbols image ranges addr present isWalked
    rw [extractDataWords_eq, if_neg (List.ne_nil_of_mem isExtracted), List.zip_map_right]
    rfl
  constructor
  · rintro ⟨memory', ranges', same, returns⟩ addr present other last
    cases same
    rcases mem_keys_iff_exists.mp present with ⟨word, isWord⟩
    have source := Dict.mem_of_lastOf last
    have isWalked := (List.of_mem_zip source).1
    have stored : addr ∈ ((walked ranges).zip
        (extractDataWords symbols (some image) ranges).1).map Prod.fst := by
      rw [isData addr present isWalked, List.map_map]
      exact List.mem_map.mpr ⟨(addr, other), source, rfl⟩
    have isSame := returns addr stored word isWord
    rw [Dict.get?_setAll, isData addr present isWalked,
      lastOf_map_value addr _ fun other => image.getD other 0, last] at isSame
    have isGet : image.getD addr 0 = word := by rw [Dict.getD, isWord, Option.getD_some]
    rw [isGet]
    exact Option.some.inj isSame
  · intro same
    refine ⟨_, _, rfl, ?_⟩
    intro addr stored word isWord
    have present := mem_keys_iff_exists.mpr ⟨word, isWord⟩
    have isWalked := stored_walked addr stored
    rw [isData addr present isWalked, List.map_map] at stored
    rw [Dict.get?_setAll, isData addr present isWalked,
      lastOf_map_value addr _ fun other => image.getD other 0]
    cases last : Dict.lastOf addr
        ((walked ranges).zip (extractedAddrs symbols image ranges)) with
    | none => exact absurd stored (Dict.lastOf_eq_none_iff.mp last)
    | some other =>
        have isSame := same addr present other last
        rw [Dict.getD, Dict.getD, isWord, Option.getD_some] at isSame
        simp only [Option.map_some, Option.some_or, Dict.getD, isSame]

/-- The host returns the extracted words to their addresses exactly when it finds at the position
of each address, the last one when there are several, the word of the image there, and no
position lies outside the list: for wrapped programs and for others. -/
theorem dataWords_return_iff (image memory : Dict Nat Nat) (hexfile : Text) (symbols : Symbols) :
    (∀ sections, (∀ n < 6, sectionRange symbols n = some (sections n)) →
      ((∃ memory' ranges, restoreData
          ⟨hexfile, (extractDataWords symbols (some image) []).1, symbols, []⟩ memory =
            .ok (memory', ranges) ∧
          Returns image memory' ((stores sections 6).map Prod.fst)) ↔
        (∀ store ∈ stores sections 6, -(wordCount symbols image [] : Int) ≤ store.2 ∧
            store.2 < wordCount symbols image []) ∧
          ∀ addr ∈ image.keys, ∀ index, Dict.lastOf addr (stores sections 6) = some index →
            SameWord image addr (index? (extractedAddrs symbols image []) index))) ∧
    ∀ ranges, ranges ≠ [] →
      ((∃ memory' ranges', restoreData
          ⟨hexfile, (extractDataWords symbols (some image) ranges).1, symbols, ranges⟩ memory =
            .ok (memory', ranges') ∧
          Returns image memory' (((walked ranges).zip
            (extractDataWords symbols (some image) ranges).1).map Prod.fst)) ↔
        ∀ addr ∈ image.keys, ∀ other,
          Dict.lastOf addr ((walked ranges).zip (extractedAddrs symbols image ranges)) =
              some other →
            image.getD other 0 = image.getD addr 0) :=
  ⟨fun _ resolves => restoreWrapped_iff resolves image memory hexfile,
    fun _ nonempty => restoreOrdinary_iff nonempty image memory hexfile⟩

/-! ## Whole sections -/

/-- Sections of whole words that the image contains. -/
structure Whole (image : Dict Nat Nat) (range : Nat × Nat) : Prop where
  start : 8 ∣ range.1
  stop : 8 ∣ range.2
  ordered : range.1 ≤ range.2
  present : ∀ addr ∈ stepRange range.1 range.2 8, addr ∈ image.keys

/-- The words of the first sections in order. -/
def sectionAddrs (sections : Nat → Nat × Nat) (count : Nat) : List Nat :=
  (List.range count).flatMap fun n => stepRange (sections n).1 (sections n).2 8

theorem sectionAddrs_succ (sections : Nat → Nat × Nat) (count : Nat) :
    sectionAddrs sections (count + 1) =
      sectionAddrs sections count ++ stepRange (sections count).1 (sections count).2 8 := by
  rw [sectionAddrs, List.range_succ, List.flatMap_append, List.flatMap_singleton]
  rfl

/-- Whole sections are stored word by word. -/
theorem stores_eq_of_whole {image : Dict Nat Nat} {sections : Nat → Nat × Nat} {count : Nat}
    (whole : ∀ n < count, Whole image (sections n)) :
    stores sections count =
        (sectionAddrs sections count).zipIdx.map (fun turn => (turn.1, (turn.2 : Int))) ∧
      offsetOf sections count = ((sectionAddrs sections count).length : Int) := by
  induction count with
  | zero => exact ⟨rfl, rfl⟩
  | succ count inductionHypothesis =>
      rcases inductionHypothesis fun n below => whole n (Nat.lt_succ_of_lt below) with
        ⟨isStores, isOffset⟩
      have last := whole count (Nat.lt_succ_self count)
      have start : (sections count).1 / 8 * 8 = (sections count).1 :=
        Nat.div_mul_cancel last.start
      have stop : (sections count).2 / 8 * 8 = (sections count).2 := Nat.div_mul_cancel last.stop
      constructor
      · rw [stores_succ, sectionAddrs_succ, isStores, sectionStores, start, stop, isOffset,
          List.zipIdx_append, List.map_append, Nat.zero_add]
        congr 1
        conv_rhs => rw [List.zipIdx_eq_map_add, List.map_map]
        apply List.map_congr_left
        intro turn _
        rw [Function.comp_apply, Nat.cast_add, Int.add_comm]
      · have length := length_stepRange (sections count).1 (sections count).2
        have ordered := last.ordered
        have wholeWords : ((sections count).2 - (sections count).1) % 8 = 0 :=
          Nat.mod_eq_zero_of_dvd (Nat.dvd_sub last.stop last.start)
        rw [offsetOf_succ, sectionAddrs_succ, isOffset, List.length_append, length]
        omega

/-- Whole sections are extracted word by word. -/
theorem extractedAddrs_eq_of_whole {symbols : Symbols} {image : Dict Nat Nat}
    {sections : Nat → Nat × Nat}
    (resolves : ∀ n < 6, sectionRange symbols n = some (sections n))
    (whole : ∀ n < 6, Whole image (sections n)) :
    extractedAddrs symbols image [] = sectionAddrs sections 6 := by
  have each : ∀ n ∈ List.range 6, randomAddrs symbols image n =
      stepRange (sections n).1 (sections n).2 8 := by
    intro n mem
    have below := List.mem_range.mp mem
    have isWhole := whole n below
    rw [randomAddrs, resolves n below]
    simp only [presentAddrs]
    rw [alignDown_eq, Nat.div_mul_cancel isWhole.start, List.filter_eq_self]
    exact fun addr mem => decide_eq_true (isWhole.present addr mem)
  rw [extractedAddrs, List.flatMap_nil, List.nil_append, sectionAddrs]
  exact List.flatMap_congr each

/-- The words of whole sections return to their addresses. -/
theorem restoreWrapped_of_whole {symbols : Symbols} {image : Dict Nat Nat}
    {sections : Nat → Nat × Nat}
    (resolves : ∀ n < 6, sectionRange symbols n = some (sections n))
    (whole : ∀ n < 6, Whole image (sections n)) :
    (∀ store ∈ stores sections 6, -(wordCount symbols image [] : Int) ≤ store.2 ∧
        store.2 < wordCount symbols image []) ∧
      ∀ addr ∈ image.keys, ∀ index, Dict.lastOf addr (stores sections 6) = some index →
        SameWord image addr (index? (extractedAddrs symbols image []) index) := by
  have isStores := (stores_eq_of_whole whole).1
  have isExtracted := extractedAddrs_eq_of_whole resolves whole
  have found : ∀ store ∈ stores sections 6, ∃ i : Nat, store.2 = i ∧
      (sectionAddrs sections 6)[i]? = some store.1 := by
    intro store mem
    rw [isStores] at mem
    rcases List.mem_map.mp mem with ⟨turn, isTurn, rfl⟩
    exact ⟨turn.2, rfl, List.mem_zipIdx_iff_getElem?.mp isTurn⟩
  constructor
  · intro store mem
    rcases found store mem with ⟨i, isIndex, isAddr⟩
    have inside := (List.getElem?_eq_some_iff.mp isAddr).1
    have nonempty : sectionAddrs sections 6 ≠ [] := List.ne_nil_of_length_pos (by omega)
    rw [wordCount, isExtracted, if_neg nonempty, isIndex]
    omega
  · intro addr _ index last
    rcases found (addr, index) (Dict.mem_of_lastOf last) with ⟨i, isIndex, isAddr⟩
    change index = i at isIndex
    refine ⟨addr, ?_, rfl⟩
    rw [isExtracted, isIndex, index?_natCast]
    exact isAddr

/-! ## Assembled sections -/

/-- The assembler and the linker give the labels of the sections their addresses: each section is
aligned by `.align 8` and contains its words, and the sections follow one another. -/
structure Linked (words : Nat → List Nat) (symbols : Symbols) (starts : Nat → Nat) : Prop where
  range : ∀ n < 6, sectionRange symbols n = some (starts n, starts n + 8 * (words n).length)
  aligned : ∀ n < 6, 2 ^ 8 ∣ starts n
  apart : ∀ m n, m < n → n < 6 → starts m + 8 * (words m).length ≤ starts n

/-! ## Examples of sections -/

/-- The symbols of sections at the given addresses. -/
def sectionSymbols (sections : Nat → Nat × Nat) : Symbols := fun name =>
  Dict.find name ((List.range 6).flatMap fun n =>
    [(dataStartSymbol n, (sections n).1), (dataEndSymbol n, (sections n).2)])

/-- Two sections with words, of which the first one is longer or shorter than its words. -/
def twoSections (firstEnd : Nat) (n : Nat) : Nat × Nat :=
  if n = 0 then (0x80001000, firstEnd)
  else if n = 1 then (0x80001010, 0x80001018)
  else (0x80001018, 0x80001018)

/-- An image with three words. -/
def threeWords : Dict Nat Nat := ((Dict.empty.set 0x80001000 1).set 0x80001008 2).set 0x80001010 3

/-- The second word of the first section is extracted, because the section reaches into it, but
is not stored, because the section does not contain it: it ends up in the second section. -/
theorem dataWords_shifted : ∃ memory ranges,
    restoreData ⟨[], (extractDataWords (sectionSymbols (twoSections 0x8000100c))
      (some threeWords) []).1, sectionSymbols (twoSections 0x8000100c), []⟩ Dict.empty =
        .ok (memory, ranges) ∧
      0x80001010 ∈ (stores (twoSections 0x8000100c) 6).map Prod.fst ∧
      threeWords.get? 0x80001010 = some 3 ∧ memory.get? 0x80001010 = some 2 := by
  have resolves : ∀ n < 6, sectionRange (sectionSymbols (twoSections 0x8000100c)) n =
      some (twoSections 0x8000100c n) := by decide
  rcases @restoreSections_cases _ _ (extractDataWords (sectionSymbols (twoSections 0x8000100c))
    (some threeWords) []).1 6 resolves Dict.empty with ⟨_, result⟩ | ⟨⟨store, mem, isNone⟩, _⟩
  · have stored := restoreData_wrapped [] (extractDataWords
      (sectionSymbols (twoSections 0x8000100c)) (some threeWords) []).1
      (sectionSymbols (twoSections 0x8000100c)) Dict.empty
    rw [result] at stored
    refine ⟨_, _, stored, ?_, ?_, ?_⟩
    · decide
    · rfl
    · decide +kernel
  · have found : ∀ store ∈ stores (twoSections 0x8000100c) 6,
        index? (extractDataWords (sectionSymbols (twoSections 0x8000100c))
          (some threeWords) []).1 store.2 ≠ none := by decide +kernel
    exact absurd isNone (found store mem)

/-- Sections of whole words. -/
theorem dataWords_return_whole : ∃ memory ranges,
    restoreData ⟨[], (extractDataWords (sectionSymbols (twoSections 0x80001010))
      (some threeWords) []).1, sectionSymbols (twoSections 0x80001010), []⟩ Dict.empty =
        .ok (memory, ranges) ∧
      Returns threeWords memory ((stores (twoSections 0x80001010) 6).map Prod.fst) := by
  have resolves : ∀ n < 6, sectionRange (sectionSymbols (twoSections 0x80001010)) n =
      some (twoSections 0x80001010 n) := by decide
  have whole : ∀ n < 6, Whole threeWords (twoSections 0x80001010 n) := by
    intro n below
    constructor
    · revert n
      decide
    · revert n
      decide
    · revert n
      decide
    · revert n
      decide
  exact ((dataWords_return_iff threeWords Dict.empty [] _).1 _ resolves).mpr
    (restoreWrapped_of_whole resolves whole)

end Difftest.Host
