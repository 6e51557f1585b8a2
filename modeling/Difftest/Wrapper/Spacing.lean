import Difftest.Wrapper.Emission

/-!
# Spacing of the wrapped code

A byte of the code belongs as far behind the label `user_code` as it lies behind the start in the
image.  The location counter keeps this distance as long as no `.org` is passed, because `.org`
counts from the start of the section and not from the label.
-/

namespace Difftest.Wrapper

open Difftest.Host Difftest.Listing

/-- The byte of the image at an address whose word is present. -/
def imageByte? (memory : Dict Nat Nat) (a : Nat) : Option Nat :=
  (memory.get? (alignDown a)).map fun word => byteAt word (a % 8)

/-- The code keeps its spacing: it can be assembled, and the placed bytes are those of the image
from `start` to `code_end`, each once and as far behind the label as behind the start. -/
def Spaced (memory : Dict Nat Nat) (start codeEnd userCode : Nat) : Prop :=
  ∃ placed, assembleCode memory start codeEnd userCode = some placed ∧
    (placed.map Prod.fst).Nodup ∧
    ∀ offset byte, (offset, byte) ∈ placed ↔
      ∃ a, start ≤ a ∧ a < codeEnd ∧ imageByte? memory a = some byte ∧
        offset = userCode + (a - start)

/-- No word is missing in front of one that is present. -/
def Gapless (memory : Dict Nat Nat) (first codeEnd : Nat) : Prop :=
  ∀ w, 8 ∣ w → first ≤ w → w < codeEnd → memory.get? w ≠ none →
    ∀ x, 8 ∣ x → first ≤ x → x < w → memory.get? x ≠ none

section Expected

variable {memory : Dict Nat Nat} {start codeEnd userCode : Nat}

/-- A byte of the image with its place. -/
def entry (memory : Dict Nat Nat) (start userCode a : Nat) : Option (Nat × Nat) :=
  (imageByte? memory a).map fun byte => (userCode + (a - start), byte)

/-- The bytes of the image from an address on, with their places. -/
def expectedFrom (memory : Dict Nat Nat) (start codeEnd userCode a : Nat) : List (Nat × Nat) :=
  (List.range' a (codeEnd - a)).filterMap (entry memory start userCode)

theorem entry_of_word {w i : Nat} (aligned : 8 ∣ w) (inside : i < 8) :
    entry memory start userCode (w + i) =
      (memory.get? w).map fun word => (userCode + (w + i - start), byteAt word i) := by
  have isWord : alignDown (w + i) = w := by
    rw [alignDown_eq]
    omega
  have isByte : (w + i) % 8 = i := by omega
  rw [entry, imageByte?, isWord, isByte, Option.map_map]
  rfl

/-- The bytes of a missing word. -/
theorem filterMap_missing {w : Nat} (aligned : 8 ∣ w) (missing : memory.get? w = none)
    (i : Nat) {count : Nat} (inside : i + count ≤ 8) :
    (List.range' (w + i) count).filterMap (entry memory start userCode) = [] := by
  apply List.filterMap_eq_nil_iff.mpr
  intro a mem
  rcases List.mem_range'_1.mp mem with ⟨above, below⟩
  have isOffset : a = w + (a - w) := by omega
  rw [isOffset, entry_of_word aligned (by omega), missing, Option.map_none]

/-- The bytes of a word that is present. -/
theorem filterMap_present {w word : Nat} (aligned : 8 ∣ w) (present : memory.get? w = some word)
    (i count : Nat) (above : start ≤ w + i) (inside : i + count ≤ 8) :
    (List.range' (w + i) count).filterMap (entry memory start userCode) =
      placedFrom (userCode + (w + i - start)) ((List.range' i count).map (byteAt word)) := by
  induction count generalizing i with
  | zero => rfl
  | succ count inductionHypothesis =>
      have next : userCode + (w + (i + 1) - start) = userCode + (w + i - start) + 1 := by omega
      have rest := inductionHypothesis (i + 1) (by omega) (by omega)
      rw [next, ← Nat.add_assoc] at rest
      rw [List.range'_succ, List.range'_succ, List.filterMap_cons,
        entry_of_word aligned (by omega), present, Option.map_some, List.map_cons, placedFrom,
        ← rest]

/-- The bytes from a place in a word on are those of the word, then those of the next words. -/
theorem expectedFrom_word {w i : Nat} (inside : i ≤ 8) :
    expectedFrom memory start codeEnd userCode (w + i) =
      (List.range' (w + i) (min 8 (codeEnd - w) - i)).filterMap (entry memory start userCode) ++
        expectedFrom memory start codeEnd userCode (w + 8) := by
  rw [expectedFrom, expectedFrom, ← List.filterMap_append]
  congr 1
  by_cases whole : w + 8 ≤ codeEnd
  · have counts : codeEnd - (w + i) = (codeEnd - (w + 8)) + (8 - i) := by omega
    have next : w + 8 = w + i + (8 - i) := by omega
    rw [Nat.min_eq_left (by omega), counts, next, range'_split]
  · have counts : min 8 (codeEnd - w) - i = codeEnd - (w + i) := by omega
    have empty : codeEnd - (w + 8) = 0 := by omega
    rw [counts, empty, List.range'_zero, List.append_nil]

theorem expectedFrom_missing {w i : Nat} (aligned : 8 ∣ w) (inside : i ≤ 8)
    (missing : memory.get? w = none) :
    expectedFrom memory start codeEnd userCode (w + i) =
      expectedFrom memory start codeEnd userCode (w + 8) := by
  rw [expectedFrom_word inside, filterMap_missing aligned missing i (by omega), List.nil_append]

theorem expectedFrom_present {w i word : Nat} (aligned : 8 ∣ w) (inside : i ≤ 8)
    (above : start ≤ w + i) (present : memory.get? w = some word) :
    expectedFrom memory start codeEnd userCode (w + i) =
      placedFrom (userCode + (w + i - start))
        ((List.range' i (min 8 (codeEnd - w) - i)).map (byteAt word)) ++
        expectedFrom memory start codeEnd userCode (w + 8) := by
  rw [expectedFrom_word inside, filterMap_present aligned present i _ above (by omega)]

theorem expectedFrom_skip {w : Nat} (aligned : 8 ∣ w) (missing : memory.get? w = none) :
    expectedFrom memory start codeEnd userCode w =
      expectedFrom memory start codeEnd userCode (w + 8) :=
  @expectedFrom_missing memory start codeEnd userCode w 0 aligned (by decide) missing

theorem expectedFrom_whole {w word : Nat} (aligned : 8 ∣ w) (above : start ≤ w)
    (present : memory.get? w = some word) :
    expectedFrom memory start codeEnd userCode w =
      placedFrom (userCode + (w - start))
        ((List.range' 0 (min 8 (codeEnd - w))).map (byteAt word)) ++
        expectedFrom memory start codeEnd userCode (w + 8) :=
  @expectedFrom_present memory start codeEnd userCode w 0 word aligned (by decide) above present

theorem expectedFrom_eq_nil {a : Nat} (past : codeEnd ≤ a) :
    expectedFrom memory start codeEnd userCode a = [] := by
  rw [expectedFrom, Nat.sub_eq_zero_of_le past]
  rfl

theorem pairwise_expectedFrom :
    (expectedFrom memory start codeEnd userCode start).Pairwise
      fun first second => first.1 < second.1 := by
  have sorted : (List.range' start (codeEnd - start)).Pairwise (· < ·) := List.pairwise_lt_range'
  rw [expectedFrom, List.pairwise_filterMap]
  refine sorted.imp_of_mem ?_
  intro a b isFirst _ before first isEntry second isEntry'
  rcases Option.map_eq_some_iff.mp isEntry with ⟨byte, _, rfl⟩
  rcases Option.map_eq_some_iff.mp isEntry' with ⟨byte', _, rfl⟩
  have above := (List.mem_range'_1.mp isFirst).1
  exact Nat.add_lt_add_left (Nat.sub_lt_sub_right above before) userCode

theorem mem_expectedFrom {offset byte : Nat} :
    (offset, byte) ∈ expectedFrom memory start codeEnd userCode start ↔
      ∃ a, start ≤ a ∧ a < codeEnd ∧ imageByte? memory a = some byte ∧
        offset = userCode + (a - start) := by
  rw [expectedFrom, List.mem_filterMap]
  constructor
  · rintro ⟨a, mem, isEntry⟩
    rcases List.mem_range'_1.mp mem with ⟨above, below⟩
    rcases Option.map_eq_some_iff.mp isEntry with ⟨byte', isByte, isPair⟩
    cases isPair
    exact ⟨a, above, by omega, isByte, rfl⟩
  · rintro ⟨a, above, below, isByte, rfl⟩
    refine ⟨a, List.mem_range'_1.mpr ⟨above, by omega⟩, ?_⟩
    rw [entry, isByte, Option.map_some]

/-- Keeping the spacing means placing exactly the bytes of the image in their order. -/
theorem spaced_iff_expected : Spaced memory start codeEnd userCode ↔
    assembleCode memory start codeEnd userCode =
      some (expectedFrom memory start codeEnd userCode start) := by
  constructor
  · rintro ⟨placed, assembled, _, entries⟩
    have sorted := (pairwise_assemble assembled).2
    have same : placed = expectedFrom memory start codeEnd userCode start :=
      eq_of_pairwise sorted pairwise_expectedFrom fun entry =>
        (entries entry.1 entry.2).trans mem_expectedFrom.symm
    rw [assembled, same]
  · intro assembled
    exact ⟨_, assembled, nodup_places pairwise_expectedFrom, fun _ _ => mem_expectedFrom⟩

end Expected

/-! ## The loop -/

section Loop

variable {memory : Dict Nat Nat} {start codeEnd userCode : Nat}

theorem stepRange_cons {w stop : Nat} (below : w < stop) :
    stepRange w stop 8 = w :: stepRange (w + 8) stop 8 := by
  have count : (stop - w + 8 - 1) / 8 = (stop - (w + 8) + 8 - 1) / 8 + 1 := by omega
  rw [stepRange, stepRange, count, List.range'_succ]

theorem stepRange_nil {w stop : Nat} (past : stop ≤ w) : stepRange w stop 8 = [] := by
  have count : (stop - w + 8 - 1) / 8 = 0 := by omega
  rw [stepRange, count, List.range'_zero]

/-- A word places its bytes where the location counter stands. -/
theorem assemble_emitWord (location word remaining byteOffset : Nat) (items : List (Item Nat)) :
    assemble location ((emitWord word remaining byteOffset).map Directive.item ++ items) =
      (assemble (location + remaining) items).map
        (placedFrom location ((List.range' byteOffset remaining).map (byteAt word)) ++ ·) := by
  rcases emitWord_spec word remaining byteOffset with ⟨noMove, values⟩
  rw [assemble_data noMove, values, List.length_map, List.length_range']

theorem map_append_eq_some_iff {α : Type} {first rest : List α} {found : Option (List α)} :
    found.map (first ++ ·) = some (first ++ rest) ↔ found = some rest := by
  cases found <;> simp

/-- From a word to the next until the end of the code. -/
theorem words_induction {P : Nat → Prop} (past : ∀ w, codeEnd ≤ w → P w)
    (step : ∀ w, w < codeEnd → P (w + 8) → P w) (w : Nat) : P w := by
  induction left : codeEnd - w using Nat.strong_induction_on generalizing w with
  | _ left inductionHypothesis =>
      by_cases below : w < codeEnd
      · exact step w below (inductionHypothesis (codeEnd - (w + 8)) (by omega) (w + 8) rfl)
      · exact past w (Nat.not_lt.mp below)

variable {currentOffset : Nat} {firstWord : Bool} {w word : Nat} {rest : List Nat}

theorem emitWords_missing (missing : memory.get? w = none) :
    emitWords memory start codeEnd currentOffset firstWord (w :: rest) =
      emitWords memory start codeEnd currentOffset firstWord rest := by
  rw [emitWords, missing]

theorem emitWords_present (present : memory.get? w = some word) :
    emitWords memory start codeEnd currentOffset firstWord (w :: rest) =
      emitGap currentOffset (w - alignDown start) ++
        emitWord word
          (min 8 (codeEnd - w) - if firstWord = true then start - alignDown start else 0)
          (if firstWord = true then start - alignDown start else 0) ++
        emitWords memory start codeEnd (w - alignDown start + 8) false rest := by
  rw [emitWords, present]

theorem values_emitGap (currentOffset expectedOffset : Nat) :
    ((emitGap currentOffset expectedOffset).map Directive.item).flatMap Item.values = [] := by
  rw [emitGap]
  split <;> rfl

/-- After the first word, the bytes of all words are emitted. -/
theorem values_emitWords (aligned : 8 ∣ w) (above : start ≤ w) :
    ((emitWords memory start codeEnd currentOffset false (stepRange w codeEnd 8)).map
      Directive.item).flatMap Item.values =
      (expectedFrom memory start codeEnd userCode w).map Prod.snd := by
  induction w using @words_induction codeEnd generalizing currentOffset with
  | past w past =>
      rw [stepRange_nil past, expectedFrom_eq_nil past]
      rfl
  | step w below inductionHypothesis =>
      have others := fun currentOffset => @inductionHypothesis currentOffset
        ((Nat.dvd_add_right aligned).mpr (Nat.dvd_refl 8)) (above.trans (Nat.le_add_right w 8))
      rw [stepRange_cons below]
      cases isWord : memory.get? w with
      | none => rw [emitWords_missing isWord, others, expectedFrom_skip aligned isWord]
      | some word =>
          rw [emitWords_present isWord, List.map_append, List.map_append, List.flatMap_append,
            List.flatMap_append, values_emitGap, (emitWord_spec _ _ _).2, others,
            expectedFrom_whole aligned above isWord, List.map_append, map_snd_placedFrom]
          rfl

/-- A word behind the first one is placed right exactly when the next words are, as long as no
word is missing in front of it. -/
theorem assemble_next {location : Nat} {items : List (Item Nat)} (aligned : 8 ∣ w)
    (above : start ≤ w) (present : memory.get? w = some word)
    (isPlace : location = userCode + (w - start)) :
    assemble location ((emitWord word (min 8 (codeEnd - w)) 0).map Directive.item ++ items) =
        some (expectedFrom memory start codeEnd userCode w) ↔
      assemble (location + min 8 (codeEnd - w)) items =
        some (expectedFrom memory start codeEnd userCode (w + 8)) := by
  rw [assemble_emitWord, expectedFrom_whole aligned above present, ← isPlace,
    map_append_eq_some_iff]

theorem gapless_next {p : Nat} (aligned : 8 ∣ p) (present : memory.get? p ≠ none) :
    Gapless memory p codeEnd ↔ Gapless memory (p + 8) codeEnd := by
  constructor
  · intro gapless w isAligned above below isPresent x otherAligned otherAbove before
    exact gapless w isAligned (by omega) below isPresent x otherAligned (by omega) before
  · intro gapless w isAligned above below isPresent x otherAligned otherAbove before
    by_cases same : x = p
    · rw [same]
      exact present
    · exact gapless w isAligned (by omega) below isPresent x otherAligned (by omega) before

theorem gapless_past {p : Nat} (aligned : 8 ∣ p) (past : codeEnd ≤ p + 8) :
    Gapless memory p codeEnd := by
  intro w isAligned above below _ x otherAligned otherAbove before
  omega

theorem alignDown_le (addr : Nat) : alignDown addr ≤ addr := by
  rw [alignDown_eq]
  exact Nat.div_mul_le_self addr 8

theorem emitGap_self (offset : Nat) : emitGap offset offset = [] :=
  if_neg (Nat.lt_irrefl offset)

theorem emitGap_of_lt {currentOffset expectedOffset : Nat} (gap : currentOffset < expectedOffset) :
    emitGap currentOffset expectedOffset = [.org expectedOffset] := by
  rw [emitGap, if_pos gap, Nat.add_sub_cancel' gap.le]

/-- What is placed at an offset of the section is at its place only when the label stands as far
behind the start of the section as the code behind its first word. -/
theorem userCode_eq_of_org {location : Nat} {items : List (Item Nat)} (aligned : 8 ∣ w)
    (above : start ≤ w) (below : w < codeEnd) (present : memory.get? w = some word)
    (assembled : assemble location ((Directive.org (w - alignDown start)).item ::
      ((emitWord word (min 8 (codeEnd - w)) 0).map Directive.item ++ items)) =
        some (expectedFrom memory start codeEnd userCode w)) :
    userCode = start - alignDown start := by
  have bytes : (List.range' 0 (min 8 (codeEnd - w))).map (byteAt word) ≠ [] := by
    rw [ne_eq, List.map_eq_nil_iff, List.range'_eq_nil_iff]
    omega
  rw [Directive.item, assemble] at assembled
  split at assembled
  · rw [assemble_emitWord, expectedFrom_whole aligned above present] at assembled
    rcases Option.map_eq_some_iff.mp assembled with ⟨others, _, same⟩
    have places := location_eq bytes bytes same
    have rounded := alignDown_le start
    omega
  · cases assembled

/-- With the location counter behind the words that were placed, the rest is placed right exactly
when no word is missing in front of one that is present, or the label happens to stand as far
behind the start of its section as the code behind its first word. -/
theorem assemble_emitWords_iff {p : Nat} (firstAligned : 8 ∣ p) (aligned : 8 ∣ w)
    (above : start ≤ p) (between : p ≤ w)
    (skipped : ∀ x, 8 ∣ x → p ≤ x → x < w → memory.get? x = none) :
    assemble (userCode + (p - start)) ((emitWords memory start codeEnd (p - alignDown start) false
        (stepRange w codeEnd 8)).map Directive.item) =
        some (expectedFrom memory start codeEnd userCode w) ↔
      Gapless memory p codeEnd ∨ userCode = start - alignDown start := by
  induction w using @words_induction codeEnd generalizing p with
  | past w past =>
      rw [stepRange_nil past, expectedFrom_eq_nil past]
      have gapless : Gapless memory p codeEnd := by
        intro x isAligned isAbove below present
        exact absurd (skipped x isAligned isAbove (by omega)) present
      simp [emitWords, assemble, gapless]
  | step w below inductionHypothesis =>
      have nextAligned := (Nat.dvd_add_right aligned).mpr (Nat.dvd_refl 8)
      rw [stepRange_cons below]
      cases isWord : memory.get? w with
      | none =>
          rw [emitWords_missing isWord, expectedFrom_skip aligned isWord]
          apply inductionHypothesis firstAligned nextAligned above (by omega)
          intro x isAligned isAbove isBelow
          by_cases same : x = w
          · rw [same, isWord]
          · exact skipped x isAligned isAbove (by omega)
      | some word =>
          have rounded := alignDown_le start
          have after : assemble (userCode + (w - start)) ((emitWord word (min 8 (codeEnd - w)) 0 ++
              emitWords memory start codeEnd (w - alignDown start + 8) false
                (stepRange (w + 8) codeEnd 8)).map Directive.item) =
              some (expectedFrom memory start codeEnd userCode w) ↔
              Gapless memory (w + 8) codeEnd ∨ userCode = start - alignDown start := by
            rw [List.map_append, assemble_next aligned (above.trans between) isWord rfl]
            by_cases whole : w + 8 ≤ codeEnd
            · have location : userCode + (w - start) + min 8 (codeEnd - w) =
                  userCode + (w + 8 - start) := by omega
              have offset : w - alignDown start + 8 = w + 8 - alignDown start := by omega
              rw [location, offset]
              apply inductionHypothesis nextAligned nextAligned (by omega) (Nat.le_refl _)
              intro x _ isAbove isBelow
              exact absurd isBelow (Nat.not_lt.mpr isAbove)
            · rw [stepRange_nil (by omega), expectedFrom_eq_nil (by omega)]
              simp [emitWords, assemble, @gapless_past memory codeEnd _ nextAligned (by omega)]
          rw [emitWords_present isWord]
          simp only [Bool.false_eq_true, if_false, Nat.sub_zero]
          rcases Nat.eq_or_lt_of_le between with rfl | gap
          · rw [emitGap_self, List.nil_append, after, gapless_next aligned (by simp [isWord])]
          · rw [emitGap_of_lt (by omega), List.append_assoc, List.singleton_append, List.map_cons]
            by_cases label : userCode = start - alignDown start
            · have location : w - alignDown start = userCode + (w - start) := by omega
              have forward : userCode + (p - start) ≤ w - alignDown start := by omega
              rw [location] at after
              rw [Directive.item, assemble, if_pos forward, location]
              exact ⟨fun _ => Or.inr label, fun _ => after.mpr (Or.inr label)⟩
            · have gapped : ¬ Gapless memory p codeEnd := by
                intro gapless
                exact gapless w aligned between below (by simp [isWord]) p firstAligned
                  (Nat.le_refl p) gap (skipped p firstAligned (Nat.le_refl p) gap)
              simp only [gapped, label, or_self, iff_false]
              intro assembled
              rw [List.map_append] at assembled
              exact label (userCode_eq_of_org aligned (above.trans between) below isWord assembled)

/-- The bytes in front of the start are skipped in the first word that is present, whichever it
is, and the gap before it moves to an offset of the section. -/
theorem assemble_first_missing (label : userCode ≠ 0) (aligned : 8 ∣ w)
    (behind : alignDown start < w) :
    assemble userCode ((emitWords memory start codeEnd 0 true (stepRange w codeEnd 8)).map
        Directive.item) = some (expectedFrom memory start codeEnd userCode w) ↔
      ∀ x, 8 ∣ x → w ≤ x → x < codeEnd → memory.get? x = none := by
  induction w using @words_induction codeEnd with
  | past w past =>
      rw [stepRange_nil past, expectedFrom_eq_nil past]
      have nothing : ∀ x, 8 ∣ x → w ≤ x → x < codeEnd → memory.get? x = none := by
        intro x _ above below
        omega
      simpa [emitWords, assemble] using nothing
  | step w below inductionHypothesis =>
      have nextAligned := (Nat.dvd_add_right aligned).mpr (Nat.dvd_refl 8)
      rw [stepRange_cons below]
      cases isWord : memory.get? w with
      | none =>
          rw [emitWords_missing isWord, expectedFrom_skip aligned isWord,
            inductionHypothesis nextAligned (by omega)]
          constructor
          · intro missing x isAligned above isBelow
            by_cases same : x = w
            · rw [same, isWord]
            · exact missing x isAligned (by omega) isBelow
          · intro missing x isAligned above isBelow
            exact missing x isAligned (by omega) isBelow
      | some word =>
          have notMissing : ¬ ∀ x, 8 ∣ x → w ≤ x → x < codeEnd → memory.get? x = none := by
            intro missing
            cases isWord.symm.trans (missing w aligned (Nat.le_refl w) below)
          have above : start ≤ w := by
            have rounded := alignDown_eq start
            omega
          simp only [notMissing, iff_false]
          intro assembled
          rw [emitWords_present isWord] at assembled
          simp only [if_true] at assembled
          by_cases whole : start - alignDown start = 0
          · -- the label stands behind the start of the section, so the offset is not its place
            rw [whole, Nat.sub_zero, emitGap_of_lt (by omega), List.append_assoc,
              List.singleton_append, List.map_cons, List.map_append] at assembled
            exact label ((userCode_eq_of_org aligned above below isWord assembled).trans whole)
          · -- the bytes that are skipped are missing at the end
            have values := map_snd_assemble assembled
            rw [List.map_append, List.map_append, List.flatMap_append, List.flatMap_append,
              values_emitGap, (emitWord_spec _ _ _).2,
              @values_emitWords memory start codeEnd userCode _ _ nextAligned (by omega),
              expectedFrom_whole aligned above isWord, List.map_append, map_snd_placedFrom] at values
            have lengths := congrArg List.length values
            simp only [List.length_append, List.length_map, List.length_range', List.length_nil]
              at lengths
            omega

end Loop

/-- The spacing is kept exactly when no word is missing in front of one that is present, or the
first word is there and the label stands as far behind the start of its section as the code
behind its first word. -/
theorem spaced_iff (memory : Dict Nat Nat) (start codeEnd : Nat) {userCode : Nat}
    (label : userCode ≠ 0) :
    Spaced memory start codeEnd userCode ↔
      Gapless memory (alignDown start) codeEnd ∨
        memory.get? (alignDown start) ≠ none ∧ userCode = start - alignDown start := by
  have rounded := alignDown_le start
  have near : start - alignDown start < 8 := by
    rw [alignDown_eq]
    omega
  have aligned : 8 ∣ alignDown start := by
    rw [alignDown_eq]
    exact Nat.dvd_mul_left 8 _
  have nextAligned := (Nat.dvd_add_right aligned).mpr (Nat.dvd_refl 8)
  have isStart : alignDown start + (start - alignDown start) = start := Nat.add_sub_cancel' rounded
  rw [spaced_iff_expected, assembleCode, wordDirectives]
  by_cases below : alignDown start < codeEnd
  · rw [stepRange_cons below]
    cases isWord : memory.get? (alignDown start) with
    | none =>
        have skipped := @expectedFrom_missing memory start codeEnd userCode _
          (start - alignDown start) aligned near.le isWord
        rw [isStart] at skipped
        rw [emitWords_missing isWord, skipped,
          assemble_first_missing label nextAligned (by omega)]
        constructor
        · intro missing
          left
          intro x isAligned above isBelow present
          by_cases same : x = alignDown start
          · rw [same] at present
            exact absurd isWord present
          · exact absurd (missing x isAligned (by omega) isBelow) present
        · rintro (gapless | ⟨present, _⟩)
          · intro x isAligned above isBelow
            by_contra present
            exact gapless x isAligned (by omega) isBelow present _ aligned (Nat.le_refl _) (by omega)
              isWord
          · exact absurd rfl present
    | some word =>
        have present : memory.get? (alignDown start) ≠ none := by simp [isWord]
        have whole := @expectedFrom_present memory start codeEnd userCode _
          (start - alignDown start) word aligned near.le isStart.ge isWord
        rw [isStart, Nat.sub_self, Nat.add_zero] at whole
        rw [emitWords_present isWord]
        simp only [if_true]
        rw [Nat.sub_self, emitGap_self, List.nil_append, List.map_append, assemble_emitWord, whole,
          map_append_eq_some_iff, gapless_next aligned present]
        by_cases inside : alignDown start + 8 ≤ codeEnd
        · have location : userCode + (min 8 (codeEnd - alignDown start) -
              (start - alignDown start)) = userCode + (alignDown start + 8 - start) := by omega
          have offset : 0 + 8 = alignDown start + 8 - alignDown start := by omega
          rw [location, offset, assemble_emitWords_iff nextAligned nextAligned (by omega)
            (Nat.le_refl _) fun x _ above isBelow => absurd isBelow (Nat.not_lt.mpr above)]
          simp
        · rw [stepRange_nil (by omega), expectedFrom_eq_nil (by omega)]
          simp [emitWords, assemble, @gapless_past memory codeEnd _ nextAligned (by omega)]
  · rw [stepRange_nil (Nat.not_lt.mp below), expectedFrom_eq_nil (by omega)]
    simp [emitWords, assemble, @gapless_past memory codeEnd _ aligned (by omega)]

/-- Code from the middle of a word to the middle of the next one keeps its spacing. -/
theorem spaced_contiguous :
    Spaced ((Dict.empty.set 0x80000000 0x0000001300000013).set 0x80000008 0x0001006f) 0x80000004
      0x8000000e 0x400 := by
  have gapless : Gapless ((Dict.empty.set 0x80000000 0x0000001300000013).set 0x80000008 0x0001006f)
      (alignDown 0x80000004) 0x8000000e := by
    rw [alignDown_eq]
    intro w isAligned above below _ x otherAligned otherAbove before
    have isFirst : x = 0x80000000 := by omega
    rw [isFirst]
    decide
  exact (spaced_iff _ _ _ (by decide)).mpr (Or.inl gapless)

/-- A gap of one word moves the location counter back in front of the label; a larger one places
the bytes behind it too early. -/
theorem spacing_lost :
    (assembleCode ((Dict.empty.set 0x80000000 0x6f).set 0x80000010 0x13) 0x80000000 0x80000018
        0x400 = none ∧
      ¬ Spaced ((Dict.empty.set 0x80000000 0x6f).set 0x80000010 0x13) 0x80000000 0x80000018
        0x400) ∧
    imageByte? ((Dict.empty.set 0x80000000 0x6f).set 0x80001000 0x13) 0x80001000 = some 0x13 ∧
      (∃ placed, assembleCode ((Dict.empty.set 0x80000000 0x6f).set 0x80001000 0x13) 0x80000000
        0x80001008 0x400 = some placed ∧ (0x1000, 0x13) ∈ placed ∧ (0x1400, 0x13) ∉ placed) ∧
      ¬ Spaced ((Dict.empty.set 0x80000000 0x6f).set 0x80001000 0x13) 0x80000000 0x80001008
        0x400 := by
  have backwards : assembleCode ((Dict.empty.set 0x80000000 0x6f).set 0x80000010 0x13) 0x80000000
      0x80000018 0x400 = none := by decide +kernel
  have early : assembleCode ((Dict.empty.set 0x80000000 0x6f).set 0x80001000 0x13) 0x80000000
      0x80001008 0x400 = some (placedFrom 0x400 [0x6f, 0, 0, 0, 0, 0, 0, 0] ++
        placedFrom 0x1000 [0x13, 0, 0, 0, 0, 0, 0, 0]) := by decide +kernel
  have isByte : imageByte? ((Dict.empty.set 0x80000000 0x6f).set 0x80001000 0x13) 0x80001000 =
      some 0x13 := by decide +kernel
  have absent : (0x1400, 0x13) ∉ placedFrom 0x400 [0x6f, 0, 0, 0, 0, 0, 0, 0] ++
      placedFrom 0x1000 [0x13, 0, 0, 0, 0, 0, 0, 0] := by decide
  refine ⟨⟨backwards, ?_⟩, isByte, ⟨_, early, by decide, absent⟩, ?_⟩
  · rintro ⟨placed, assembled, _⟩
    cases backwards.symm.trans assembled
  · rintro ⟨placed, assembled, _, entries⟩
    cases early.symm.trans assembled
    exact absent ((entries 0x1400 0x13).mpr
      ⟨0x80001000, by decide, by decide, isByte, by decide⟩)

end Difftest.Wrapper
