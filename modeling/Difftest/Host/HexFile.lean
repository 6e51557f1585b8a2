import Difftest.Data.Assignments
import Difftest.Elf.Exact
import Difftest.Host.Setup

/-!
# Loading the hex file

The file has a line for every eight bytes from `_start` to the end of the image.  The host
reads a line for every eight bytes from `_start` to 36 bytes after `_end_main`, and stores it
at an address that is a word of the memory only when `_start` is.
-/

namespace Difftest.Host

open Difftest.Text Difftest.Signature Difftest.Elf

/-! ## Words of ranges -/

theorem alignDown_eq (addr : Nat) : alignDown addr = addr / 8 * 8 :=
  ldiff_two_pow_sub_one addr 3

theorem length_stepRange (start stop : Nat) :
    (stepRange start stop 8).length = (stop - start + 7) / 8 := by
  rw [stepRange, List.length_range', Nat.add_sub_assoc (by decide)]

theorem nodup_stepRange (start stop : Nat) : (stepRange start stop 8).Nodup :=
  List.nodup_range' 8

theorem getElem?_stepRange {start stop i : Nat} (inside : i < (stepRange start stop 8).length) :
    (stepRange start stop 8)[i]? = some (start + 8 * i) := by
  rw [stepRange] at inside ⊢
  rw [List.length_range'] at inside
  exact List.getElem?_range' inside

/-- The number of lines of the hex file when it starts at an address. -/
def hexLines (image : Dict Nat Nat) (start : Nat) : Nat := (hexEnd image - start + 7) / 8

/-- What the host stores for the lines up to an address. -/
def hexEntries (image : Dict Nat Nat) (start stop : Nat) : List (Nat × Nat) :=
  (stepRange start stop 8).map fun addr => (addr, image.getD (alignDown addr) 0)

/-! ## Lines -/

theorem intercalate_append {separator : Text} {texts : List Text} (nonempty : texts ≠ []) :
    List.intercalate separator texts ++ separator = (texts.map (· ++ separator)).flatten := by
  induction texts with
  | nil => exact absurd rfl nonempty
  | cons text texts inductionHypothesis =>
      cases texts with
      | nil => simp [List.intercalate]
      | cons next texts =>
          have rest := inductionHypothesis (List.cons_ne_nil next texts)
          have shape : List.intercalate separator (text :: next :: texts) =
              text ++ separator ++ List.intercalate separator (next :: texts) := by
            simp [List.intercalate, List.intersperse]
          rw [shape, List.append_assoc, rest]
          rfl

theorem readlines_numerals {words : List Nat} (nonempty : words ≠ []) :
    readlines (List.intercalate ['\n'] (words.map (numeral 16 16)) ++ ['\n']) =
      words.map fun word => line (numeral 16 16 word) := by
  have lines : (words.map (numeral 16 16)).map (· ++ ['\n']) =
      (words.map (numeral 16 16)).map line := rfl
  rw [intercalate_append (by simpa using nonempty), lines, readlines_flatten_lines, List.map_map]
  · rfl
  · intro body mem
    rcases List.mem_map.mp mem with ⟨word, _, rfl⟩
    exact newline_notMem_numeral (by decide) (by decide) 16 word

/-- The number on a line. -/
def lineNumber (lines : List Text) (i : Nat) : Except Raised Nat :=
  match lines[i]? with
  | none => .error .indexError
  | some text =>
      match parseInt 16 text with
      | none => .error .valueError
      | some word => .ok word.toNat

theorem loadLine_eq (lines : List Text) (memory : Dict Nat Nat) (turn : Nat × Nat) :
    loadLine lines memory turn = (lineNumber lines turn.2).map (memory.set turn.1) := by
  rw [loadLine, lineNumber]
  cases lines[turn.2]? with
  | none => rfl
  | some text =>
      simp only
      cases parseInt 16 text with
      | none => rfl
      | some word => rfl

theorem lineNumber_numerals {words : List Nat} {i : Nat} (inside : i < words.length) :
    lineNumber (words.map fun word => line (numeral 16 16 word)) i = .ok (words[i]) := by
  have parsed : parseInt 16 (line (numeral 16 16 words[i])) = some (words[i] : Int) :=
    parseInt_numeral_append (by decide) (by decide) 16 _ (by decide)
  rw [lineNumber, List.getElem?_map, List.getElem?_eq_getElem inside, Option.map_some]
  simp only [parsed, Int.toNat_natCast]

theorem lineNumber_past {words : List Nat} {i : Nat} (outside : words.length ≤ i) :
    lineNumber (words.map fun word => line (numeral 16 16 word)) i = .error .indexError := by
  rw [lineNumber, List.getElem?_eq_none (by simpa using outside)]

/-! ## Loading -/

section Load

variable {image : Dict Nat Nat} {symbols : Symbols} {start stop : Nat}

theorem length_hexWords (isStart : symbols "_start" = some start) :
    (hexWords image symbols).length = hexLines image start := by
  rw [hexWords, List.length_map, isStart, Option.getD_some, length_stepRange, hexLines]

theorem getElem_hexWords (isStart : symbols "_start" = some start) {i : Nat}
    (inside : i < (hexWords image symbols).length) :
    (hexWords image symbols)[i] = image.getD (alignDown (start + 8 * i)) 0 := by
  have inRange : i < (stepRange start (hexEnd image) 8).length := by
    rwa [length_hexWords isStart, hexLines, ← length_stepRange] at inside
  have found := getElem?_stepRange inRange
  rw [List.getElem?_eq_getElem inRange, Option.some.injEq] at found
  simp only [hexWords, isStart, Option.getD_some, List.getElem_map, found]

/-- The file of an image that is not empty. -/
theorem memoryDictToRtlHex_eq (nonempty : image.keys ≠ []) :
    memoryDictToRtlHex image symbols =
      .ok (List.intercalate ['\n'] ((hexWords image symbols).map (numeral 16 16)) ++ ['\n']) :=
  if_neg nonempty

theorem loadHex_eq {hexfile : Text} (isStart : symbols "_start" = some start)
    (isStop : symbols "_end_main" = some stop) :
    loadHex hexfile symbols =
      (stepRange start (stop + 36) 8).zipIdx.foldlM (loadLine (readlines hexfile)) setBootrom := by
  rw [loadHex, lookup, lookup, isStart, isStop]
  rfl

theorem le_hexLines_iff : (stepRange start stop 8).length ≤ hexLines image start ↔
    stop ≤ start + 8 * hexLines image start := by
  rw [length_stepRange]
  omega

theorem keys_ne_nil {hexfile : Text} (written : memoryDictToRtlHex image symbols = .ok hexfile) :
    image.keys ≠ [] := by
  intro empty
  rw [memoryDictToRtlHex, if_pos empty] at written
  cases written

/-- The host loads a file with a line for every address. -/
theorem loadHex_reaches {hexfile : Text} (isStart : symbols "_start" = some start)
    (isStop : symbols "_end_main" = some stop)
    (written : memoryDictToRtlHex image symbols = .ok hexfile)
    (reaches : stop + 36 ≤ start + 8 * hexLines image start) :
    loadHex hexfile symbols = .ok (setBootrom.setAll (hexEntries image start (stop + 36))) := by
  rw [loadHex_eq isStart isStop]
  have few := le_hexLines_iff.mpr reaches
  cases hexfile_eq : Except.ok.inj ((memoryDictToRtlHex_eq (keys_ne_nil written)).symm.trans written)
  by_cases empty : hexWords image symbols = []
  · have none : stepRange start (stop + 36) 8 = [] := by
      apply List.eq_nil_of_length_eq_zero
      rw [← length_hexWords isStart, empty] at few
      exact Nat.le_zero.mp few
    rw [hexEntries, none]
    rfl
  · have values : ∀ turn ∈ (stepRange start (stop + 36) 8).zipIdx,
        lineNumber ((hexWords image symbols).map fun word => line (numeral 16 16 word)) turn.2 =
          .ok (image.getD (alignDown turn.1) 0) := by
      rintro ⟨addr, i⟩ mem
      have found := List.mem_zipIdx_iff_getElem?.mp mem
      have inRange := (List.getElem?_eq_some_iff.mp found).1
      have isAddr : addr = start + 8 * i :=
        Option.some.inj (found.symm.trans (getElem?_stepRange inRange))
      have inside : i < (hexWords image symbols).length := by
        rw [length_hexWords isStart]
        exact inRange.trans_le few
      rw [lineNumber_numerals inside, getElem_hexWords isStart inside, isAddr]
    rw [readlines_numerals empty, foldlM_set (loadLine_eq _) values]
    have entries : (stepRange start (stop + 36) 8).zipIdx.map
        (fun turn => (turn.1, image.getD (alignDown turn.1) 0)) =
        hexEntries image start (stop + 36) := by
      conv_rhs => rw [hexEntries, ← List.zipIdx_map_fst 0 (stepRange start (stop + 36) 8)]
      rw [List.map_map]
      rfl
    rw [entries]

/-- The host raises on a file with too few lines. -/
theorem loadHex_short {hexfile : Text} (isStart : symbols "_start" = some start)
    (isStop : symbols "_end_main" = some stop)
    (written : memoryDictToRtlHex image symbols = .ok hexfile)
    (short : start + 8 * hexLines image start < stop + 36) :
    loadHex hexfile symbols =
      .error (if hexEnd image ≤ start then .valueError else .indexError) := by
  rw [loadHex_eq isStart isStop]
  have many : hexLines image start < (stepRange start (stop + 36) 8).length := by
    rw [← Nat.not_le, le_hexLines_iff, Nat.not_le]
    exact short
  cases hexfile_eq : Except.ok.inj ((memoryDictToRtlHex_eq (keys_ne_nil written)).symm.trans written)
  have noLines : hexEnd image ≤ start ↔ hexWords image symbols = [] := by
    rw [← List.length_eq_zero_iff, length_hexWords isStart, hexLines]
    omega
  by_cases empty : hexWords image symbols = []
  · rw [if_pos (noLines.mpr empty), empty]
    cases range : stepRange start (stop + 36) 8 with
    | nil =>
        rw [range] at many
        exact absurd many (Nat.not_lt_zero _)
    | cons addr addrs =>
        have raises : lineNumber (readlines (List.intercalate ['\n'] [] ++ ['\n'])) 0 =
            .error .valueError := by decide
        rw [List.zipIdx_cons, List.foldlM_cons, loadLine_eq, List.map_nil, raises]
        rfl
  · rw [if_neg (noLines.not.mpr empty), readlines_numerals empty]
    rcases foldlM_set_cases (stepRange start (stop + 36) 8).zipIdx
      (loadLine_eq ((hexWords image symbols).map fun word => line (numeral 16 16 word)))
      setBootrom with all | ⟨turn, _, raised, raises, result⟩
    · have mem : (start + 8 * hexLines image start, hexLines image start) ∈
          (stepRange start (stop + 36) 8).zipIdx :=
        List.mem_zipIdx_iff_getElem?.mpr (getElem?_stepRange many)
      rcases all _ mem with ⟨word, isWord⟩
      rw [lineNumber_past (length_hexWords isStart).le] at isWord
      cases isWord
    · have isIndex : raised = .indexError := by
        by_cases inside : turn.2 < (hexWords image symbols).length
        · rw [lineNumber_numerals inside] at raises
          cases raises
        · rw [lineNumber_past (Nat.not_lt.mp inside)] at raises
          exact (Except.error.inj raises).symm
      rw [result, isIndex]

end Load

/-! ## Bytes -/

section Bytes

variable {image : Dict Nat Nat} {symbols : Symbols} {start stop : Nat}

/-- A word that the host loads. -/
theorem lastOf_hexEntries {addr : Nat} (loaded : addr ∈ stepRange start stop 8) :
    Dict.lastOf addr (hexEntries image start stop) = some (image.getD (alignDown addr) 0) :=
  Dict.lastOf_map loaded fun addr => image.getD (alignDown addr) 0

theorem lastOf_hexEntries_eq_none {addr : Nat} (other : addr ∉ stepRange start stop 8) :
    Dict.lastOf addr (hexEntries image start stop) = none := by
  rw [Dict.lastOf_eq_none_iff, hexEntries, List.map_map]
  simpa using other

/-- The words that the host loads from an aligned address on. -/
theorem mem_stepRange_of_aligned {addr : Nat} (isAligned : 8 ∣ start) (wordAligned : 8 ∣ addr) :
    addr ∈ stepRange start stop 8 ↔ start ≤ addr ∧ addr < stop := by
  rw [mem_stepRange (by decide)]
  constructor
  · rintro ⟨j, rfl, below⟩
    exact ⟨Nat.le_add_right _ _, below⟩
  · rintro ⟨above, below⟩
    rcases Nat.dvd_sub wordAligned isAligned with ⟨j, offset⟩
    exact ⟨j, by omega, below⟩

theorem notMem_stepRange_of_misaligned {addr : Nat} (misaligned : ¬ 8 ∣ start)
    (wordAligned : 8 ∣ addr) : addr ∉ stepRange start stop 8 := by
  rw [mem_stepRange (by decide)]
  rintro ⟨j, rfl, _⟩
  exact misaligned ((Nat.dvd_add_iff_left (Nat.dvd_mul_right 8 j)).mpr wordAligned)

/-- The memory after loading shows the bytes of the image when the program starts at a word, and
those of the boot ROM otherwise. -/
theorem byteIn_loaded {b : Nat} (above : start ≤ b) (below : b < stop) :
    byteIn (setBootrom.setAll (hexEntries image start stop)) b =
      if 8 ∣ start then byteIn image b else byteIn setBootrom b := by
  have wordAligned : 8 ∣ b / 8 * 8 := Nat.dvd_mul_left 8 _
  have word : byteIn (setBootrom.setAll (hexEntries image start stop)) b =
      byteAt ((setBootrom.setAll (hexEntries image start stop)).getD (b / 8 * 8) 0) (b % 8) := rfl
  rw [word, Dict.getD_setAll]
  split
  · rename_i isAligned
    have loaded : b / 8 * 8 ∈ stepRange start stop 8 := by
      rw [mem_stepRange_of_aligned isAligned wordAligned]
      omega
    rw [lastOf_hexEntries loaded, Option.getD_some, alignDown_eq,
      Nat.mul_div_cancel _ (by decide)]
    rfl
  · rename_i misaligned
    rw [lastOf_hexEntries_eq_none (notMem_stepRange_of_misaligned misaligned wordAligned)]
    rfl

/-- Loading the hex file finds all its lines and shows the bytes of the image from `_start` to
36 bytes after `_end_main` exactly when the lines reach that far, and the program starts at a
word or its bytes are those of the boot ROM. -/
theorem loadHex_shows_iff (isStart : symbols "_start" = some start)
    (isStop : symbols "_end_main" = some stop) (below : ∃ addr ∈ image.keys, start ≤ addr) :
    (∃ hexfile memory, memoryDictToRtlHex image symbols = .ok hexfile ∧
        loadHex hexfile symbols = .ok memory ∧
        ∀ b, start ≤ b → b < stop + 36 → byteIn memory b = byteIn image b) ↔
      stop + 36 ≤ start + 8 * hexLines image start ∧
        (8 ∣ start ∨
          ∀ b, start ≤ b → b < stop + 36 → byteIn image b = byteIn setBootrom b) := by
  have nonempty : image.keys ≠ [] := by
    rcases below with ⟨addr, mem, _⟩
    exact List.ne_nil_of_mem mem
  have isWritten := @memoryDictToRtlHex_eq image symbols nonempty
  constructor
  · rintro ⟨hexfile, memory, written, loaded, shows⟩
    have reaches : stop + 36 ≤ start + 8 * hexLines image start := by
      by_contra short
      rw [loadHex_short isStart isStop written (Nat.not_le.mp short)] at loaded
      cases loaded
    rw [loadHex_reaches isStart isStop written reaches] at loaded
    cases loaded
    refine ⟨reaches, ?_⟩
    by_cases isAligned : 8 ∣ start
    · exact Or.inl isAligned
    · right
      intro b above inside
      rw [← shows b above inside, byteIn_loaded above inside, if_neg isAligned]
  · rintro ⟨reaches, same⟩
    refine ⟨_, _, isWritten, loadHex_reaches isStart isStop isWritten reaches, ?_⟩
    intro b above inside
    rw [byteIn_loaded above inside]
    split
    · rfl
    · rename_i misaligned
      exact ((same.resolve_left misaligned) b above inside).symm

/-- Programs with the given addresses. -/
def bareSymbols (start stop : Nat) : Symbols := fun name =>
  if name = "_start" then some start else if name = "_end_main" then some stop else none

/-- A program whose last word is less than 36 bytes after `_end_main`, and one that does not
start at a word. -/
theorem loadHex_fails :
    let short : Dict Nat Nat := Dict.empty.set 0x80000000 0x6f
    let odd : Dict Nat Nat := (Dict.empty.set 0x80000000 (0x6f <<< 32)).set 0x80000028 0
    (∃ hexfile, memoryDictToRtlHex short (bareSymbols 0x80000000 0x80000004) = .ok hexfile ∧
      loadHex hexfile (bareSymbols 0x80000000 0x80000004) = .error .indexError) ∧
    ∃ hexfile memory, memoryDictToRtlHex odd (bareSymbols 0x80000004 0x80000008) = .ok hexfile ∧
      loadHex hexfile (bareSymbols 0x80000004 0x80000008) = .ok memory ∧
      byteIn memory 0x80000004 = 0 ∧ byteIn odd 0x80000004 = 0x6f := by
  intro short odd
  constructor
  · have written := @memoryDictToRtlHex_eq short (bareSymbols 0x80000000 0x80000004) (by decide)
    have raises := loadHex_short rfl rfl written (by decide +kernel)
    rw [if_neg (by decide +kernel)] at raises
    exact ⟨_, written, raises⟩
  · have written := @memoryDictToRtlHex_eq odd (bareSymbols 0x80000004 0x80000008) (by decide)
    have loaded := loadHex_reaches rfl rfl written (by decide +kernel)
    refine ⟨_, _, written, loaded, ?_, by decide +kernel⟩
    rw [byteIn_loaded (by decide) (by decide), if_neg (by decide)]
    decide +kernel

/-- A program of six words that starts at a word. -/
theorem loadHex_shows_iff_aligned :
    let image : Dict Nat Nat := (Dict.empty.set 0x80000000 0x6f).set 0x80000028 0
    ∃ hexfile memory, memoryDictToRtlHex image (bareSymbols 0x80000000 0x80000004) = .ok hexfile ∧
      loadHex hexfile (bareSymbols 0x80000000 0x80000004) = .ok memory ∧
      ∀ b, 0x80000000 ≤ b → b < 0x80000004 + 36 → byteIn memory b = byteIn image b := by
  intro image
  have below : ∃ addr ∈ image.keys, 0x80000000 ≤ addr := ⟨0x80000000, by decide, le_rfl⟩
  have aligned : 8 ∣ 0x80000000 := by decide
  exact (loadHex_shows_iff rfl rfl below).mpr ⟨by decide +kernel, Or.inl aligned⟩

end Bytes

end Difftest.Host
