import Difftest.Host.DataWords

/-!
# The memory in which the RTL starts

The setup of the host writes the memory in a fixed order: the boot ROM, the lines of the hex
file, the zeros of `tohost` and of the signature, and the data words.  The last one that writes
a word decides what the RTL finds there.
-/

namespace Difftest.Host

open Difftest.Text Difftest.Signature

/-! ## Accepted programs -/

/-- The addresses of the symbols that the setup looks up. -/
structure Addresses where
  start : Nat
  stop : Nat
  tohost : Nat
  sigStart : Nat
  sigEnd : Nat
  sections : Nat → Nat × Nat

/-- The symbols have these addresses. -/
structure Addresses.Resolves (addresses : Addresses) (symbols : Symbols) : Prop where
  start : symbols "_start" = some addresses.start
  stop : symbols "_end_main" = some addresses.stop
  tohost : symbols "tohost" = some addresses.tohost
  sigStart : symbols "begin_signature" = some addresses.sigStart
  sigEnd : symbols "end_signature" = some addresses.sigEnd
  sections : ∀ n < 6, sectionRange symbols n = some (addresses.sections n)

/-- An accepted program with the symbol `_start` has all addresses. -/
theorem exists_resolves {symbols : Symbols} (accepted : hasSignatureSymbols symbols = true)
    {start : Nat} (isStart : symbols "_start" = some start) :
    ∃ addresses : Addresses, addresses.Resolves symbols ∧ addresses.start = start := by
  have required : ∀ name ∈ requiredSymbols, ∃ addr, symbols name = some addr := by
    intro name mem
    exact Option.isSome_iff_exists.mp (List.all_eq_true.mp accepted name mem)
  rcases required "_end_main" (by decide) with ⟨stop, isStop⟩
  rcases required "tohost" (by decide) with ⟨tohost, isTohost⟩
  rcases required "begin_signature" (by decide) with ⟨sigStart, isSigStart⟩
  rcases required "end_signature" (by decide) with ⟨sigEnd, isSigEnd⟩
  have ranges : ∀ n < 6, ∃ range, sectionRange symbols n = some range := by
    intro n below
    have starts : ∀ n < 6, dataStartSymbol n ∈ requiredSymbols := by decide
    have ends : ∀ n < 6, dataEndSymbol n ∈ requiredSymbols := by decide
    rcases required _ (starts n below) with ⟨dataStart, isDataStart⟩
    rcases required _ (ends n below) with ⟨dataEnd, isDataEnd⟩
    refine ⟨(dataStart, dataEnd), ?_⟩
    rw [sectionRange, isDataStart, isDataEnd]
    rfl
  refine ⟨⟨start, stop, tohost, sigStart, sigEnd, fun n => (sectionRange symbols n).getD (0, 0)⟩,
    ⟨isStart, isStop, isTohost, isSigStart, isSigEnd, ?_⟩, rfl⟩
  intro n below
  rcases ranges n below with ⟨range, isRange⟩
  simp only [isRange, Option.getD_some]

/-- An accepted program counts as wrapped. -/
theorem isPreinstrumented_of_accepted {symbols : Symbols}
    (accepted : hasSignatureSymbols symbols = true) : isPreinstrumented symbols = false := by
  have required := List.all_eq_true.mp accepted (dataStartSymbol 0) (by decide)
  have found : (List.range 6).any (fun i => (symbols (dataStartSymbol i)).isSome) = true :=
    List.any_eq_true.mpr ⟨0, by decide, required⟩
  rw [isPreinstrumented, found, Bool.not_true, Bool.and_false]

theorem buildRtlInputBundle_of_accepted {symbols : Symbols}
    (accepted : hasSignatureSymbols symbols = true) (hexfile : Text) (image : Dict Nat Nat)
    (headers : String → Option (Nat × Nat)) :
    buildRtlInputBundle symbols hexfile (some image) headers =
      ⟨hexfile, (extractDataWords symbols (some image) []).1, symbols, []⟩ := by
  have noRanges : (extractDataWords symbols (some image) []).2 = [] := by rw [extractDataWords_eq]
  simp only [buildRtlInputBundle, isPreinstrumented_of_accepted accepted, Bool.false_eq_true,
    if_false, noRanges]

/-! ## The whole setup -/

/-- The zeros of `tohost` and of the signature. -/
def clearedEntries (addresses : Addresses) : List (Nat × Nat) :=
  (addresses.tohost, 0) ::
    (stepRange (addresses.sigStart / 8 * 8) addresses.sigEnd 8).map fun addr => (addr, 0)

/-- Everything that the setup writes after the boot ROM, in order. -/
def setupEntries (symbols : Symbols) (image : Dict Nat Nat) (addresses : Addresses) :
    List (Nat × Nat) :=
  hexEntries image addresses.start (addresses.stop + 36) ++ clearedEntries addresses ++
    storedWords (extractDataWords symbols (some image) []).1 (stores addresses.sections 6)

/-- All positions of the walk over the sections lie inside the list of extracted words. -/
def InBounds (symbols : Symbols) (image : Dict Nat Nat) (sections : Nat → Nat × Nat) : Prop :=
  ∀ store ∈ stores sections 6, -(wordCount symbols image [] : Int) ≤ store.2 ∧
    store.2 < wordCount symbols image []

section Setup

variable {symbols : Symbols} {image : Dict Nat Nat} {addresses : Addresses} {hexfile : Text}

theorem clearSignature_eq (resolves : addresses.Resolves symbols) (memory : Dict Nat Nat) :
    clearSignature symbols memory = .ok (memory.setAll (clearedEntries addresses)) := by
  rw [clearSignature, lookup, lookup, lookup, resolves.tohost, resolves.sigStart, resolves.sigEnd,
    clearedEntries, Dict.setAll, List.foldl_cons, List.foldl_map]
  rfl

theorem inBounds_iff (sections : Nat → Nat × Nat) : InBounds symbols image sections ↔
    ∀ store ∈ stores sections 6, ∃ word,
      index? (extractDataWords symbols (some image) []).1 store.2 = some word := by
  simp only [index?_isSome_iff, length_extractDataWords, InBounds]

/-- The setup writes everything when the lines and the data words suffice. -/
theorem runTestSetup_ok (resolves : addresses.Resolves symbols)
    (written : memoryDictToRtlHex image symbols = .ok hexfile)
    (reaches : addresses.stop + 36 ≤ addresses.start + 8 * hexLines image addresses.start)
    (inBounds : InBounds symbols image addresses.sections) :
    runTestSetup ⟨hexfile, (extractDataWords symbols (some image) []).1, symbols, []⟩ =
      .ok (setBootrom.setAll (setupEntries symbols image addresses),
        (List.range 6).map addresses.sections) := by
  have found := (inBounds_iff addresses.sections).mp inBounds
  rw [runTestSetup, loadHex_reaches resolves.start resolves.stop written reaches, ok_bind,
    clearSignature_eq resolves, ok_bind, restoreData_wrapped]
  rcases @restoreSections_cases symbols addresses.sections
    (extractDataWords symbols (some image) []).1 6 resolves.sections
    ((setBootrom.setAll (hexEntries image addresses.start (addresses.stop + 36))).setAll
      (clearedEntries addresses)) with ⟨_, result⟩ | ⟨⟨store, mem, isNone⟩, _⟩
  · rw [result, setupEntries, Dict.setAll_append, Dict.setAll_append]
    rfl
  · rcases found store mem with ⟨word, isWord⟩
    cases isNone.symm.trans isWord

/-- The setup raises without `_start`. -/
theorem runTestSetup_noStart (noStart : symbols "_start" = none) (data : List Nat) :
    runTestSetup ⟨hexfile, data, symbols, []⟩ = .error .keyError := by
  have raises : loadHex hexfile symbols = .error .keyError := by
    rw [loadHex, lookup, noStart]
    rfl
  rw [runTestSetup, raises]
  rfl

/-- The setup raises when the lines do not suffice. -/
theorem runTestSetup_short (resolves : addresses.Resolves symbols)
    (written : memoryDictToRtlHex image symbols = .ok hexfile)
    (short : addresses.start + 8 * hexLines image addresses.start < addresses.stop + 36) :
    runTestSetup ⟨hexfile, (extractDataWords symbols (some image) []).1, symbols, []⟩ =
      .error (if hexEnd image ≤ addresses.start then .valueError else .indexError) := by
  rw [runTestSetup, loadHex_short resolves.start resolves.stop written short]
  rfl

/-- The setup raises when a position lies outside the data words. -/
theorem runTestSetup_outside (resolves : addresses.Resolves symbols)
    (written : memoryDictToRtlHex image symbols = .ok hexfile)
    (reaches : addresses.stop + 36 ≤ addresses.start + 8 * hexLines image addresses.start)
    (outside : ¬ InBounds symbols image addresses.sections) :
    runTestSetup ⟨hexfile, (extractDataWords symbols (some image) []).1, symbols, []⟩ =
      .error .indexError := by
  rw [runTestSetup, loadHex_reaches resolves.start resolves.stop written reaches, ok_bind,
    clearSignature_eq resolves, ok_bind, restoreData_wrapped]
  rcases @restoreSections_cases symbols addresses.sections
    (extractDataWords symbols (some image) []).1 6 resolves.sections
    ((setBootrom.setAll (hexEntries image addresses.start (addresses.stop + 36))).setAll
      (clearedEntries addresses)) with ⟨found, _⟩ | ⟨_, result⟩
  · exact absurd ((inBounds_iff addresses.sections).mpr found) outside
  · rw [result]
    rfl

/-- The word of the image that the host finds at a position of the data words. -/
def sourceWord (symbols : Symbols) (image : Dict Nat Nat) (index : Int) : Nat :=
  ((index? (extractedAddrs symbols image []) index).map fun addr => image.getD addr 0).getD 0

theorem mem_of_index? {α : Type} {list : List α} {index : Int} {word : α}
    (found : index? list index = some word) : word ∈ list := by
  rw [index?] at found
  split at found
  · exact List.mem_of_getElem? found
  · split at found
    · exact List.mem_of_getElem? found
    · cases found

/-- The data words are the words of the image at the extracted addresses, or zeros. -/
theorem index?_extractDataWords (index : Int) :
    (index? (extractDataWords symbols (some image) []).1 index).getD 0 =
      sourceWord symbols image index := by
  rw [extractDataWords_eq, sourceWord]
  by_cases empty : extractedAddrs symbols image [] = []
  · rw [if_pos empty, empty]
    have nothing : index? ([] : List Nat) index = none := by
      rw [index?]
      split
      · rfl
      · split <;> rfl
    have zeros : ∀ word ∈ (List.range 6).flatMap (placeholders symbols), word = 0 := by
      intro word mem
      rcases List.mem_flatMap.mp mem with ⟨n, _, mem⟩
      rw [placeholders] at mem
      split at mem
      · cases mem
      · exact List.eq_of_mem_replicate mem
    rw [nothing]
    cases found : index? ((List.range 6).flatMap (placeholders symbols)) index with
    | none => rfl
    | some word => exact zeros word (mem_of_index? found)
  · rw [if_neg empty, index?_map]

/-- The words that the RTL is meant to find as the image has them: all but those of the boot
ROM, of `tohost` and of the signature. -/
structure Compared (tohost sigStart sigEnd addr : Nat) : Prop where
  aligned : 8 ∣ addr
  bootrom : ¬ (0x10000 ≤ addr ∧ addr < 0x10040)
  tohost : addr ≠ tohost / 8 * 8
  signature : ¬ (sigStart ≤ addr ∧ addr < sigEnd)

theorem getD_setBootrom {addr : Nat} (outside : ¬ (0x10000 ≤ addr ∧ addr < 0x10040)) :
    setBootrom.getD addr 0 = 0 := by
  have keys : ∀ key ∈ setBootrom.keys, 0x10000 ≤ key ∧ key < 0x10040 := by decide
  have absent : addr ∉ setBootrom.keys := fun mem => outside (keys addr mem)
  rw [mem_keys_iff_exists, ← Option.isSome_iff_exists, Option.not_isSome_iff_eq_none] at absent
  rw [Dict.getD, absent, Option.getD_none]

/-- The words in the range of the hex file that the zeros of the signature leave alone. -/
def Loaded (addresses : Addresses) (addr : Nat) : Prop :=
  8 ∣ addresses.start ∧ addresses.start ≤ addr ∧ addr < addresses.stop + 36 ∧
    ¬ (addresses.sigStart / 8 * 8 ≤ addr ∧ addr < addresses.sigEnd)

/-- What the RTL finds at a word: the last data word that is stored there, or else the word of
the image in the range of the hex file, or else zero. -/
theorem getD_setup {addr : Nat}
    (compared : Compared addresses.tohost addresses.sigStart addresses.sigEnd addr) :
    (Dict.lastOf addr (stores addresses.sections 6) = none → Loaded addresses addr →
      (setBootrom.setAll (setupEntries symbols image addresses)).getD addr 0 =
        image.getD addr 0) ∧
    (Dict.lastOf addr (stores addresses.sections 6) = none → ¬ Loaded addresses addr →
      (setBootrom.setAll (setupEntries symbols image addresses)).getD addr 0 = 0) ∧
    ∀ index, Dict.lastOf addr (stores addresses.sections 6) = some index →
      (setBootrom.setAll (setupEntries symbols image addresses)).getD addr 0 =
        sourceWord symbols image index := by
  have data : Dict.lastOf addr (storedWords (extractDataWords symbols (some image) []).1
      (stores addresses.sections 6)) =
      (Dict.lastOf addr (stores addresses.sections 6)).map (sourceWord symbols image) := by
    rw [storedWords, lastOf_map_value addr _ fun index =>
      (index? (extractDataWords symbols (some image) []).1 index).getD 0]
    simp only [index?_extractDataWords]
  have notTohost : addresses.tohost ≠ addr := by
    intro same
    apply compared.tohost
    rw [same, Nat.div_mul_cancel compared.aligned]
  have cleared : Dict.lastOf addr (clearedEntries addresses) =
      if addresses.sigStart / 8 * 8 ≤ addr ∧ addr < addresses.sigEnd then some 0 else none := by
    rw [clearedEntries, Dict.lastOf_cons, if_neg notTohost, Option.or_none]
    have inRange := @mem_stepRange_of_aligned (addresses.sigStart / 8 * 8) addresses.sigEnd addr
      (Nat.dvd_mul_left 8 _) compared.aligned
    split
    · rename_i inside
      exact Dict.lastOf_map (inRange.mpr inside) fun _ => 0
    · rename_i outside
      rw [Dict.lastOf_eq_none_iff, List.map_map]
      simpa using inRange.not.mpr outside
  have word : (setBootrom.setAll (setupEntries symbols image addresses)).getD addr 0 =
      (((Dict.lastOf addr (stores addresses.sections 6)).map (sourceWord symbols image)).or
        ((if addresses.sigStart / 8 * 8 ≤ addr ∧ addr < addresses.sigEnd then some 0 else none).or
          (Dict.lastOf addr (hexEntries image addresses.start (addresses.stop + 36))))).getD 0 := by
    rw [Dict.getD_setAll, setupEntries, Dict.lastOf_append, Dict.lastOf_append, data, cleared,
      getD_setBootrom compared.bootrom]
  rw [word]
  refine ⟨?_, ?_, ?_⟩
  · intro last loaded
    rcases loaded with ⟨isAligned, above, below, untouched⟩
    have mem := (@mem_stepRange_of_aligned addresses.start (addresses.stop + 36) addr isAligned
      compared.aligned).mpr ⟨above, below⟩
    rw [last, if_neg untouched, lastOf_hexEntries mem, alignDown_eq,
      Nat.div_mul_cancel compared.aligned]
    rfl
  · intro last notLoaded
    rw [last]
    split
    · rfl
    · rename_i untouched
      have notMem : addr ∉ stepRange addresses.start (addresses.stop + 36) 8 := by
        by_cases isAligned : 8 ∣ addresses.start
        · rw [mem_stepRange_of_aligned isAligned compared.aligned]
          exact fun inside => notLoaded ⟨isAligned, inside.1, inside.2, untouched⟩
        · exact notMem_stepRange_of_misaligned isAligned compared.aligned
      rw [lastOf_hexEntries_eq_none notMem]
      rfl
  · intro index last
    rw [last]
    rfl

/-- The word of the image at an address arrives in the RTL. -/
def Arrives (symbols : Symbols) (image : Dict Nat Nat) (addresses : Addresses) (addr : Nat) :
    Prop :=
  match Dict.lastOf addr (stores addresses.sections 6) with
  | some index => sourceWord symbols image index = image.getD addr 0
  | none => Loaded addresses addr ∨ image.getD addr 0 = 0

theorem getD_setup_eq_iff {addr : Nat}
    (compared : Compared addresses.tohost addresses.sigStart addresses.sigEnd addr) :
    (setBootrom.setAll (setupEntries symbols image addresses)).getD addr 0 = image.getD addr 0 ↔
      Arrives symbols image addresses addr := by
  have word := @getD_setup symbols image addresses addr compared
  rw [Arrives]
  cases last : Dict.lastOf addr (stores addresses.sections 6) with
  | some index => rw [word.2.2 index last]
  | none =>
      by_cases loaded : Loaded addresses addr
      · simp [word.1 last loaded, loaded]
      · simp [word.2.1 last loaded, loaded, eq_comm]

end Setup

/-! ## Start from the image -/

/-- The RTL starts from the image of an accepted program exactly when the setup goes through and
every word of the image arrives: the non-zero words that the data sections do not store lie in
the range of the hex file of a program that starts at a word, and the others are found at their
positions in the data words. -/
theorem startImage_iff {symbols : Symbols} {image : Dict Nat Nat} {tohost sigStart sigEnd : Nat}
    (accepted : hasSignatureSymbols symbols = true) (nonempty : image.keys ≠ [])
    (isTohost : symbols "tohost" = some tohost)
    (isSigStart : symbols "begin_signature" = some sigStart)
    (isSigEnd : symbols "end_signature" = some sigEnd) (headers : String → Option (Nat × Nat)) :
    (∃ hexfile memory ranges, memoryDictToRtlHex image symbols = .ok hexfile ∧
        runTestSetup (buildRtlInputBundle symbols hexfile (some image) headers) =
          .ok (memory, ranges) ∧
        ∀ addr, Compared tohost sigStart sigEnd addr → memory.getD addr 0 = image.getD addr 0) ↔
      ∃ addresses : Addresses, addresses.Resolves symbols ∧
        addresses.stop + 36 ≤ addresses.start + 8 * hexLines image addresses.start ∧
        InBounds symbols image addresses.sections ∧
        ∀ addr, Compared tohost sigStart sigEnd addr → Arrives symbols image addresses addr := by
  have same : ∀ addresses : Addresses, addresses.Resolves symbols →
      addresses.tohost = tohost ∧ addresses.sigStart = sigStart ∧ addresses.sigEnd = sigEnd := by
    intro addresses resolves
    exact ⟨Option.some.inj (resolves.tohost.symm.trans isTohost),
      Option.some.inj (resolves.sigStart.symm.trans isSigStart),
      Option.some.inj (resolves.sigEnd.symm.trans isSigEnd)⟩
  have arrives : ∀ addresses : Addresses, addresses.Resolves symbols → ∀ addr,
      Compared tohost sigStart sigEnd addr →
      ((setBootrom.setAll (setupEntries symbols image addresses)).getD addr 0 =
        image.getD addr 0 ↔ Arrives symbols image addresses addr) := by
    intro addresses resolves addr compared
    rcases same addresses resolves with ⟨rfl, rfl, rfl⟩
    exact getD_setup_eq_iff compared
  constructor
  · rintro ⟨hexfile, memory, ranges, written, isSetup, shows⟩
    rw [buildRtlInputBundle_of_accepted accepted] at isSetup
    cases isStart : symbols "_start" with
    | none =>
        rw [runTestSetup_noStart isStart] at isSetup
        cases isSetup
    | some start =>
        rcases exists_resolves accepted isStart with ⟨addresses, resolves, _⟩
        by_cases reaches :
            addresses.stop + 36 ≤ addresses.start + 8 * hexLines image addresses.start
        · by_cases inBounds : InBounds symbols image addresses.sections
          · rw [runTestSetup_ok resolves written reaches inBounds] at isSetup
            cases isSetup
            exact ⟨addresses, resolves, reaches, inBounds, fun addr compared =>
              (arrives addresses resolves addr compared).mp (shows addr compared)⟩
          · rw [runTestSetup_outside resolves written reaches inBounds] at isSetup
            cases isSetup
        · rw [runTestSetup_short resolves written (Nat.not_le.mp reaches)] at isSetup
          cases isSetup
  · rintro ⟨addresses, resolves, reaches, inBounds, all⟩
    have written := @memoryDictToRtlHex_eq image symbols nonempty
    have isSetup := runTestSetup_ok resolves written reaches inBounds
    rw [← buildRtlInputBundle_of_accepted accepted _ image headers] at isSetup
    exact ⟨_, _, _, written, isSetup, fun addr compared =>
      (arrives addresses resolves addr compared).mpr (all addr compared)⟩

/-! ## An instrumented program -/

/-- The symbols of an instrumented program with empty data sections. -/
def instrumentedTable (start : Option Nat) : List (String × Nat) :=
  (start.map fun addr => ("_start", addr)).toList ++
    [("_end_main", 0x80000100), ("tohost", 0x80001000), ("begin_signature", 0x80002000),
      ("end_signature", 0x800022f0)] ++
    (((List.range 32).map xregSymbol ++ (List.range 32).map fregSymbol ++
      csrNames.map csrSymbol).zipIdx.map fun slot => (slot.1, 0x80002000 + 8 * slot.2)) ++
    (List.range 6).flatMap fun n =>
      [(dataStartSymbol n, 0x80003000), (dataEndSymbol n, 0x80003000)]

/-- The lookup of these symbols. -/
def instrumentedSymbols (start : Option Nat) : Symbols := fun name =>
  Dict.find name (instrumentedTable start)

/-- The addresses of these symbols. -/
def instrumentedAddresses : Addresses :=
  ⟨0x80000000, 0x80000100, 0x80001000, 0x80002000, 0x800022f0, fun _ => (0x80003000, 0x80003000)⟩

theorem accepted_instrumented :
    hasSignatureSymbols (instrumentedSymbols (some 0x80000000)) = true := by
  decide +kernel

theorem resolves_instrumented :
    instrumentedAddresses.Resolves (instrumentedSymbols (some 0x80000000)) := by
  constructor <;> decide

/-- A word of an ordinary data section of an accepted program is missing in the RTL. -/
theorem startImage_loses_word :
    let image : Dict Nat Nat := (Dict.empty.set 0x80000000 0x6f).set 0x80004000 5
    ∃ hexfile memory ranges,
      memoryDictToRtlHex image (instrumentedSymbols (some 0x80000000)) = .ok hexfile ∧
      runTestSetup (buildRtlInputBundle (instrumentedSymbols (some 0x80000000)) hexfile (some image)
        fun _ => none) = .ok (memory, ranges) ∧
      Compared 0x80001000 0x80002000 0x800022f0 0x80004000 ∧
      memory.getD 0x80004000 0 = 0 ∧ image.getD 0x80004000 0 = 5 := by
  intro image
  have written := @memoryDictToRtlHex_eq image (instrumentedSymbols (some 0x80000000)) (by decide)
  have inBounds : InBounds (instrumentedSymbols (some 0x80000000)) image
      instrumentedAddresses.sections := by
    have noStores : stores instrumentedAddresses.sections 6 = [] := by rfl
    rw [InBounds, noStores]
    exact fun store mem => (List.not_mem_nil mem).elim
  have isSetup := runTestSetup_ok resolves_instrumented written (by decide +kernel) inBounds
  rw [← buildRtlInputBundle_of_accepted accepted_instrumented _ image fun _ => none] at isSetup
  have compared : Compared 0x80001000 0x80002000 0x800022f0 0x80004000 := by
    constructor <;> decide
  refine ⟨_, _, _, written, isSetup, compared, ?_, by rfl⟩
  have notLoaded : ¬ Loaded instrumentedAddresses 0x80004000 := by
    intro loaded
    exact absurd loaded.2.2.1 (by decide)
  exact (getD_setup compared).2.1 (by rfl) notLoaded

/-- A program whose words all lie in the range of the hex file. -/
theorem startImage_iff_code :
    let image : Dict Nat Nat := (Dict.empty.set 0x80000000 0x6f).set 0x80000120 0
    ∃ hexfile memory ranges,
      memoryDictToRtlHex image (instrumentedSymbols (some 0x80000000)) = .ok hexfile ∧
      runTestSetup (buildRtlInputBundle (instrumentedSymbols (some 0x80000000)) hexfile (some image)
        fun _ => none) = .ok (memory, ranges) ∧
      ∀ addr, Compared 0x80001000 0x80002000 0x800022f0 addr →
        memory.getD addr 0 = image.getD addr 0 := by
  intro image
  have noStores : stores instrumentedAddresses.sections 6 = [] := by rfl
  have inBounds : InBounds (instrumentedSymbols (some 0x80000000)) image
      instrumentedAddresses.sections := by
    rw [InBounds, noStores]
    exact fun store mem => (List.not_mem_nil mem).elim
  have arrives : ∀ addr, Compared 0x80001000 0x80002000 0x800022f0 addr →
      Arrives (instrumentedSymbols (some 0x80000000)) image instrumentedAddresses addr := by
    intro addr compared
    have last : Dict.lastOf addr (stores instrumentedAddresses.sections 6) = none := by
      rw [noStores]
      rfl
    rw [Arrives, last]
    by_cases isCode : addr = 0x80000000
    · left
      rw [isCode]
      refine ⟨?_, ?_, ?_, ?_⟩ <;> decide
    · right
      rw [Dict.getD, Dict.get?_set]
      split
      · rfl
      · rw [Dict.get?_set, if_neg isCode]
        rfl
  exact (startImage_iff accepted_instrumented (by decide) (by rfl) (by rfl)
    (by rfl) fun _ => none).mpr
    ⟨instrumentedAddresses, resolves_instrumented, by decide +kernel, inBounds, arrives⟩

end Difftest.Host
