import Difftest.Data.ByteMemory
import Difftest.Elf.Load

/-!
# The image of an ELF file

The dictionary is compared with the bytes the segments describe.  `Holds` ties
the two together; loading a segment overlays its file bytes and adds the words
it meets, whatever was loaded before, so the order of disjoint segments does not
matter.
-/

namespace Difftest.Elf

open ByteMemory

/-! ## Merging words -/

theorem testBit_byteMask (byteIdx i : Nat) {j : Nat} (inside : j < 8) :
    (0xff <<< (byteIdx * 8)).testBit (8 * i + j) = decide (i = byteIdx) := by
  have ones : (0xff : Nat) = 2 ^ 8 - 1 := rfl
  rw [Nat.testBit_shiftLeft, ones, Nat.testBit_two_pow_sub_one]
  by_cases same : i = byteIdx
  · have above : byteIdx * 8 ≤ 8 * i + j := by omega
    have below : 8 * i + j - byteIdx * 8 < 8 := by omega
    simp [same, same ▸ above, same ▸ below]
  · rcases Nat.lt_or_gt_of_ne same with before | behind
    · have low : ¬ byteIdx * 8 ≤ 8 * i + j := by omega
      simp [same, low]
    · have high : ¬ 8 * i + j - byteIdx * 8 < 8 := by omega
      simp [same, high]

/-- Copying a byte is a masked assignment. -/
theorem mergeByte_eq_splice (newWord existingWord byteIdx : Nat) :
    mergeByte newWord existingWord byteIdx =
      splice (0xff <<< (byteIdx * 8)) existingWord newWord := by
  have moved : ((newWord >>> (byteIdx * 8)) &&& 0xff) <<< (byteIdx * 8) =
      newWord &&& 0xff <<< (byteIdx * 8) := by
    apply Nat.eq_of_testBit_eq
    intro i
    simp only [Nat.testBit_shiftLeft, Nat.testBit_and, Nat.testBit_shiftRight]
    by_cases above : byteIdx * 8 ≤ i
    · rw [Nat.add_sub_cancel' above]
      simp [above]
    · simp [above]
  rw [mergeByte, splice, moved]

theorem byteAt_mergeByte (newWord existingWord byteIdx i : Nat) :
    byteAt (mergeByte newWord existingWord byteIdx) i =
      if i = byteIdx then byteAt newWord i else byteAt existingWord i := by
  rw [mergeByte_eq_splice, byteAt_splice fun j inside => testBit_byteMask byteIdx i inside]
  simp

theorem mergeByte_lt {newWord existingWord : Nat} (newFits : newWord < 2 ^ 64)
    (existingFits : existingWord < 2 ^ 64) (byteIdx : Nat) :
    mergeByte newWord existingWord byteIdx < 2 ^ 64 := by
  rw [mergeByte_eq_splice]
  exact splice_lt existingFits newFits

theorem isSegByte_iff (addrOffset segLen position : Nat) :
    isSegByte addrOffset segLen position = true ↔
      addrOffset ≤ position ∧ position < addrOffset + segLen := by
  rw [isSegByte, Bool.and_eq_true, decide_eq_true_iff, decide_eq_true_iff]
  omega

/-- The byte loop copies exactly the bytes of the segment. -/
theorem byteAt_mergeBytes (newWord existingWord addrOffset segLen i turns j : Nat) :
    byteAt (mergeBytes addrOffset segLen i newWord existingWord turns) j =
      if j < turns ∧ isSegByte addrOffset segLen (i + j) then byteAt newWord j
      else byteAt existingWord j := by
  unfold mergeBytes
  induction turns with
  | zero => simp
  | succ turns ih =>
      rw [List.range_succ, List.foldl_append, List.foldl_cons, List.foldl_nil]
      by_cases here : j = turns
      · rw [if_neg (by simp [here])] at ih
        by_cases copied : isSegByte addrOffset segLen (i + turns) = true
        · rw [if_pos copied, byteAt_mergeByte, if_pos here]
          simp [here, copied]
        · rw [if_neg copied, ih]
          simp [here, copied]
      · have later : j < turns + 1 ↔ j < turns := by omega
        simp only [later, ← ih]
        split
        · rw [byteAt_mergeByte, if_neg here]
        · rfl

theorem mergeBytes_lt {newWord existingWord : Nat} (newFits : newWord < 2 ^ 64)
    (existingFits : existingWord < 2 ^ 64) (addrOffset segLen i turns : Nat) :
    mergeBytes addrOffset segLen i newWord existingWord turns < 2 ^ 64 := by
  unfold mergeBytes
  induction turns with
  | zero => exact existingFits
  | succ turns ih =>
      rw [List.range_succ, List.foldl_append, List.foldl_cons, List.foldl_nil]
      split
      · exact mergeByte_lt newFits ih turns
      · exact ih

/-! ## Dictionaries and bytes -/

/-- The dictionary has the given words, with the given bytes. -/
structure Holds (memory : Dict Nat Nat) (covers : Nat → Prop) (bytes : ByteMemory) : Prop where
  keys : ∀ addr, addr ∈ memory.keys ↔ covers addr
  words : Represents 8 (fun addr => memory.getD addr 0) bytes

theorem holds_empty : Holds Dict.empty (fun _ => False) (fun _ => 0) := by
  constructor
  · intro addr
    simp [Dict.keys, Dict.empty]
  · constructor
    · intro base _
      exact Nat.pow_pos (by decide)
    · intro base _ j _
      exact byteAt_zero j

theorem Holds.congr {memory : Dict Nat Nat} {covers covers' : Nat → Prop}
    {bytes bytes' : ByteMemory} (holds : Holds memory covers bytes)
    (sameWords : ∀ addr, covers addr ↔ covers' addr) (sameBytes : ∀ addr, bytes addr = bytes' addr) :
    Holds memory covers' bytes' := by
  constructor
  · exact fun addr => (holds.keys addr).trans (sameWords addr)
  · rw [← show bytes = bytes' from funext sameBytes]
    exact holds.words

section Place

variable {memory : Dict Nat Nat} {covers : Nat → Prop} {bytes : ByteMemory}

/-- A word is assigned some of its bytes. -/
theorem Holds.set (holds : Holds memory covers bytes) {addr value data : Nat} (aligned : 8 ∣ addr)
    {lanes : Nat → Bool} (fits : value < 2 ^ 64)
    (assigned : ∀ j < 8, byteAt value j =
      if lanes j then byteAt data j else byteAt (memory.getD addr 0) j) :
    Holds (memory.set addr value) (fun other => other = addr ∨ covers other)
      (bytes.write 8 addr lanes data) := by
  constructor
  · intro other
    rw [Dict.mem_keys_set, holds.keys]
  · have words := holds.words.assign aligned fits assigned
    have same : (fun other => (memory.set addr value).getD other 0) =
        fun other => if other = addr then value else memory.getD other 0 :=
      funext fun other => Dict.getD_set memory addr other value 0
    rw [same]
    exact words

theorem Holds.setDefault (holds : Holds memory covers bytes) (addr : Nat) :
    Holds (memory.setDefault addr 0) (fun other => other = addr ∨ covers other) bytes := by
  constructor
  · intro other
    unfold Dict.setDefault
    cases present : memory.get? addr with
    | some value =>
        have known : covers addr :=
          (holds.keys addr).mp ((Dict.mem_keys_iff memory addr).mpr (by rw [present]; rfl))
        rw [holds.keys]
        constructor
        · exact Or.inr
        · rintro (rfl | held)
          · exact known
          · exact held
    | none =>
        dsimp only
        rw [Dict.mem_keys_set, holds.keys]
  · have same : (fun other => (memory.setDefault addr 0).getD other 0) =
        fun other => memory.getD other 0 :=
      funext fun other => Dict.getD_setDefault memory addr other 0
    rw [same]
    exact holds.words

/-! ## File data -/

/-- The first bytes of a memory, up to a limit, come from the data at `vaddr`. -/
def overlay (vaddr : Nat) (data : List UInt8) (limit : Nat) (bytes : ByteMemory) : ByteMemory :=
  fun addr =>
    if vaddr ≤ addr ∧ addr < vaddr + data.length ∧ addr < limit then byteOf data (addr - vaddr)
    else bytes addr

theorem length_padToWord (data : List UInt8) :
    (padToWord data).length = 8 * ((data.length + 7) / 8) := by
  unfold padToWord
  split
  · rw [List.length_append, List.length_replicate]
    omega
  · omega

theorem byteOf_padToWord (data : List UInt8) (index : Nat) :
    byteOf (padToWord data) index = byteOf data index := by
  unfold padToWord
  split
  · rw [byteOf_append]
    split
    · rfl
    · rename_i outside
      rw [byteOf_replicate_zero, byteOf, List.getD_eq_default _ _ (Nat.not_lt.mp outside)]
      rfl
  · rfl

theorem length_paddedData (addrOffset : Nat) (segData : List UInt8) :
    (paddedData addrOffset segData).length = 8 * ((addrOffset + segData.length + 7) / 8) := by
  rw [paddedData, length_padToWord]
  split
  · rw [List.length_append, List.length_replicate]
  · rename_i unpadded
    rw [Nat.eq_zero_of_not_pos unpadded, Nat.zero_add]

theorem byteOf_paddedData (addrOffset : Nat) (segData : List UInt8) (index : Nat) :
    byteOf (paddedData addrOffset segData) index =
      if isSegByte addrOffset segData.length index then byteOf segData (index - addrOffset) else 0 := by
  have padded : byteOf (paddedData addrOffset segData) index =
      byteOf (List.replicate addrOffset 0 ++ segData) index := by
    rw [paddedData, byteOf_padToWord]
    split
    · rfl
    · rename_i unpadded
      rw [Nat.eq_zero_of_not_pos unpadded]
      rfl
  rw [padded, byteOf_append, List.length_replicate]
  by_cases before : index < addrOffset
  · rw [if_pos before, byteOf_replicate_zero, if_neg]
    rw [isSegByte_iff]
    omega
  · rw [if_neg before]
    split
    · rfl
    · rename_i outside
      rw [isSegByte_iff] at outside
      rw [byteOf, List.getD_eq_default _ _ (by omega)]
      rfl

/-- Placing a word overlays the segment's bytes of that word. -/
theorem placeWord_holds {alignedAddr addrOffset : Nat} (aligned : 8 ∣ alignedAddr)
    (segData : List UInt8) {k : Nat}
    (holds : Holds memory covers
      (overlay (alignedAddr + addrOffset) segData (alignedAddr + 8 * k) bytes))
    (inside : k < (addrOffset + segData.length + 7) / 8) :
    ∃ memory', placeWord alignedAddr addrOffset segData memory (8 * k) = .ok memory' ∧
      Holds memory' (fun addr => addr = alignedAddr + 8 * k ∨ covers addr)
        (overlay (alignedAddr + addrOffset) segData (alignedAddr + 8 * (k + 1)) bytes) := by
  have enough : 8 * k + 8 ≤ (paddedData addrOffset segData).length := by
    rw [length_paddedData]
    omega
  let newWord := unpack .little 8 (paddedData addrOffset segData) (8 * k)
  have read : unpackFrom .little 8 (paddedData addrOffset segData) (8 * k) = .ok newWord :=
    unpackFrom_eq_ok enough
  have newFits : newWord < 2 ^ 64 := unpack_little_lt 8 (8 * k) _
  have newBytes : ∀ j < 8, byteAt newWord j =
      if isSegByte addrOffset segData.length (8 * k + j) then
        byteOf segData (8 * k + j - addrOffset) else 0 := by
    intro j below
    rw [byteAt_unpack_little _ below, byteOf_paddedData]
  have wordAligned : 8 ∣ alignedAddr + 8 * k := Nat.dvd_add aligned (Nat.dvd_mul_right 8 k)
  -- Both branches assign a word whose segment bytes are new and whose others are old.
  obtain ⟨value, placed, fits, assigned⟩ : ∃ value,
      placeWord alignedAddr addrOffset segData memory (8 * k) =
          .ok (memory.set (alignedAddr + 8 * k) value) ∧ value < 2 ^ 64 ∧
        ∀ j < 8, byteAt value j =
          if isSegByte addrOffset segData.length (8 * k + j) then byteAt newWord j
          else byteAt (memory.getD (alignedAddr + 8 * k) 0) j := by
    cases present : memory.get? (alignedAddr + 8 * k) with
    | some existingWord =>
        have known : memory.getD (alignedAddr + 8 * k) 0 = existingWord := by
          rw [Dict.getD, present]
          rfl
        have existingFits : existingWord < 2 ^ 64 := known ▸ holds.words.fits _ wordAligned
        refine ⟨mergeBytes addrOffset segData.length (8 * k) newWord existingWord 8, ?_,
          mergeBytes_lt newFits existingFits _ _ _ _, ?_⟩
        · rw [placeWord, if_pos enough, read]
          simp only [present]
          rfl
        · intro j below
          rw [byteAt_mergeBytes, known]
          simp [below]
    | none =>
        refine ⟨newWord, ?_, newFits, ?_⟩
        · rw [placeWord, if_pos enough, read]
          simp only [present]
          rfl
        · intro j below
          have absent : memory.getD (alignedAddr + 8 * k) 0 = 0 := by
            rw [Dict.getD, present]
            rfl
          rw [absent, byteAt_zero, newBytes j below]
          split
          · rfl
          · rfl
  refine ⟨_, placed, (holds.set wordAligned fits assigned).congr (fun _ => Iff.rfl) ?_⟩
  intro addr
  unfold write overlay
  by_cases here : alignedAddr + 8 * k ≤ addr ∧ addr < alignedAddr + 8 * k + 8
  · obtain ⟨j, rfl⟩ := Nat.exists_eq_add_of_le here.1
    have below : j < 8 := by omega
    rw [Nat.add_sub_cancel_left, newBytes j below]
    by_cases own : isSegByte addrOffset segData.length (8 * k + j) = true
    · have range := (isSegByte_iff _ _ _).mp own
      have position : alignedAddr + 8 * k + j - (alignedAddr + addrOffset) =
          8 * k + j - addrOffset := by omega
      rw [if_pos ⟨here.1, here.2, own⟩, if_pos own, if_pos (by omega), position]
    · have range : ¬ (addrOffset ≤ 8 * k + j ∧ 8 * k + j < addrOffset + segData.length) :=
        fun both => own ((isSegByte_iff _ _ _).mpr both)
      rw [if_neg (fun all => own all.2.2), if_neg (by omega), if_neg (by omega)]
  · rw [if_neg (fun all => here ⟨all.1, all.2.1⟩)]
    by_cases limit : addr < alignedAddr + 8 * k
    · have later : addr < alignedAddr + 8 * (k + 1) := by omega
      simp only [limit, later]
    · have later : ¬ addr < alignedAddr + 8 * (k + 1) := by omega
      simp only [limit, later]

/-- Placing the first words of a segment. -/
theorem placeWords_holds {alignedAddr addrOffset : Nat} (aligned : 8 ∣ alignedAddr)
    (segData : List UInt8) (holds : Holds memory covers bytes) {count : Nat}
    (inside : count ≤ (addrOffset + segData.length + 7) / 8) :
    ∃ memory', (List.range' 0 count 8).foldlM (placeWord alignedAddr addrOffset segData) memory =
        .ok memory' ∧
      Holds memory' (fun addr => (∃ k < count, addr = alignedAddr + 8 * k) ∨ covers addr)
        (overlay (alignedAddr + addrOffset) segData (alignedAddr + 8 * count) bytes) := by
  induction count with
  | zero =>
      refine ⟨memory, rfl, holds.congr ?_ ?_⟩
      · simp
      · intro addr
        rw [overlay, if_neg (by omega)]
  | succ count ih =>
      obtain ⟨middle, placed, before⟩ := ih (Nat.le_of_succ_le inside)
      obtain ⟨memory', last, after⟩ := placeWord_holds aligned segData before inside
      refine ⟨memory', ?_, after.congr ?_ fun _ => rfl⟩
      · rw [List.range'_concat, List.foldlM_append, placed, Nat.zero_add]
        change (placeWord alignedAddr addrOffset segData middle (8 * count) >>= pure) = _
        rw [bind_pure]
        exact last
      · intro addr
        simp only [Nat.lt_succ_iff_lt_or_eq]
        constructor
        · rintro (rfl | ⟨k, below, rfl⟩ | held)
          · exact Or.inl ⟨count, Or.inr rfl, rfl⟩
          · exact Or.inl ⟨k, Or.inl below, rfl⟩
          · exact Or.inr held
        · rintro (⟨k, below | rfl, rfl⟩ | held)
          · exact Or.inr (Or.inl ⟨k, below, rfl⟩)
          · exact Or.inl rfl
          · exact Or.inr (Or.inr held)

end Place

/-! ## Segments -/

/-- The word at an address meets the segment. -/
def Segment.Meets (seg : Segment) (addr : Nat) : Prop :=
  8 ∣ addr ∧ ∃ byte, addr ≤ byte ∧ byte < addr + 8 ∧
    seg.vaddr ≤ byte ∧ byte < seg.vaddr + seg.memsz

/-- The byte of the segment's file data at an address. -/
def Segment.fileByte (elfData : List UInt8) (seg : Segment) (addr : Nat) : Nat :=
  byteOf elfData (seg.offset + (addr - seg.vaddr))

/-- The address lies in the part of the segment that the file provides. -/
def Segment.InFile (seg : Segment) (addr : Nat) : Prop :=
  seg.vaddr ≤ addr ∧ addr < seg.vaddr + seg.filesz

instance (seg : Segment) (addr : Nat) : Decidable (seg.InFile addr) := by
  unfold Segment.InFile
  infer_instance

/-- A segment that occupies memory and whose data is in the file. -/
structure Segment.Loadable (elfData : List UInt8) (seg : Segment) : Prop where
  nonempty : 0 < seg.memsz
  fits : seg.filesz ≤ seg.memsz
  inside : seg.offset + seg.filesz ≤ elfData.length

/-- The bytes once the segment is loaded. -/
def Segment.image (elfData : List UInt8) (seg : Segment) (bytes : ByteMemory) : ByteMemory :=
  fun addr => if seg.InFile addr then seg.fileByte elfData addr else bytes addr

theorem alignedAddr_eq (seg : Segment) : seg.alignedAddr = seg.vaddr / 8 * 8 :=
  ldiff_two_pow_sub_one seg.vaddr 3

theorem zeroFill_holds {memory : Dict Nat Nat} {covers : Nat → Prop} {bytes : ByteMemory}
    (holds : Holds memory covers bytes) (seg : Segment) :
    Holds (zeroFill seg memory)
      (fun addr => (seg.filesz < seg.memsz ∧ ∃ k,
          addr = (seg.vaddr + seg.filesz) / 8 * 8 + 8 * k ∧ addr < seg.vaddr + seg.memsz) ∨
        covers addr) bytes := by
  have filled : ∀ (addrs : List Nat) {memory : Dict Nat Nat} {covers : Nat → Prop},
      Holds memory covers bytes →
        Holds (addrs.foldl (fun memory addr => memory.setDefault addr 0) memory)
          (fun addr => addr ∈ addrs ∨ covers addr) bytes := by
    intro addrs
    induction addrs with
    | nil =>
        intro memory covers holds
        exact holds.congr (fun addr => by simp) fun _ => rfl
    | cons first addrs ih =>
        intro memory covers holds
        refine (ih (holds.setDefault first)).congr (fun addr => ?_) fun _ => rfl
        rw [List.mem_cons, or_assoc]
        exact or_left_comm
  have aligned : Nat.ldiff (seg.vaddr + seg.filesz) 0x7 = (seg.vaddr + seg.filesz) / 8 * 8 :=
    ldiff_two_pow_sub_one _ 3
  unfold zeroFill
  split
  · rename_i bss
    refine (filled _ holds).congr (fun addr => ?_) fun _ => rfl
    rw [mem_stepRange (by decide), aligned]
    simp [bss]
  · rename_i full
    exact holds.congr (fun addr => by simp [Nat.not_lt.mp full]) fun _ => rfl

/-- A word meets the segment when it holds file data or zero-filled bytes. -/
theorem meets_iff {seg : Segment} (nonempty : 0 < seg.memsz) (fits : seg.filesz ≤ seg.memsz)
    (addr : Nat) :
    seg.Meets addr ↔
      (seg.filesz < seg.memsz ∧ ∃ k,
          addr = (seg.vaddr + seg.filesz) / 8 * 8 + 8 * k ∧ addr < seg.vaddr + seg.memsz) ∨
        ∃ k < (seg.addrOffset + seg.filesz + 7) / 8, addr = seg.alignedAddr + 8 * k := by
  have base := alignedAddr_eq seg
  have padding : seg.addrOffset = seg.vaddr - seg.alignedAddr := rfl
  constructor
  · rintro ⟨⟨word, rfl⟩, byte, above, below, first, last⟩
    by_cases filed : 8 * word < seg.alignedAddr + 8 * ((seg.addrOffset + seg.filesz + 7) / 8)
    · right
      exact ⟨word - seg.vaddr / 8, by omega, by omega⟩
    · left
      exact ⟨by omega, word - (seg.vaddr + seg.filesz) / 8, by omega, by omega⟩
  · rintro (⟨bss, k, rfl, below⟩ | ⟨k, below, rfl⟩)
    · refine ⟨by omega, max ((seg.vaddr + seg.filesz) / 8 * 8 + 8 * k) seg.vaddr, ?_⟩
      omega
    · refine ⟨by omega, max (seg.alignedAddr + 8 * k) seg.vaddr, ?_⟩
      omega

/-- Loading a segment overlays its file bytes and adds the words it meets. -/
theorem loadSegment_holds {elfData : List UInt8} {seg : Segment} (loadable : seg.Loadable elfData)
    {memory : Dict Nat Nat} {covers : Nat → Prop} {bytes : ByteMemory}
    (holds : Holds memory covers bytes) :
    ∃ memory', loadSegment elfData memory seg = .ok memory' ∧
      Holds memory' (fun addr => seg.Meets addr ∨ covers addr) (seg.image elfData bytes) := by
  have data : seg.segData elfData = (elfData.drop seg.offset).take seg.filesz :=
    if_pos loadable.inside
  have length : (seg.segData elfData).length = seg.filesz := by
    have inside := loadable.inside
    rw [data, List.length_take, List.length_drop]
    omega
  have base := alignedAddr_eq seg
  have start : seg.alignedAddr + seg.addrOffset = seg.vaddr := by
    rw [Segment.addrOffset]
    omega
  have aligned : 8 ∣ seg.alignedAddr := by
    rw [base]
    exact Nat.dvd_mul_left 8 _
  obtain ⟨placed, placing, after⟩ := @placeWords_holds _ _ _ _ seg.addrOffset aligned
    (seg.segData elfData) holds _ (Nat.le_refl _)
  have words : stepRange 0 (paddedData seg.addrOffset (seg.segData elfData)).length 8 =
      List.range' 0 ((seg.addrOffset + (seg.segData elfData).length + 7) / 8) 8 := by
    rw [length_paddedData]
    have counted := stepRange_add_mul 0 8
      ((seg.addrOffset + (seg.segData elfData).length + 7) / 8) (by decide)
    rw [Nat.zero_add] at counted
    exact counted
  rw [start] at after
  refine ⟨zeroFill seg placed, ?_, (zeroFill_holds after seg).congr ?_ ?_⟩
  · rw [loadSegment, placeData, words, placing]
    rfl
  · intro addr
    rw [length, meets_iff loadable.nonempty loadable.fits, or_assoc]
  · intro addr
    rw [overlay, length]
    by_cases filed : seg.InFile addr
    · have limit : addr < seg.alignedAddr + 8 * ((seg.addrOffset + seg.filesz + 7) / 8) := by
        have last := filed.2
        omega
      have within : addr - seg.vaddr < seg.filesz := by
        have last := filed.2
        have first := filed.1
        omega
      rw [if_pos ⟨filed.1, filed.2, limit⟩, data, byteOf_take_drop within, Segment.image,
        if_pos filed, Segment.fileByte]
    · rw [if_neg fun all => filed ⟨all.1, all.2.1⟩, Segment.image, if_neg filed]

/-- Loading the segments one after the other. -/
theorem loadSegments_holds {elfData : List UInt8} {segments : List Segment}
    (loadable : ∀ seg ∈ segments, seg.Loadable elfData) {memory : Dict Nat Nat}
    {covers : Nat → Prop} {bytes : ByteMemory} (holds : Holds memory covers bytes) :
    ∃ memory', segments.foldlM (loadSegment elfData) memory = .ok memory' ∧
      Holds memory' (fun addr => (∃ seg ∈ segments, seg.Meets addr) ∨ covers addr)
        (segments.foldl (fun bytes seg => seg.image elfData bytes) bytes) := by
  induction segments generalizing memory covers bytes with
  | nil => exact ⟨memory, rfl, holds.congr (fun addr => by simp) fun _ => rfl⟩
  | cons seg segments ih =>
      obtain ⟨middle, first, after⟩ := loadSegment_holds (loadable seg List.mem_cons_self) holds
      obtain ⟨memory', rest, done⟩ :=
        ih (fun other mem => loadable other (List.mem_cons_of_mem seg mem)) after
      refine ⟨memory', ?_, done.congr (fun addr => ?_) fun _ => rfl⟩
      · rw [List.foldlM_cons, first]
        exact rest
      · rw [List.exists_mem_cons_iff, or_assoc]
        exact or_left_comm

/-- The bytes of segments whose ranges are disjoint do not depend on their order. -/
theorem foldl_image {elfData : List UInt8} {segments : List Segment} {bytes : ByteMemory}
    {addr : Nat} (disjoint : segments.Pairwise fun first second => ¬ (first.InFile addr ∧
      second.InFile addr)) :
    (∀ seg ∈ segments, seg.InFile addr →
        segments.foldl (fun bytes seg => seg.image elfData bytes) bytes addr =
          seg.fileByte elfData addr) ∧
      ((∀ seg ∈ segments, ¬ seg.InFile addr) →
        segments.foldl (fun bytes seg => seg.image elfData bytes) bytes addr = bytes addr) := by
  induction segments generalizing bytes with
  | nil => simp
  | cons first segments ih =>
      rw [List.pairwise_cons] at disjoint
      obtain ⟨covered, uncovered⟩ := @ih (first.image elfData bytes) disjoint.2
      constructor
      · intro seg mem filed
        rcases List.mem_cons.mp mem with rfl | later
        · have others : ∀ other ∈ segments, ¬ other.InFile addr :=
            fun other mem second => disjoint.1 other mem ⟨filed, second⟩
          exact (uncovered others).trans (if_pos filed)
        · exact covered seg later filed
      · intro outside
        have others : ∀ other ∈ segments, ¬ other.InFile addr :=
          fun other mem => outside other (List.mem_cons_of_mem first mem)
        exact (uncovered others).trans (if_neg (outside first List.mem_cons_self))

end Difftest.Elf
