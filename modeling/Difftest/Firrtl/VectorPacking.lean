import Difftest.Firrtl.FindVecRegs
import Difftest.Firrtl.StatePacking

/-!
# Elements of vectors in the state

Element 0 of a vector gets an offset together with the scalar registers, and the other elements
share it.  They are looked up among the registers that were kept, although the vectors were made
from all control registers, and their widths are not compared with that of element 0.
-/

namespace Difftest.Firrtl

namespace ModuleInfo

/-- What the constructor of `InstrCov` computes: the size of the state and the offsets.  `regWidth`
raises on registers of other types. -/
def construct (info : ModuleInfo) (draws : List Nat) : Option (Nat × List (Elem × Nat)) :=
  if ∀ reg ∈ info.ctrlRegs, reg.tpe.isInt = true then
    (info.allOffsets draws).map fun offsets => (info.regStateSize draws, offsets)
  else none

/-- The instrumentation is made, and all elements of a vector lie in the state where element 0
lies. -/
structure PacksVectors (info : ModuleInfo) (draws : List Nat) : Prop where
  constructs : ∃ size offsets, info.construct draws = some (size, offsets)
  packed : ∀ size offsets, info.construct draws = some (size, offsets) →
    ∀ vec ∈ info.vecRegs, ∀ body ∈ vec.bodies, ∀ first offset,
      (.register first, offset) ∈ offsets → first.name = vec.elementName 0 body →
        ∀ i < vec.size, ∃ reg, (.register reg, offset) ∈ offsets ∧
          reg.name = vec.elementName i body ∧ offset + regWidth reg ≤ size

/-- The bits of all that gets an offset by itself. -/
def totBitWidth (info : ModuleInfo) : Nat := (info.elements.map Elem.width).sum

/-- The bits from a first element to the end of the state, at least. -/
def room (info : ModuleInfo) (first : Register) : Nat :=
  if info.totBitWidth ≤ maxStateSize then
    ((info.elements.dropWhile (· ≠ .register first)).map Elem.width).sum
  else regWidth first

/-- The last vector with its prefix and size stays in `firstVecRegs`. -/
def Chosen (info : ModuleInfo) (vec : VecRegs) : Prop :=
  ∃ before after, info.vecRegs = before ++ vec :: after ∧
    ∀ other ∈ after, (other.namePrefix, other.size) ≠ (vec.namePrefix, vec.size)

/-- The elements of a vector with some body get this offset. -/
structure Shares (info : ModuleInfo) (draws : List Nat) (vec : VecRegs) (body : String)
    (offset : Nat) : Prop where
  chosen : info.Chosen vec
  isBody : body ∈ vec.bodies
  first : ∃ first ∈ info.smallRegs, first.name = vec.elementName 0 body ∧
    (.register first, offset) ∈ info.ctrlOffsets draws

/-- Where element 0 is kept, all elements are kept and find room. -/
structure Packable (info : ModuleInfo) : Prop where
  ints : ∀ reg ∈ info.ctrlRegs, reg.tpe.isInt = true
  kept : ∀ vec, info.Chosen vec → ∀ body ∈ vec.bodies, ∀ first ∈ info.smallRegs,
    first.name = vec.elementName 0 body → 0 < info.totBitWidth ∧
      ∀ i < vec.size, ∃ reg ∈ info.smallRegs, reg.name = vec.elementName i body ∧
        regWidth reg ≤ info.room first

end ModuleInfo

/-! ## Offsets and the end of the state -/

/-- Behind an offset lie the bits of the element and of all that follow. -/
theorem offset_add_dropWhile {elems : List Elem} (distinct : elems.Nodup) {base offset : Nat}
    {elem : Elem} (mem : (elem, offset) ∈ packOffsets base elems) :
    offset + ((elems.dropWhile (· ≠ elem)).map Elem.width).sum =
      base + (elems.map Elem.width).sum := by
  induction elems generalizing base with
  | nil => cases mem
  | cons head elems inductionHypothesis =>
      rw [List.nodup_cons] at distinct
      rcases List.mem_cons.mp mem with isHead | later
      · cases isHead
        rw [List.dropWhile_cons_of_neg (by simp)]
      · have isElem : elem ∈ elems := by
          rw [← map_fst_packOffsets (base + head.width) elems]
          exact List.mem_map.mpr ⟨_, later, rfl⟩
        have other : head ≠ elem := fun same => distinct.1 (same ▸ isElem)
        rw [List.dropWhile_cons_of_pos (by simpa using other),
          inductionHypothesis distinct.2 later, List.map_cons, List.sum_cons, Nat.add_assoc]

/-- Some draws put an element at the end of the state. -/
theorem exists_drawOffsets {elems : List Elem} {elem : Elem} (mem : elem ∈ elems) :
    ∃ draws, (elem, maxStateSize - elem.width) ∈ drawOffsets draws elems := by
  rcases List.getElem_of_mem mem with ⟨i, below, isElem⟩
  refine ⟨List.replicate elems.length (maxStateSize - elem.width), ?_⟩
  rw [drawOffsets, List.mem_map]
  refine ⟨(elem, i), List.mk_mem_zipIdx_iff_getElem?.mpr ?_, ?_⟩
  · rw [List.getElem?_eq_getElem below, isElem]
  · have drawn : (List.replicate elems.length (maxStateSize - elem.width)).getD i 0 =
        maxStateSize - elem.width := by
      rw [List.getD_eq_getElem?_getD, List.getElem?_replicate, if_pos below, Option.getD_some]
    dsimp only
    rw [drawn, Nat.mod_eq_of_lt (Nat.lt_succ_self _)]

namespace ModuleInfo

variable {info : ModuleInfo} {draws : List Nat}

/-! ## Elements by name -/

theorem mem_vecRegNames {vec : VecRegs} (mem : vec ∈ info.vecRegs) {i : Nat} (below : i < vec.size)
    {body : String} (isBody : body ∈ vec.bodies) : vec.elementName i body ∈ info.vecRegNames := by
  rw [vecRegNames, List.mem_flatMap]
  refine ⟨vec, mem, List.mem_flatMap.mpr ⟨i, List.mem_range.mpr below, ?_⟩⟩
  exact List.mem_map.mpr ⟨body, isBody, rfl⟩

theorem Chosen.mem {vec : VecRegs} (chosen : info.Chosen vec) : vec ∈ info.vecRegs := by
  rcases chosen with ⟨before, after, parts, _⟩
  rw [parts]
  exact List.mem_append_right before List.mem_cons_self

/-- What stays in the map of the first elements. -/
theorem mem_firstVecRegs_iff {entry : (String × Nat) × List Register} :
    entry ∈ info.firstVecRegs.entries ↔
      ∃ vec, info.Chosen vec ∧ entry = ((vec.namePrefix, vec.size), info.firstRegs vec) := by
  rcases entry with ⟨key, firsts⟩
  rw [firstVecRegs, Dict.mem_entries_ofList_iff]
  constructor
  · rintro ⟨before, after, parts, last⟩
    rcases List.map_eq_append_iff.mp parts with ⟨before, vecs, isVecs, rfl, rest⟩
    rcases List.map_eq_cons_iff.mp rest with ⟨vec, after, rfl, isEntry, rfl⟩
    refine ⟨vec, ⟨before, after, isVecs, ?_⟩, isEntry.symm⟩
    intro other isOther same
    rw [← (Prod.mk.inj isEntry).1, ← same] at last
    exact last (List.mem_map.mpr ⟨_, List.mem_map.mpr ⟨other, isOther, rfl⟩, rfl⟩)
  · rintro ⟨vec, ⟨before, after, isVecs, last⟩, isEntry⟩
    cases isEntry
    rw [isVecs, List.map_append, List.map_cons]
    refine ⟨_, _, rfl, ?_⟩
    intro isKey
    rcases List.mem_map.mp isKey with ⟨_, isEntry, same⟩
    rcases List.mem_map.mp isEntry with ⟨other, isOther, rfl⟩
    exact last other isOther same

/-- The name of a first element shows its body. -/
theorem body_of_first {vec : VecRegs} {first : Register} {body : String}
    (isName : first.name = vec.elementName 0 body) :
    String.ofList (first.name.toList.drop (vec.namePrefix ++ "0").length) = body := by
  have parts : first.name.toList = (vec.namePrefix ++ "0").toList ++ body.toList := by
    rw [isName, ← String.toList_append]
    exact congrArg String.toList String.append_assoc.symm
  rw [parts, ← String.length_toList, List.drop_left, String.ofList_toList]

namespace Vectors

variable (vectors : info.Vectors)
include vectors

/-- The lookup finds the elements that are kept. -/
theorem find?_vectorRegs_iff {vec : VecRegs} (mem : vec ∈ info.vecRegs) {i : Nat}
    (below : i < vec.size) {body : String} (isBody : body ∈ vec.bodies) {reg : Register} :
    info.vectorRegs.find? (fun reg => reg.name = vec.elementName i body) = some reg ↔
      reg ∈ info.smallRegs ∧ reg.name = vec.elementName i body := by
  have unique : ∀ reg ∈ info.vectorRegs, ∀ reg' ∈ info.vectorRegs,
      reg.name = reg'.name → reg = reg' := fun reg isReg reg' isReg' =>
    vectors.unique reg (mem_ctrlRegs_of_smallRegs (List.mem_filter.mp isReg).1) reg'
      (mem_ctrlRegs_of_smallRegs (List.mem_filter.mp isReg').1)
  rw [find?_eq_some_iff_of_unique unique, vectorRegs, List.mem_filter, decide_eq_true_eq]
  constructor
  · rintro ⟨⟨small, _⟩, isName⟩
    exact ⟨small, isName⟩
  · rintro ⟨small, isName⟩
    exact ⟨⟨small, isName ▸ mem_vecRegNames mem below isBody⟩, isName⟩

theorem mem_firstRegs_iff {vec : VecRegs} (mem : vec ∈ info.vecRegs) {first : Register} :
    first ∈ info.firstRegs vec ↔
      ∃ body ∈ vec.bodies, first ∈ info.smallRegs ∧ first.name = vec.elementName 0 body := by
  rw [firstRegs, List.mem_filterMap]
  apply exists_congr
  intro body
  apply and_congr_right
  intro isBody
  have isName : vec.namePrefix ++ "0" ++ body = vec.elementName 0 body := String.append_assoc
  rw [isName]
  exact vectors.find?_vectorRegs_iff mem (vectors.size vec mem) isBody

/-- The elements that get an offset by themselves are different. -/
theorem nodup_elements : info.elements.Nodup := by
  have opts : info.optRegs.Nodup := (((vectors.distinct.filter _).filter _).filter _).filter _
  have regs : (info.optRegs ++ info.firstElements).Nodup := by
    apply opts.append (List.nodup_dedup _)
    intro reg isOpt isFirst
    exact not_mem_vectorRegs_of_scalaRegs (mem_optRegs_iff.mp isOpt).1
      (mem_vectorRegs_of_firstElements isFirst)
  have ctrls : info.unCoveredCtrlSigs.Nodup := (List.nodup_dedup _).filter _
  apply (regs.map fun reg reg' same => Elem.register.inj same).append
    (ctrls.map fun cond cond' same => Elem.ctrl.inj same)
  intro elem isRegister isCtrl
  rcases List.mem_map.mp isRegister with ⟨reg, _, rfl⟩
  rcases List.mem_map.mp isCtrl with ⟨cond, _, same⟩
  cases same

end Vectors

theorem totBitWidth_pos {entry : Elem × Nat} (mem : entry ∈ info.ctrlOffsets draws) :
    0 < info.totBitWidth := by
  apply Nat.pos_of_ne_zero
  intro none
  have empty : getRegState draws info.elements = (0, []) := if_pos none
  rw [ctrlOffsets, empty] at mem
  cases mem

/-- Elements that fit side by side are packed. -/
theorem getRegState_of_fits (positive : 0 < info.totBitWidth)
    (fits : info.totBitWidth ≤ maxStateSize) :
    getRegState draws info.elements = (info.totBitWidth, packOffsets 0 info.elements) :=
  (if_neg positive.ne').trans (if_pos fits)

/-- The offsets of others are drawn. -/
theorem getRegState_of_wide (wide : ¬ info.totBitWidth ≤ maxStateSize) :
    getRegState draws info.elements = (maxStateSize, drawOffsets draws info.elements) :=
  (if_neg (Nat.zero_lt_of_lt (Nat.lt_of_not_le wide)).ne').trans (if_neg wide)

/-- With some bits in total, every element gets an offset. -/
theorem exists_mem_ctrlOffsets (positive : 0 < info.totBitWidth) {elem : Elem}
    (mem : elem ∈ info.elements) : ∃ offset, (elem, offset) ∈ info.ctrlOffsets draws := by
  rw [← map_fst_getRegState_of_sum_pos draws positive] at mem
  rcases List.mem_map.mp mem with ⟨⟨_, offset⟩, isOffset, rfl⟩
  exact ⟨offset, isOffset⟩

/-- Only elements get offsets, and one each. -/
theorem Vectors.ctrlOffsets_unique (vectors : info.Vectors) {entry entry' : Elem × Nat}
    (mem : entry ∈ info.ctrlOffsets draws) (mem' : entry' ∈ info.ctrlOffsets draws)
    (same : entry.1 = entry'.1) : entry = entry' := by
  have only : (info.ctrlOffsets draws).map Prod.fst = info.elements :=
    map_fst_getRegState_of_sum_pos draws (totBitWidth_pos mem)
  have distinct := vectors.nodup_elements
  rw [← only] at distinct
  exact List.inj_on_of_nodup_map distinct mem mem' same

theorem mem_elements_of_ctrlOffsets {entry : Elem × Nat} (mem : entry ∈ info.ctrlOffsets draws) :
    entry.1 ∈ info.elements := by
  have only : (info.ctrlOffsets draws).map Prod.fst = info.elements :=
    map_fst_getRegState_of_sum_pos draws (totBitWidth_pos mem)
  rw [← only]
  exact List.mem_map.mpr ⟨entry, mem, rfl⟩

theorem register_mem_elements_iff {reg : Register} :
    .register reg ∈ info.elements ↔ reg ∈ info.optRegs ∨ reg ∈ info.firstElements := by
  simp [elements]

/-- The last vector with its prefix and size has its first elements among all of them. -/
theorem Chosen.mem_firstElements {vec : VecRegs} (chosen : info.Chosen vec) {first : Register}
    (mem : first ∈ info.firstRegs vec) : first ∈ info.firstElements :=
  mem_firstElements_iff.mpr ⟨_, mem_firstVecRegs_iff.mpr ⟨vec, chosen, rfl⟩, mem⟩

theorem regWidth_lt_of_smallRegs {reg : Register} (small : reg ∈ info.smallRegs) :
    regWidth reg < maxStateSize := by
  have bound := (List.mem_filter.mp small).2
  rwa [decide_eq_true_eq] at bound

/-- From the offset of a first element to the end of the state there is the room. -/
theorem offset_add_room_le (vectors : info.Vectors) {first : Register} {offset : Nat}
    (small : first ∈ info.smallRegs) (mem : (.register first, offset) ∈ info.ctrlOffsets draws) :
    offset + info.room first ≤ info.regStateSize draws := by
  have positive := totBitWidth_pos mem
  have narrow := regWidth_lt_of_smallRegs small
  rw [ctrlOffsets] at mem
  rw [regStateSize, room]
  by_cases fits : info.totBitWidth ≤ maxStateSize
  · rw [getRegState_of_fits positive fits] at mem ⊢
    have isEnd := offset_add_dropWhile vectors.nodup_elements mem
    rw [if_pos fits, isEnd, Nat.zero_add, totBitWidth]
  · rw [getRegState_of_wide fits] at mem ⊢
    rw [if_neg fits]
    rcases List.mem_map.mp mem with ⟨⟨elem, i⟩, _, isEntry⟩
    cases isEntry
    have drawn : draws.getD i 0 % (maxStateSize - regWidth first + 1) <
        maxStateSize - regWidth first + 1 := Nat.mod_lt _ (Nat.succ_pos _)
    rw [Elem.width]
    omega

/-- For some draws there is no more room than that. -/
theorem exists_offset_add_room (vectors : info.Vectors) {first : Register}
    (positive : 0 < info.totBitWidth) (small : first ∈ info.smallRegs)
    (mem : .register first ∈ info.elements) :
    ∃ draws offset, (.register first, offset) ∈ info.ctrlOffsets draws ∧
      offset + info.room first = info.regStateSize draws := by
  have narrow := regWidth_lt_of_smallRegs small
  by_cases fits : info.totBitWidth ≤ maxStateSize
  · rcases @exists_mem_ctrlOffsets info [] positive _ mem with ⟨offset, isOffset⟩
    refine ⟨[], offset, isOffset, ?_⟩
    rw [ctrlOffsets, getRegState_of_fits positive fits] at isOffset
    have isEnd := offset_add_dropWhile vectors.nodup_elements isOffset
    rw [regStateSize, getRegState_of_fits positive fits, room, if_pos fits, isEnd, Nat.zero_add,
      totBitWidth]
  · rcases exists_drawOffsets mem with ⟨draws, isOffset⟩
    refine ⟨draws, maxStateSize - regWidth first, ?_, ?_⟩
    · rw [ctrlOffsets, getRegState_of_wide fits]
      exact isOffset
    · rw [regStateSize, getRegState_of_wide fits, room, if_neg fits]
      exact Nat.sub_add_cancel narrow.le

/-! ## Shared offsets -/

namespace Vectors

variable (vectors : info.Vectors)
include vectors

/-- The body and the offset of a first element. -/
theorem bodyOffset_eq_some_iff {vec : VecRegs} {first : Register} {body : String}
    (isFirst : first ∈ info.firstElements) (isName : first.name = vec.elementName 0 body)
    {pair : String × Nat} :
    info.bodyOffset draws vec.namePrefix first = some pair ↔
      pair.1 = body ∧ (.register first, pair.2) ∈ info.ctrlOffsets draws := by
  have unique : ∀ entry ∈ info.firstVecOffsets draws, ∀ entry' ∈ info.firstVecOffsets draws,
      entry.1 = entry'.1 → entry = entry' := fun entry mem entry' mem' =>
    vectors.ctrlOffsets_unique (List.mem_filter.mp mem).1 (List.mem_filter.mp mem').1
  rw [bodyOffset, Option.map_eq_some_iff, body_of_first isName]
  constructor
  · rintro ⟨entry, found, rfl⟩
    rcases (find?_eq_some_iff_of_unique unique).mp found with ⟨mem, isEntry⟩
    refine ⟨rfl, ?_⟩
    rw [← isEntry]
    exact (List.mem_filter.mp mem).1
  · rintro ⟨isBody, mem⟩
    refine ⟨(.register first, pair.2), ?_, Prod.ext isBody.symm rfl⟩
    apply (find?_eq_some_iff_of_unique unique).mpr
    exact ⟨List.mem_filter.mpr ⟨mem, decide_eq_true isFirst⟩, rfl⟩

/-- The names listed for one vector share an offset for each body. -/
theorem mem_elementOffsets {vec : VecRegs} (chosen : info.Chosen vec)
    {list : List (String × Nat)}
    (listed : info.elementOffsets draws ((vec.namePrefix, vec.size), info.firstRegs vec) =
      some list) {name : String} {offset : Nat} :
    (name, offset) ∈ list ↔ ∃ body, info.Shares draws vec body offset ∧
      ∃ i < vec.size, name = vec.elementName i body := by
  rcases Option.map_eq_some_iff.mp listed with ⟨bodyOffsets, traversed, rfl⟩
  have isBody : ∀ body offset, (body, offset) ∈ bodyOffsets ↔
      info.Shares draws vec body offset := by
    intro body offset
    rw [mem_mapM_iff traversed]
    constructor
    · rintro ⟨first, isFirst, computed⟩
      rcases (vectors.mem_firstRegs_iff chosen.mem).mp isFirst with
        ⟨body', isBody, small, isName⟩
      rcases (vectors.bodyOffset_eq_some_iff (chosen.mem_firstElements isFirst) isName).mp
        computed with ⟨rfl, mem⟩
      exact ⟨chosen, isBody, first, small, isName, mem⟩
    · rintro ⟨_, isBody, first, small, isName, mem⟩
      have isFirst := (vectors.mem_firstRegs_iff chosen.mem).mpr ⟨body, isBody, small, isName⟩
      refine ⟨first, isFirst, ?_⟩
      exact (vectors.bodyOffset_eq_some_iff (chosen.mem_firstElements isFirst) isName).mpr
        ⟨rfl, mem⟩
  rw [List.mem_flatMap]
  constructor
  · rintro ⟨i, below, isEntry⟩
    rcases List.mem_map.mp isEntry with ⟨⟨body, offset⟩, mem, isEntry⟩
    cases isEntry
    exact ⟨body, (isBody body offset).mp mem, i, List.mem_range.mp below, rfl⟩
  · rintro ⟨body, shares, i, below, rfl⟩
    refine ⟨i, List.mem_range.mpr below, List.mem_map.mpr ⟨(body, offset), ?_, rfl⟩⟩
    exact (isBody body offset).mpr shares

/-- An element of a vector has one offset. -/
theorem shares_unique {vec vec' : VecRegs} {body body' : String} {offset offset' : Nat}
    (shares : info.Shares draws vec body offset) (shares' : info.Shares draws vec' body' offset')
    {i i' : Nat} (below : i < vec.size) (below' : i' < vec'.size)
    (same : vec.elementName i body = vec'.elementName i' body') :
    vec = vec' ∧ i = i' ∧ body = body' ∧ offset = offset' := by
  rcases vectors.apart vec shares.chosen.mem vec' shares'.chosen.mem i below i' below' body
    shares.isBody body' shares'.isBody same with ⟨rfl, rfl, rfl⟩
  rcases shares.first with ⟨first, small, isName, mem⟩
  rcases shares'.first with ⟨first', small', isName', mem'⟩
  have sameFirst := vectors.unique first (mem_ctrlRegs_of_smallRegs small) first'
    (mem_ctrlRegs_of_smallRegs small') (isName.trans isName'.symm)
  have sameEntry := vectors.ctrlOffsets_unique mem mem' (congrArg Elem.register sameFirst)
  exact ⟨rfl, rfl, rfl, congrArg Prod.snd sameEntry⟩

/-- The offsets by name. -/
theorem mem_vecNameOffsets {nameOffsets : Dict String Nat}
    (named : info.vecNameOffsets draws = some nameOffsets) {name : String} {offset : Nat} :
    (name, offset) ∈ nameOffsets.entries ↔ ∃ vec body, info.Shares draws vec body offset ∧
      ∃ i < vec.size, name = vec.elementName i body := by
  rcases Option.map_eq_some_iff.mp named with ⟨lists, traversed, rfl⟩
  have listed : ∀ name offset, (name, offset) ∈ lists.flatten ↔
      ∃ vec body, info.Shares draws vec body offset ∧
        ∃ i < vec.size, name = vec.elementName i body := by
    intro name offset
    rw [List.mem_flatten]
    constructor
    · rintro ⟨list, isList, mem⟩
      rcases (mem_mapM_iff traversed list).mp isList with ⟨entry, isEntry, computed⟩
      rcases mem_firstVecRegs_iff.mp isEntry with ⟨vec, chosen, rfl⟩
      exact ⟨vec, (vectors.mem_elementOffsets chosen computed).mp mem⟩
    · rintro ⟨vec, body, shares, isElement⟩
      have isEntry := mem_firstVecRegs_iff.mpr ⟨vec, shares.chosen, rfl⟩
      rcases exists_of_mapM_eq_some traversed isEntry with ⟨list, isList, computed⟩
      refine ⟨list, isList, ?_⟩
      exact (vectors.mem_elementOffsets shares.chosen computed).mpr ⟨body, shares, isElement⟩
  rw [← listed]
  apply Dict.mem_entries_ofList_of_functional
  intro name offset offset' mem mem'
  rcases (listed name offset).mp mem with ⟨vec, body, shares, i, below, rfl⟩
  rcases (listed _ offset').mp mem' with ⟨vec', body', shares', i', below', same⟩
  exact (vectors.shares_unique shares shares' below below' same).2.2.2

/-- The offsets by name exist when there are bits, or no first elements. -/
theorem exists_vecNameOffsets_iff :
    (∃ nameOffsets, info.vecNameOffsets draws = some nameOffsets) ↔
      ∀ vec, info.Chosen vec → ∀ first ∈ info.firstRegs vec, 0 < info.totBitWidth := by
  constructor
  · rintro ⟨nameOffsets, named⟩ vec chosen first isFirst
    rcases Option.map_eq_some_iff.mp named with ⟨lists, traversed, _⟩
    have isEntry := mem_firstVecRegs_iff.mpr ⟨vec, chosen, rfl⟩
    rcases exists_of_mapM_eq_some traversed isEntry with ⟨list, _, listed⟩
    rcases Option.map_eq_some_iff.mp listed with ⟨bodyOffsets, found, _⟩
    rcases exists_of_mapM_eq_some found isFirst with ⟨pair, _, computed⟩
    rcases (vectors.mem_firstRegs_iff chosen.mem).mp isFirst with ⟨body, _, _, isName⟩
    rcases (vectors.bodyOffset_eq_some_iff (chosen.mem_firstElements isFirst) isName).mp
      computed with ⟨_, mem⟩
    exact totBitWidth_pos mem
  · intro positive
    have listed : ∀ entry ∈ info.firstVecRegs.entries,
        ∃ list, info.elementOffsets draws entry = some list := by
      intro entry isEntry
      rcases mem_firstVecRegs_iff.mp isEntry with ⟨vec, chosen, rfl⟩
      have found : ∀ first ∈ info.firstRegs vec,
          ∃ pair, info.bodyOffset draws vec.namePrefix first = some pair := by
        intro first isFirst
        have isFirstElement := chosen.mem_firstElements isFirst
        rcases (vectors.mem_firstRegs_iff chosen.mem).mp isFirst with ⟨body, _, _, isName⟩
        rcases @exists_mem_ctrlOffsets info draws (positive vec chosen first isFirst) _
          (register_mem_elements_iff.mpr (Or.inr isFirstElement)) with ⟨offset, mem⟩
        refine ⟨(body, offset), ?_⟩
        exact (vectors.bodyOffset_eq_some_iff isFirstElement isName).mpr ⟨rfl, mem⟩
      rcases exists_mapM_eq_some found with ⟨bodyOffsets, traversed⟩
      exact ⟨_, Option.map_eq_some_iff.mpr ⟨bodyOffsets, traversed, rfl⟩⟩
    rcases exists_mapM_eq_some listed with ⟨lists, traversed⟩
    exact ⟨_, Option.map_eq_some_iff.mpr ⟨lists, traversed, rfl⟩⟩

/-- The registers of vectors with their offsets. -/
theorem mem_vectorOffsets {offsets : List (Elem × Nat)}
    (packed : info.vectorOffsets draws = some offsets) {elem : Elem} {offset : Nat} :
    (elem, offset) ∈ offsets ↔ ∃ vec body, info.Shares draws vec body offset ∧
      ∃ i < vec.size, ∃ reg ∈ info.smallRegs, reg.name = vec.elementName i body ∧
        elem = .register reg := by
  rcases Option.bind_eq_some_iff.mp packed with ⟨nameOffsets, named, traversed⟩
  rw [mem_mapM_iff traversed]
  constructor
  · rintro ⟨⟨name, offset⟩, isName, found⟩
    rcases Option.map_eq_some_iff.mp found with ⟨reg, isReg, isEntry⟩
    cases isEntry
    rcases (vectors.mem_vecNameOffsets named).mp isName with ⟨vec, body, shares, i, below, rfl⟩
    rcases (vectors.find?_vectorRegs_iff shares.chosen.mem below shares.isBody).mp isReg with
      ⟨small, isName⟩
    exact ⟨vec, body, shares, i, below, reg, small, isName, rfl⟩
  · rintro ⟨vec, body, shares, i, below, reg, small, isName, rfl⟩
    refine ⟨(vec.elementName i body, offset), ?_, ?_⟩
    · exact (vectors.mem_vecNameOffsets named).mpr ⟨vec, body, shares, i, below, rfl⟩
    · have isReg := (vectors.find?_vectorRegs_iff shares.chosen.mem below shares.isBody).mpr
        ⟨small, isName⟩
      exact Option.map_eq_some_iff.mpr ⟨reg, isReg, rfl⟩

/-- The registers of vectors are found when all elements that share an offset are kept. -/
theorem exists_vectorOffsets_iff :
    (∃ offsets, info.vectorOffsets draws = some offsets) ↔
      (∀ vec, info.Chosen vec → ∀ first ∈ info.firstRegs vec, 0 < info.totBitWidth) ∧
        ∀ vec body offset, info.Shares draws vec body offset → ∀ i < vec.size,
          ∃ reg ∈ info.smallRegs, reg.name = vec.elementName i body := by
  rw [← vectors.exists_vecNameOffsets_iff]
  constructor
  · rintro ⟨offsets, packed⟩
    rcases Option.bind_eq_some_iff.mp packed with ⟨nameOffsets, named, traversed⟩
    refine ⟨⟨nameOffsets, named⟩, ?_⟩
    intro vec body offset shares i below
    have isName := (vectors.mem_vecNameOffsets named).mpr ⟨vec, body, shares, i, below, rfl⟩
    rcases exists_of_mapM_eq_some traversed isName with ⟨_, _, found⟩
    rcases Option.map_eq_some_iff.mp found with ⟨reg, isReg, _⟩
    exact ⟨reg, (vectors.find?_vectorRegs_iff shares.chosen.mem below shares.isBody).mp isReg⟩
  · rintro ⟨⟨nameOffsets, named⟩, kept⟩
    have found : ∀ entry ∈ nameOffsets.entries, ∃ pair : Elem × Nat,
        ((info.vectorRegs.find? fun reg => reg.name = entry.1).map fun reg =>
          (.register reg, entry.2)) = some pair := by
      rintro ⟨name, offset⟩ isName
      rcases (vectors.mem_vecNameOffsets named).mp isName with ⟨vec, body, shares, i, below, rfl⟩
      rcases kept vec body offset shares i below with ⟨reg, isReg⟩
      have isFound := (vectors.find?_vectorRegs_iff shares.chosen.mem below shares.isBody).mpr isReg
      exact ⟨_, Option.map_eq_some_iff.mpr ⟨reg, isFound, rfl⟩⟩
    rcases exists_mapM_eq_some found with ⟨offsets, traversed⟩
    exact ⟨offsets, Option.bind_eq_some_iff.mpr ⟨nameOffsets, named, traversed⟩⟩

/-- A first element in the state is one of a vector whose elements share its offset. -/
theorem shares_of_allOffsets {offsets : List (Elem × Nat)}
    (packed : info.allOffsets draws = some offsets) {vec : VecRegs} (mem : vec ∈ info.vecRegs)
    {body : String} (isBody : body ∈ vec.bodies) {first : Register} {offset : Nat}
    (tracked : (.register first, offset) ∈ offsets) (isName : first.name = vec.elementName 0 body) :
    info.Shares draws vec body offset := by
  rcases Option.map_eq_some_iff.mp packed with ⟨vectorOffsets, vectorPacked, rfl⟩
  have positive := vectors.size vec mem
  rcases List.mem_append.mp tracked with scalar | vector
  · rcases List.mem_filter.mp scalar with ⟨isOffset, notFirst⟩
    rw [decide_eq_true_eq, isFirst, decide_eq_true_eq] at notFirst
    rcases register_mem_elements_iff.mp (mem_elements_of_ctrlOffsets isOffset) with opt | isFirst
    · have scalar := (List.mem_filter.mp (mem_optRegs_iff.mp opt).1).2
      rw [decide_eq_true_eq, isName] at scalar
      exact absurd (mem_vecRegNames mem positive isBody) scalar
    · exact absurd isFirst notFirst
  · rcases (vectors.mem_vectorOffsets vectorPacked).mp vector with
      ⟨vec', body', shares, i, below, reg, small, isName', isReg⟩
    cases isReg
    rcases vectors.apart vec mem vec' shares.chosen.mem 0 positive i below body isBody body'
      shares.isBody (isName.symm.trans isName') with ⟨rfl, _, rfl⟩
    exact shares

/-- Registers in the state are narrow. -/
theorem mem_smallRegs_of_allOffsets {offsets : List (Elem × Nat)}
    (packed : info.allOffsets draws = some offsets) {reg : Register} {offset : Nat}
    (tracked : (.register reg, offset) ∈ offsets) : reg ∈ info.smallRegs := by
  rcases Option.map_eq_some_iff.mp packed with ⟨vectorOffsets, vectorPacked, rfl⟩
  rcases List.mem_append.mp tracked with scalar | vector
  · have isOffset := (List.mem_filter.mp scalar).1
    rcases register_mem_elements_iff.mp (mem_elements_of_ctrlOffsets isOffset) with opt | isFirst
    · exact (List.mem_filter.mp (mem_optRegs_iff.mp opt).1).1
    · exact (List.mem_filter.mp (mem_vectorRegs_of_firstElements isFirst)).1
  · rcases (vectors.mem_vectorOffsets vectorPacked).mp vector with
      ⟨_, _, _, _, _, _, small, _, isReg⟩
    cases isReg
    exact small

end Vectors

theorem construct_eq_some_iff {size : Nat} {offsets : List (Elem × Nat)} :
    info.construct draws = some (size, offsets) ↔
      (∀ reg ∈ info.ctrlRegs, reg.tpe.isInt = true) ∧ info.allOffsets draws = some offsets ∧
        info.regStateSize draws = size := by
  rw [construct]
  split
  · rename_i ints
    rw [Option.map_eq_some_iff]
    constructor
    · rintro ⟨_, packed, same⟩
      cases same
      exact ⟨ints, packed, rfl⟩
    · rintro ⟨_, packed, rfl⟩
      exact ⟨offsets, packed, rfl⟩
  · rename_i other
    constructor
    · intro nothing
      cases nothing
    · rintro ⟨ints, _⟩
      exact absurd ints other

/-- All elements of a packable vector are kept and end inside the state. -/
theorem Packable.of_shares (packable : info.Packable) (vectors : info.Vectors) {vec : VecRegs}
    {body : String} {offset : Nat} (shares : info.Shares draws vec body offset) {i : Nat}
    (below : i < vec.size) :
    ∃ reg ∈ info.smallRegs, reg.name = vec.elementName i body ∧
      offset + regWidth reg ≤ info.regStateSize draws := by
  rcases shares.first with ⟨first, small, isName, mem⟩
  rcases (packable.kept vec shares.chosen body shares.isBody first small isName).2 i below with
    ⟨reg, isReg, isElement, narrow⟩
  have bound := offset_add_room_le vectors small mem
  exact ⟨reg, isReg, isElement, (Nat.add_le_add_left narrow offset).trans bound⟩

/-- Packable vectors are packed for all draws. -/
theorem Packable.packsVectors (packable : info.Packable) (vectors : info.Vectors) :
    info.PacksVectors draws := by
  constructor
  case constructs =>
    have firsts : ∀ vec, info.Chosen vec → ∀ first ∈ info.firstRegs vec,
        0 < info.totBitWidth := by
      intro vec chosen first isFirst
      rcases (vectors.mem_firstRegs_iff chosen.mem).mp isFirst with ⟨body, isBody, small, isName⟩
      exact (packable.kept vec chosen body isBody first small isName).1
    have kept : ∀ vec body offset, info.Shares draws vec body offset → ∀ i < vec.size,
        ∃ reg ∈ info.smallRegs, reg.name = vec.elementName i body := by
      intro vec body offset shares i below
      rcases packable.of_shares vectors shares below with ⟨reg, small, isElement, _⟩
      exact ⟨reg, small, isElement⟩
    rcases vectors.exists_vectorOffsets_iff.mpr ⟨firsts, kept⟩ with ⟨vectorOffsets, vectorPacked⟩
    have packed : info.allOffsets draws = some (info.scalaOffsets draws ++ vectorOffsets) :=
      Option.map_eq_some_iff.mpr ⟨vectorOffsets, vectorPacked, rfl⟩
    exact ⟨_, _, construct_eq_some_iff.mpr ⟨packable.ints, packed, rfl⟩⟩
  case packed =>
    intro size offsets made vec mem body isBody first offset tracked isName i below
    rcases construct_eq_some_iff.mp made with ⟨_, packed, rfl⟩
    have shares := vectors.shares_of_allOffsets packed mem isBody tracked isName
    rcases packable.of_shares vectors shares below with ⟨reg, small, isElement, fits⟩
    rcases Option.map_eq_some_iff.mp packed with ⟨vectorOffsets, vectorPacked, rfl⟩
    refine ⟨reg, List.mem_append_right _ ?_, isElement, fits⟩
    exact (vectors.mem_vectorOffsets vectorPacked).mpr
      ⟨vec, body, shares, i, below, reg, small, isElement, rfl⟩

/-- Vectors that are packed for all draws are packable. -/
theorem packable_of_packsVectors (vectors : info.Vectors)
    (packs : ∀ draws, info.PacksVectors draws) : info.Packable := by
  rcases (packs []).constructs with ⟨_, _, made⟩
  rcases construct_eq_some_iff.mp made with ⟨ints, packed, _⟩
  rcases Option.map_eq_some_iff.mp packed with ⟨vectorOffsets, vectorPacked, _⟩
  have firsts := (vectors.exists_vectorOffsets_iff.mp ⟨vectorOffsets, vectorPacked⟩).1
  constructor
  case ints => exact ints
  case kept =>
    intro vec chosen body isBody first small isName
    have isFirst := (vectors.mem_firstRegs_iff chosen.mem).mpr ⟨body, isBody, small, isName⟩
    have positive := firsts vec chosen first isFirst
    have isElement := register_mem_elements_iff.mpr (Or.inr (chosen.mem_firstElements isFirst))
    refine ⟨positive, ?_⟩
    intro i below
    -- the draws that leave the least room for the other elements
    rcases exists_offset_add_room vectors positive small isElement with
      ⟨draws, offset, mem, isEnd⟩
    rcases (packs draws).constructs with ⟨size, offsets, made⟩
    rcases construct_eq_some_iff.mp made with ⟨_, packed, isSize⟩
    have shares : info.Shares draws vec body offset :=
      ⟨chosen, isBody, first, small, isName, mem⟩
    have tracked : (.register first, offset) ∈ offsets := by
      rcases Option.map_eq_some_iff.mp packed with ⟨vectorOffsets, vectorPacked, rfl⟩
      apply List.mem_append_right
      exact (vectors.mem_vectorOffsets vectorPacked).mpr
        ⟨vec, body, shares, 0, vectors.size vec chosen.mem, first, small, isName, rfl⟩
    rcases (packs draws).packed size offsets made vec chosen.mem body isBody first offset tracked
      isName i below with ⟨reg, isReg, isElementName, fits⟩
    refine ⟨reg, vectors.mem_smallRegs_of_allOffsets packed isReg, isElementName, ?_⟩
    rw [← isSize, ← isEnd] at fits
    exact Nat.le_of_add_le_add_left fits

end ModuleInfo

/-- For all draws the instrumentation of a module is made and packs its vectors exactly when all
elements of a body whose first element is kept are kept and find room. -/
theorem packsVectors_iff {firstKey : List Nat → Nat} {mod : Module} {info : ModuleInfo}
    (graph : mod.IsInfo firstKey info) : (∀ draws, info.PacksVectors draws) ↔ info.Packable := by
  constructor
  · intro packs
    exact ModuleInfo.packable_of_packsVectors graph.vectors packs
  · intro packable draws
    exact packable.packsVectors graph.vectors

/-- A register of a shift register. -/
def shiftElement (width : Nat) (name : String) : Register where
  info := ["shift.scala 3:16"]
  name := name
  tpe := .uint width
  clock := .ref "clock" .clock
  reset := .uintLiteral 0 1
  init := .ref name (.uint width)

/-- A multiplexer that compares the elements. -/
def shiftTest (width : Nat) : Mux where
  cond := .doPrim2 .eq (.ref "reg_0" (.uint width))
    (.doPrim2 .and (.ref "reg_1" (.uint width)) (.ref "reg_2" (.uint width)) [] (.uint width)) []
    (.uint 1)
  tval := .uintLiteral 1 1
  fval := .uintLiteral 0 1
  tpe := .uint 1

/-- A shift register of three elements, all tested by one select. -/
def shiftModule (width : Nat) : Module where
  name := "Shift"
  ports := [⟨"clock", .input, .clock⟩, ⟨"in", .input, .uint width⟩, ⟨"out", .output, .uint 1⟩]
  body :=
    [.stmt (.defRegister (shiftElement width "reg_0")),
      .stmt (.defRegister (shiftElement width "reg_1")),
      .stmt (.defRegister (shiftElement width "reg_2")),
      .stmt (.connect (.ref "out" (.uint 1)) (.mux (shiftTest width).cond (shiftTest width).tval
        (shiftTest width).fval (shiftTest width).tpe)),
      .stmt (.connect (.ref "reg_0" (.uint width)) (.ref "reg_1" (.uint width))),
      .stmt (.connect (.ref "reg_1" (.uint width)) (.ref "reg_2" (.uint width))),
      .stmt (.connect (.ref "reg_2" (.uint width)) (.ref "in" (.uint width)))]

/-- The elements as a vector. -/
def shiftVec : VecRegs := ⟨3, "reg_", [""]⟩

/-- What the graph reports on the shift register. -/
def shiftInfo (width : Nat) : ModuleInfo where
  ctrlRegs :=
    [shiftElement width "reg_0", shiftElement width "reg_1", shiftElement width "reg_2"]
  muxSrcs := [(shiftTest width, ["reg_0", "reg_1", "reg_2"])]
  insts := []
  regs := [shiftElement width "reg_0", shiftElement width "reg_1", shiftElement width "reg_2"]
  vecRegs := [shiftVec]
  dirInRegs := [shiftElement width "reg_1", shiftElement width "reg_2"]

/-- The first key of a map that keeps the order of its entries. -/
def headKey (keys : List Nat) : Nat := keys.headD 0

/-- The elements of a narrow shift register share one offset. -/
theorem packsVectors_shift : (shiftModule 3).IsInfo headKey (shiftInfo 3) ∧
    ∀ draws, (shiftInfo 3).PacksVectors draws := by
  have graph : (shiftModule 3).IsInfo headKey (shiftInfo 3) := by
    constructor
    case isInfo => rfl
    case reported => exact ⟨[shiftVec], by rfl, List.Perm.refl _⟩
  refine ⟨graph, (packsVectors_iff graph).mpr ?_⟩
  constructor
  case ints => decide
  case kept =>
    intro vec chosen
    have isVec : vec = shiftVec := List.mem_singleton.mp chosen.mem
    subst isVec
    decide

/-- A shift register of four bits has elements that are removed as fed by a port, and making its
instrumentation raises. -/
theorem packsVectors_misses_shift : (shiftModule 4).IsInfo headKey (shiftInfo 4) ∧
    (shiftInfo 4).construct [] = none ∧ ¬ (shiftInfo 4).PacksVectors [] := by
  have raises : (shiftInfo 4).construct [] = none := by rfl
  have graph : (shiftModule 4).IsInfo headKey (shiftInfo 4) := by
    constructor
    case isInfo => rfl
    case reported => exact ⟨[shiftVec], by rfl, List.Perm.refl _⟩
  refine ⟨graph, raises, ?_⟩
  intro packs
  rcases packs.constructs with ⟨size, offsets, made⟩
  rw [raises] at made
  cases made

end Difftest.Firrtl
