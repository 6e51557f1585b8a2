import Difftest.Firrtl.InstrCov

/-!
# Which selects the state observes

The state should observe every select that a register feeds: through the select itself
or through one of the registers behind it.  Selects of narrow registers are taken out
again because a narrow register feeds them, also when no such register is tracked, so
the state observes exactly the selects that only wide registers feed and those that a
tracked register feeds.
-/

namespace Difftest.Firrtl

namespace ModuleInfo

variable (info : ModuleInfo)

/-- Some register that was not removed feeds the select. -/
def Fed (entry : Mux × List String) : Prop := ∃ reg ∈ info.keptRegs, reg.name ∈ entry.2

/-- The select or a register that feeds it has an offset in the state. -/
def Observed (offsets : List (Elem × Nat)) (entry : Mux × List String) : Prop :=
  Elem.ctrl entry.1.cond ∈ offsets.map Prod.fst ∨
    ∃ reg, Elem.register reg ∈ offsets.map Prod.fst ∧ reg.name ∈ entry.2

/-- The name of element `i` of the vector with the given first element. -/
def elementName (namePrefix : String) (first : Register) (i : Nat) : String :=
  namePrefix ++ (toString i ++
    String.ofList (first.name.toList.drop (namePrefix ++ "0").length))

/-- The registers that are tracked: scalars with at most one bit for each select that
they feed, and the elements of vectors whose first element is found. -/
def Tracked (reg : Register) : Prop :=
  (reg ∈ info.scalaRegs ∧ regWidth reg ≤ (info.sinkMuxes reg).length) ∨
    ∃ vec ∈ info.firstVecRegs.entries, ∃ first ∈ vec.2, ∃ i < vec.1.2,
      info.vectorRegs.find? (fun reg => reg.name = elementName vec.1.1 first i) = some reg

/-- No narrow register feeds the select, or one that is tracked does. -/
def Coverable (entry : Mux × List String) : Prop :=
  (∀ reg ∈ info.smallRegs, reg.name ∉ entry.2) ∨ ∃ reg, info.Tracked reg ∧ reg.name ∈ entry.2

end ModuleInfo

/-! ## Elements with an offset -/

theorem map_fst_packOffsets (offset : Nat) (elems : List Elem) :
    (packOffsets offset elems).map Prod.fst = elems := by
  induction elems generalizing offset with
  | nil => rfl
  | cons elem elems ih => rw [packOffsets, List.map_cons, ih]

theorem map_fst_drawOffsets (draws : List Nat) (elems : List Elem) :
    (drawOffsets draws elems).map Prod.fst = elems := by
  rw [drawOffsets, List.map_map]
  exact List.zipIdx_map_fst 0 elems

/-- Elements with some bits get an offset each. -/
theorem map_fst_getRegState_of_sum_pos (draws : List Nat) {elems : List Elem}
    (positive : 0 < (elems.map Elem.width).sum) :
    (getRegState draws elems).2.map Prod.fst = elems := by
  rw [getRegState, if_neg positive.ne']
  split
  · exact map_fst_packOffsets 0 elems
  · exact map_fst_drawOffsets draws elems

/-- Every element gets one offset. -/
theorem map_fst_getRegState (draws : List Nat) {elems : List Elem}
    (positive : ∀ elem ∈ elems, 0 < elem.width) :
    (getRegState draws elems).2.map Prod.fst = elems := by
  cases elems with
  | nil => rfl
  | cons elem elems =>
      apply map_fst_getRegState_of_sum_pos
      rw [List.map_cons, List.sum_cons]
      exact Nat.add_pos_left (positive elem List.mem_cons_self) _

namespace ModuleInfo

variable {info : ModuleInfo} {draws : List Nat}

theorem mem_firstElements_iff {reg : Register} :
    reg ∈ info.firstElements ↔ ∃ vec ∈ info.firstVecRegs.entries, reg ∈ vec.2 := by
  rw [firstElements, List.mem_dedup, List.mem_flatten]
  constructor
  · rintro ⟨list, isValue, inList⟩
    obtain ⟨vec, isVec, rfl⟩ := List.mem_map.mp isValue
    exact ⟨vec, isVec, inList⟩
  · rintro ⟨vec, isVec, mem⟩
    exact ⟨vec.2, List.mem_map.mpr ⟨vec, isVec, rfl⟩, mem⟩

theorem mem_vectorRegs_of_firstElements {reg : Register} (mem : reg ∈ info.firstElements) :
    reg ∈ info.vectorRegs := by
  obtain ⟨entry, isEntry, inEntry⟩ := mem_firstElements_iff.mp mem
  obtain ⟨vec, _, rfl⟩ := List.mem_map.mp (Dict.mem_of_mem_ofList isEntry)
  obtain ⟨body, _, found⟩ := List.mem_filterMap.mp inEntry
  exact List.mem_of_find?_eq_some found

theorem not_mem_vectorRegs_of_scalaRegs {reg : Register} (mem : reg ∈ info.scalaRegs) :
    reg ∉ info.vectorRegs := by
  intro isVector
  have scalar := (List.mem_filter.mp mem).2
  have vector := (List.mem_filter.mp isVector).2
  rw [decide_eq_true_eq] at scalar vector
  exact scalar vector

theorem mem_optRegs_iff {reg : Register} :
    reg ∈ info.optRegs ↔ reg ∈ info.scalaRegs ∧ regWidth reg ≤ (info.sinkMuxes reg).length := by
  rw [optRegs, List.mem_filter, decide_eq_true_eq]

theorem mem_ctrlRegs_of_smallRegs {reg : Register} (mem : reg ∈ info.smallRegs) :
    reg ∈ info.ctrlRegs :=
  (List.mem_filter.mp (List.mem_filter.mp mem).1).1

/-- The elements are put into the state one for one. -/
theorem map_fst_ctrlOffsets (positive : ∀ reg ∈ info.ctrlRegs, 0 < regWidth reg) :
    (info.ctrlOffsets draws).map Prod.fst = info.elements := by
  apply map_fst_getRegState
  intro elem mem
  rcases List.mem_append.mp mem with isReg | isCtrl
  · obtain ⟨reg, inRegs, rfl⟩ := List.mem_map.mp isReg
    apply positive reg
    rcases List.mem_append.mp inRegs with opt | first
    · exact mem_ctrlRegs_of_smallRegs (List.mem_filter.mp (mem_optRegs_iff.mp opt).1).1
    · exact mem_ctrlRegs_of_smallRegs
        (List.mem_filter.mp (mem_vectorRegs_of_firstElements first)).1
  · obtain ⟨cond, _, rfl⟩ := List.mem_map.mp isCtrl
    exact Nat.one_pos

theorem mem_map_fst_filter {entries : List (Elem × Nat)} {keeps : Elem → Bool} {elem : Elem} :
    elem ∈ (entries.filter fun entry => keeps entry.1).map Prod.fst ↔
      elem ∈ entries.map Prod.fst ∧ keeps elem = true := by
  simp only [List.mem_map, List.mem_filter, Prod.exists]
  constructor
  · rintro ⟨first, offset, ⟨mem, kept⟩, rfl⟩
    exact ⟨⟨_, offset, mem, rfl⟩, kept⟩
  · rintro ⟨⟨first, offset, mem, rfl⟩, kept⟩
    exact ⟨_, offset, ⟨mem, kept⟩, rfl⟩

/-- The scalar elements: scalar registers and selects. -/
theorem mem_scalaOffsets_iff (positive : ∀ reg ∈ info.ctrlRegs, 0 < regWidth reg) {elem : Elem} :
    elem ∈ (info.scalaOffsets draws).map Prod.fst ↔
      elem ∈ info.elements ∧ ¬ info.isFirst elem = true := by
  rw [scalaOffsets, @mem_map_fst_filter _ (fun elem => ¬ info.isFirst elem),
    map_fst_ctrlOffsets positive, decide_eq_true_eq]

/-- The names listed for one vector. -/
theorem mem_elementOffsets_iff {vec : (String × Nat) × List Register} {list : List (String × Nat)}
    (listed : info.elementOffsets draws vec = some list) {name : String} :
    name ∈ list.map Prod.fst ↔
      ∃ first ∈ vec.2, ∃ i < vec.1.2, name = elementName vec.1.1 first i := by
  obtain ⟨bodyOffsets, traversed, rfl⟩ := Option.map_eq_some_iff.mp listed
  have body : ∀ first bodyOffset, info.bodyOffset draws vec.1.1 first = some bodyOffset →
      bodyOffset.1 = String.ofList (first.name.toList.drop (vec.1.1 ++ "0").length) := by
    intro first bodyOffset computed
    obtain ⟨_, _, rfl⟩ := Option.map_eq_some_iff.mp computed
    rfl
  constructor
  · intro mem
    obtain ⟨entry, isEntry, rfl⟩ := List.mem_map.mp mem
    obtain ⟨i, below, isEntry⟩ := List.mem_flatMap.mp isEntry
    obtain ⟨bodyOffset, isBody, rfl⟩ := List.mem_map.mp isEntry
    obtain ⟨first, isFirst, computed⟩ := (mem_mapM_iff traversed bodyOffset).mp isBody
    refine ⟨first, isFirst, i, List.mem_range.mp below, ?_⟩
    rw [elementName, ← body first bodyOffset computed]
  · rintro ⟨first, isFirst, i, below, rfl⟩
    obtain ⟨bodyOffset, isBody, computed⟩ := exists_of_mapM_eq_some traversed isFirst
    rw [elementName, ← body first bodyOffset computed]
    apply List.mem_map.mpr
    exact ⟨_, List.mem_flatMap.mpr ⟨i, List.mem_range.mpr below,
      List.mem_map.mpr ⟨bodyOffset, isBody, rfl⟩⟩, rfl⟩

/-- The vector elements: those whose name is listed for a vector. -/
theorem mem_vectorOffsets_iff {offsets : List (Elem × Nat)}
    (packed : info.vectorOffsets draws = some offsets) {elem : Elem} :
    elem ∈ offsets.map Prod.fst ↔ ∃ vec ∈ info.firstVecRegs.entries, ∃ first ∈ vec.2,
      ∃ i < vec.1.2, ∃ reg, elem = .register reg ∧
        info.vectorRegs.find? (fun reg => reg.name = elementName vec.1.1 first i) = some reg := by
  obtain ⟨nameOffsets, named, traversed⟩ := Option.bind_eq_some_iff.mp packed
  obtain ⟨lists, listed, rfl⟩ := Option.map_eq_some_iff.mp named
  constructor
  · intro mem
    obtain ⟨entry, isEntry, rfl⟩ := List.mem_map.mp mem
    obtain ⟨nameOffset, isName, found⟩ := (mem_mapM_iff traversed entry).mp isEntry
    obtain ⟨reg, isReg, rfl⟩ := Option.map_eq_some_iff.mp found
    obtain ⟨list, isList, inList⟩ := List.mem_flatten.mp (Dict.mem_of_mem_ofList isName)
    obtain ⟨vec, isVec, computed⟩ := (mem_mapM_iff listed list).mp isList
    obtain ⟨first, isFirst, i, below, same⟩ :=
      (mem_elementOffsets_iff computed).mp (List.mem_map.mpr ⟨nameOffset, inList, rfl⟩)
    exact ⟨vec, isVec, first, isFirst, i, below, reg, rfl, same ▸ isReg⟩
  · rintro ⟨vec, isVec, first, isFirst, i, below, reg, rfl, found⟩
    obtain ⟨list, isList, computed⟩ := exists_of_mapM_eq_some listed isVec
    have inList := (mem_elementOffsets_iff computed).mpr ⟨first, isFirst, i, below, rfl⟩
    obtain ⟨nameOffset, isName, same⟩ := List.mem_map.mp inList
    have isKey : elementName vec.1.1 first i ∈ (Dict.ofList lists.flatten).keys := by
      apply (Dict.mem_keys_ofList _ _).mpr
      exact List.mem_map.mpr ⟨nameOffset, List.mem_flatten.mpr ⟨list, isList, isName⟩, same⟩
    obtain ⟨entry, isEntry, key⟩ := List.mem_map.mp isKey
    apply List.mem_map.mpr
    refine ⟨(.register reg, entry.2), (mem_mapM_iff traversed _).mpr ⟨entry, isEntry, ?_⟩, rfl⟩
    rw [key, found]
    rfl

/-- The registers with an offset are the tracked ones. -/
theorem register_mem_allOffsets_iff (positive : ∀ reg ∈ info.ctrlRegs, 0 < regWidth reg)
    {offsets : List (Elem × Nat)} (packed : info.allOffsets draws = some offsets)
    {reg : Register} : Elem.register reg ∈ offsets.map Prod.fst ↔ info.Tracked reg := by
  obtain ⟨vectors, vectorPacked, rfl⟩ := Option.map_eq_some_iff.mp packed
  rw [List.map_append, List.mem_append, mem_scalaOffsets_iff positive,
    mem_vectorOffsets_iff vectorPacked, Tracked, ← mem_optRegs_iff]
  apply or_congr
  · have isElement : Elem.register reg ∈ info.elements ↔
        reg ∈ info.optRegs ∨ reg ∈ info.firstElements := by
      simp [elements]
    rw [isElement, isFirst, decide_eq_true_eq]
    constructor
    · rintro ⟨isReg, notFirst⟩
      exact isReg.resolve_right notFirst
    · intro opt
      refine ⟨Or.inl opt, ?_⟩
      intro first
      exact not_mem_vectorRegs_of_scalaRegs (mem_optRegs_iff.mp opt).1
        (mem_vectorRegs_of_firstElements first)
  · constructor
    · rintro ⟨vec, isVec, first, isFirst, i, below, other, same, found⟩
      cases same
      exact ⟨vec, isVec, first, isFirst, i, below, found⟩
    · rintro ⟨vec, isVec, first, isFirst, i, below, found⟩
      exact ⟨vec, isVec, first, isFirst, i, below, reg, rfl, found⟩

/-- The selects with an offset are those not taken out. -/
theorem ctrl_mem_allOffsets_iff (positive : ∀ reg ∈ info.ctrlRegs, 0 < regWidth reg)
    {offsets : List (Elem × Nat)} (packed : info.allOffsets draws = some offsets)
    {cond : Expr} : Elem.ctrl cond ∈ offsets.map Prod.fst ↔ cond ∈ info.unCoveredCtrlSigs := by
  obtain ⟨vectors, vectorPacked, rfl⟩ := Option.map_eq_some_iff.mp packed
  rw [List.map_append, List.mem_append, mem_scalaOffsets_iff positive,
    mem_vectorOffsets_iff vectorPacked]
  have isElement : Elem.ctrl cond ∈ info.elements ↔ cond ∈ info.unCoveredCtrlSigs := by
    simp [elements]
  rw [isElement]
  constructor
  · rintro (⟨isCtrl, _⟩ | ⟨_, _, _, _, _, _, _, same, _⟩)
    · exact isCtrl
    · cases same
  · exact fun isCtrl => Or.inl ⟨isCtrl, Bool.false_ne_true⟩

/-! ## Observed selects -/

theorem mem_sinkMuxes_iff {reg : Register} {cond : Expr} :
    cond ∈ info.sinkMuxes reg ↔ ∃ entry ∈ info.muxSrcs, reg.name ∈ entry.2 ∧ entry.1.cond = cond := by
  simp only [sinkMuxes, List.mem_dedup, List.mem_map, List.mem_filter, decide_eq_true_eq,
    and_assoc]

theorem mem_coveredMuxSrcs_iff {cond : Expr} :
    cond ∈ info.coveredMuxSrcs ↔ ∃ reg ∈ info.smallRegs, cond ∈ info.sinkMuxes reg := by
  rw [coveredMuxSrcs, List.mem_dedup, List.mem_flatMap]

/-- A select is observed exactly when it is coverable, provided that equal selects have
equal sources. -/
theorem observed_iff (positive : ∀ reg ∈ info.ctrlRegs, 0 < regWidth reg)
    (functional : ∀ first ∈ info.muxSrcs, ∀ second ∈ info.muxSrcs,
      first.1.cond = second.1.cond → first.2 = second.2)
    {offsets : List (Elem × Nat)} (packed : info.allOffsets draws = some offsets)
    {entry : Mux × List String} (isEntry : entry ∈ info.muxSrcs) (fed : info.Fed entry) :
    Observed offsets entry ↔ info.Coverable entry := by
  rw [Observed, ctrl_mem_allOffsets_iff positive packed, Coverable]
  simp only [register_mem_allOffsets_iff positive packed]
  have covered : entry.1.cond ∈ info.coveredMuxSrcs ↔
      ∃ reg ∈ info.smallRegs, reg.name ∈ entry.2 := by
    rw [mem_coveredMuxSrcs_iff]
    constructor
    · rintro ⟨reg, small, sinks⟩
      obtain ⟨other, isOther, feeds, same⟩ := mem_sinkMuxes_iff.mp sinks
      rw [functional other isOther entry isEntry same] at feeds
      exact ⟨reg, small, feeds⟩
    · rintro ⟨reg, small, feeds⟩
      exact ⟨reg, small, mem_sinkMuxes_iff.mpr ⟨entry, isEntry, feeds, rfl⟩⟩
  constructor
  · rintro (isCtrl | tracked)
    · left
      intro reg small feeds
      have uncovered := (List.mem_filter.mp isCtrl).2
      rw [decide_eq_true_eq] at uncovered
      exact uncovered (covered.mpr ⟨reg, small, feeds⟩)
    · exact Or.inr tracked
  · rintro (wide | tracked)
    · left
      obtain ⟨reg, kept, feeds⟩ := fed
      have large : reg ∈ info.largeRegs := by
        rw [largeRegs, List.mem_filter, decide_eq_true_eq]
        refine ⟨kept, ?_⟩
        by_contra narrow
        apply wide reg _ feeds
        rw [smallRegs, List.mem_filter, decide_eq_true_eq]
        exact ⟨kept, Nat.lt_of_not_le narrow⟩
      rw [unCoveredCtrlSigs, List.mem_filter, decide_eq_true_eq, ctrlSigs, List.mem_dedup,
        List.mem_append]
      constructor
      · left
        exact List.mem_flatMap.mpr
          ⟨reg, large, mem_sinkMuxes_iff.mpr ⟨entry, isEntry, feeds, rfl⟩⟩
      · rw [covered]
        rintro ⟨other, small, otherFeeds⟩
        exact wide other small otherFeeds
    · exact Or.inr tracked

end ModuleInfo

/-- In the information of a module equal selects have equal sources. -/
theorem muxSrcs_functional {mod : Module} {vecRegs : List VecRegs} {info : ModuleInfo}
    (isInfo : mod.info vecRegs = some info) :
    ∀ first ∈ info.muxSrcs, ∀ second ∈ info.muxSrcs,
      first.1.cond = second.1.cond → first.2 = second.2 := by
  obtain ⟨muxSrcs, computed, rest⟩ := Option.bind_eq_some_iff.mp isInfo
  obtain ⟨dirInRegs, _, rfl⟩ := Option.map_eq_some_iff.mp rest
  have sources : ∀ entry ∈ muxSrcs,
      mod.findAllSrcs (findNames entry.1.cond) = some entry.2 := by
    intro entry isEntry
    obtain ⟨mux, _, found⟩ := (mem_mapM_iff computed entry).mp isEntry
    obtain ⟨srcs, searched, rfl⟩ := Option.map_eq_some_iff.mp found
    exact searched
  intro first isFirst second isSecond same
  have searched := sources first isFirst
  rw [same, sources second isSecond] at searched
  exact (Option.some.inj searched).symm

/-- The state observes every select that a kept register feeds exactly when each of
these selects is fed by wide registers only or by a tracked register. -/
theorem observes_iff {mod : Module} {vecRegs : List VecRegs} {info : ModuleInfo}
    (isInfo : mod.info vecRegs = some info) (positive : ∀ reg ∈ info.ctrlRegs, 0 < regWidth reg)
    {draws : List Nat} {offsets : List (Elem × Nat)}
    (packed : info.allOffsets draws = some offsets) :
    (∀ entry ∈ info.muxSrcs, info.Fed entry → ModuleInfo.Observed offsets entry) ↔
      ∀ entry ∈ info.muxSrcs, info.Fed entry → info.Coverable entry := by
  have functional := muxSrcs_functional isInfo
  constructor
  · intro observes entry isEntry fed
    exact (ModuleInfo.observed_iff positive functional packed isEntry fed).mp
      (observes entry isEntry fed)
  · intro coverable entry isEntry fed
    exact (ModuleInfo.observed_iff positive functional packed isEntry fed).mpr
      (coverable entry isEntry fed)

/-- The register of a state machine. -/
def stateRegister (width : Nat) : Register where
  info := []
  name := "state"
  tpe := .uint width
  clock := .ref "clock" .clock
  reset := .uintLiteral 0 1
  init := .ref "state" (.uint width)

/-- A multiplexer that tests the state. -/
def stateTest (width : Nat) : Mux where
  cond := .doPrim2 .eq (.ref "state" (.uint width)) (.uintLiteral 1 width) [] (.uint 1)
  tval := .ref "in" (.uint 1)
  fval := .uintLiteral 0 1
  tpe := .uint 1

/-- A state machine whose state is tested by one select. -/
def stateMachine (width : Nat) : Module where
  name := "StateMachine"
  ports := [⟨"clock", .input, .clock⟩, ⟨"in", .input, .uint 1⟩, ⟨"out", .output, .uint 1⟩]
  body :=
    [.stmt (.defRegister (stateRegister width)),
      .stmt (.connect (.ref "out" (.uint 1)) (.mux (stateTest width).cond (stateTest width).tval
        (stateTest width).fval (stateTest width).tpe)),
      .stmt (.connect (.ref "state" (.uint width))
        (.doPrim1 .pad (.ref "in" (.uint 1)) [width] (.uint width)))]

/-- What the graph reports on the state machine. -/
def stateInfo (width : Nat) : ModuleInfo where
  ctrlRegs := [stateRegister width]
  muxSrcs := [(stateTest width, ["state"])]
  insts := []
  regs := [stateRegister width]
  vecRegs := []
  dirInRegs := [stateRegister width]

/-- One bit of state for one select is tracked. -/
theorem observes_stateMachine :
    (stateMachine 1).info [] = some (stateInfo 1) ∧ (stateInfo 1).Fed (stateTest 1, ["state"]) ∧
      ∀ entry ∈ (stateInfo 1).muxSrcs, (stateInfo 1).Fed entry →
        ModuleInfo.Observed [(.register (stateRegister 1), 0)] entry := by
  have isInfo : (stateMachine 1).info [] = some (stateInfo 1) := by decide +kernel
  have positive : ∀ reg ∈ (stateInfo 1).ctrlRegs, 0 < regWidth reg := by decide
  have packed : (stateInfo 1).allOffsets [] = some [(.register (stateRegister 1), 0)] := by
    decide +kernel
  refine ⟨isInfo, ⟨stateRegister 1, by decide +kernel, List.mem_singleton_self "state"⟩, ?_⟩
  apply (observes_iff isInfo positive packed).mpr
  intro entry isEntry _
  rw [List.mem_singleton.mp isEntry]
  right
  refine ⟨stateRegister 1, Or.inl ⟨by decide +kernel, by decide +kernel⟩, ?_⟩
  exact List.mem_singleton_self "state"

/-- Two bits of state for one select are not tracked, and neither is the select. -/
theorem observes_misses_stateMachine :
    (stateMachine 2).info [] = some (stateInfo 2) ∧ (stateInfo 2).allOffsets [] = some [] ∧
      (stateTest 2, ["state"]) ∈ (stateInfo 2).muxSrcs ∧
      (stateInfo 2).Fed (stateTest 2, ["state"]) ∧
      ¬ ModuleInfo.Observed [] (stateTest 2, ["state"]) := by
  refine ⟨by decide +kernel, by decide +kernel, List.mem_singleton_self _, ?_, ?_⟩
  · exact ⟨stateRegister 2, by decide +kernel, List.mem_singleton_self "state"⟩
  · rintro (isCtrl | ⟨reg, isReg, _⟩)
    · cases isCtrl
    · cases isReg

end Difftest.Firrtl
