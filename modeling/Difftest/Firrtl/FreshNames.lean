import Difftest.Firrtl.Targets
import Difftest.Text.Endings

/-!
# Generated names

The passes form names from those of the module, of its instances and of its tracked
registers, and ask no namespace.  By their endings no two of them are the same but for a
module of the name `io`; they may still be names that the module has.
-/

namespace Difftest.Firrtl

open Difftest

/-! ## Tracked registers -/

/-- The name of an element that is a register. -/
def Elem.registerName : Elem → Option String
  | register reg => some reg.name
  | ctrl _ => none

/-- The names of the registers among the elements of the state. -/
def registerNames (elems : List Elem) : List String := elems.filterMap Elem.registerName

theorem mem_registerNames_iff {elems : List Elem} {name : String} :
    name ∈ registerNames elems ↔ ∃ reg, .register reg ∈ elems ∧ reg.name = name := by
  rw [registerNames, List.mem_filterMap]
  constructor
  · rintro ⟨elem, isElem, isName⟩
    cases elem with
    | register reg => exact ⟨reg, isElem, Option.some.inj isName⟩
    | ctrl cond => cases isName
  · rintro ⟨reg, isElem, rfl⟩
    exact ⟨.register reg, isElem, rfl⟩

theorem registerNames_append (first second : List Elem) :
    registerNames (first ++ second) = registerNames first ++ registerNames second :=
  List.filterMap_append

theorem registerNames_registers (regs : List Register) :
    registerNames (regs.map Elem.register) = regs.map Register.name := by
  rw [registerNames, List.filterMap_map]
  exact congrFun List.filterMap_eq_map regs

theorem registerNames_ctrls (conds : List Expr) : registerNames (conds.map Elem.ctrl) = [] := by
  rw [registerNames, List.filterMap_map]
  exact List.filterMap_none conds

namespace ModuleInfo

variable {info : ModuleInfo} {draws : List Nat}

/-- The registers with an offset of their own are no vector elements. -/
theorem registerNames_scalaOffsets :
    (registerNames ((info.scalaOffsets draws).map Prod.fst)).Sublist
      (info.optRegs.map Register.name) := by
  have elems : ((info.ctrlOffsets draws).map Prod.fst).Sublist info.elements := by
    rw [ctrlOffsets, getRegState]
    split
    · exact List.nil_sublist _
    · split
      · rw [map_fst_packOffsets]
      · rw [map_fst_drawOffsets]
  have kept : ((info.scalaOffsets draws).map Prod.fst).Sublist
      (info.elements.filter fun elem => ¬ info.isFirst elem) := by
    have filtered := elems.filter fun elem => decide (¬ info.isFirst elem = true)
    rw [List.filter_map] at filtered
    exact filtered
  have none : info.firstElements.filter (fun reg => ¬ info.isFirst (.register reg)) = [] := by
    rw [List.filter_eq_nil_iff]
    intro reg isFirst
    simp [ModuleInfo.isFirst, isFirst]
  have names : registerNames (info.elements.filter fun elem => ¬ info.isFirst elem) =
      (info.optRegs.filter fun reg => ¬ info.isFirst (.register reg)).map Register.name := by
    rw [elements, List.filter_append, List.filter_map, List.filter_map, registerNames_append,
      registerNames_registers, registerNames_ctrls, List.append_nil, List.filter_append,
      List.map_append]
    exact (congrArg _ (congrArg _ none)).trans (List.append_nil _)
  rw [registerNames] at names ⊢
  have sub := kept.filterMap Elem.registerName
  rw [names] at sub
  exact sub.trans (List.filter_sublist.map _)

/-- The names of vector elements are the names that got an offset. -/
theorem registerNames_vectorOffsets {offsets : List (Elem × Nat)}
    (packed : info.vectorOffsets draws = some offsets) :
    (registerNames (offsets.map Prod.fst)).Nodup := by
  obtain ⟨nameOffsets, _, traversed⟩ := Option.bind_eq_some_iff.mp packed
  have keys : registerNames (offsets.map Prod.fst) = nameOffsets.keys := by
    have related := forall₂_of_mapM_eq_some traversed
    clear packed traversed
    rw [Dict.keys]
    generalize nameOffsets.entries = entries at related
    induction related with
    | nil => rfl
    | cons found _ inductionHypothesis =>
        obtain ⟨reg, isReg, rfl⟩ := Option.map_eq_some_iff.mp found
        have named := List.find?_some isReg
        rw [decide_eq_true_eq] at named
        rw [List.map_cons, List.map_cons, ← inductionHypothesis, ← named]
        rfl
  rw [keys]
  exact nameOffsets.keys_nodup

end ModuleInfo

/-- No two elements are registers of one name. -/
theorem nodup_registerNames {mod : Module} (names : (mod.decls.map Prod.fst).Nodup)
    {vecRegs : List VecRegs} {info : ModuleInfo} (isInfo : mod.info vecRegs = some info)
    {draws : List Nat} {offsets : List (Elem × Nat)}
    (packed : info.allOffsets draws = some offsets) :
    (registerNames (offsets.map Prod.fst)).Nodup := by
  obtain ⟨vectors, vectorPacked, rfl⟩ := Option.map_eq_some_iff.mp packed
  have distinct : (info.optRegs.map Register.name).Nodup := by
    have ctrls := Module.nodup_ctrlRegs isInfo
    have isCtrl : ∀ reg ∈ info.optRegs, reg ∈ mod.registers := fun reg isOpt =>
      Module.mem_registers_of_ctrlRegs isInfo (ModuleInfo.mem_ctrlRegs_of_smallRegs
        (List.mem_filter.mp (ModuleInfo.mem_optRegs_iff.mp isOpt).1).1)
    have opts : info.optRegs.Nodup := (((ctrls.filter _).filter _).filter _).filter _
    apply opts.map_on
    intro first isFirst second isSecond same
    have firstDecl := Module.mem_decls_of_register (isCtrl first isFirst)
    rw [same] at firstDecl
    cases Module.decl_unique names firstDecl
      (Module.mem_decls_of_register (isCtrl second isSecond))
    rfl
  rw [List.map_append, registerNames_append]
  apply (ModuleInfo.registerNames_scalaOffsets.nodup distinct).append
    (ModuleInfo.registerNames_vectorOffsets vectorPacked)
  intro name isScalar isVector
  obtain ⟨scalar, isOpt, rfl⟩ :=
    List.mem_map.mp (ModuleInfo.registerNames_scalaOffsets.subset isScalar)
  obtain ⟨vector, isElem, same⟩ := mem_registerNames_iff.mp isVector
  obtain ⟨_, _, _, _, _, _, other, isOther, found⟩ :=
    (ModuleInfo.mem_vectorOffsets_iff vectorPacked).mp isElem
  cases isOther
  have inVector := (List.mem_filter.mp (List.mem_of_find?_eq_some found)).2
  have inScalar := (List.mem_filter.mp (ModuleInfo.mem_optRegs_iff.mp isOpt).1).2
  rw [decide_eq_true_eq] at inVector inScalar
  exact inScalar (same ▸ inVector)

/-! ## Names of the coverage -/

namespace InstrCov

/-- How many of the elements are selects. -/
def selects : List (Elem × Nat) → Nat
  | [] => 0
  | (.register _, _) :: rest => selects rest
  | (.ctrl _, _) :: rest => selects rest + 1

/-- Names added for the elements of the state. -/
def elementNames (mName : String) (offsets : List (Elem × Nat)) : List String :=
  (List.range (selects offsets)).map (gateWire "mux_cond_") ++
    (namedOffsets 0 offsets).flatMap (fun named => [named.1.1 ++ "_shl", named.1.1 ++ "_pad"]) ++
    (gateIds offsets.length offsets.length 0).map (gateWire (mName ++ "_xor"))

/-- Names added for the coverage of a module. -/
def addedNames (info : ModuleInfo) (draws : List Nat) (extModules : List String)
    (mod : Module) : List String :=
  let sums := (info.insts.filter fun inst => inst.module ∉ extModules).map fun inst =>
    inst.name ++ "_sum"
  if (clockName mod).isSome ∧ info.regStateSize draws ≠ 0 then
    [regStateName mod, covMapName mod, covSumName mod] ++
      elementNames mod.name ((info.allOffsets draws).getD []) ++ sums
  else [covSumName mod] ++ sums

theorem declaredNames_condStmts (offsets : List (Elem × Nat)) (i : Nat) :
    declaredNames (condStmts i offsets) =
      (List.range' i (selects offsets)).map (gateWire "mux_cond_") := by
  induction offsets generalizing i with
  | nil => rfl
  | cons entry offsets inductionHypothesis =>
      rcases entry with ⟨reg | cond, offset⟩
      · exact inductionHypothesis i
      · rw [condStmts, declaredNames_append, inductionHypothesis (i + 1), selects,
          List.range'_succ]
        rfl

theorem declaredNames_makeSum (port : String) (insts : List Instance) (sum : Expr) :
    declaredNames (makeSum port insts sum) = insts.map fun inst => inst.name ++ "_sum" := by
  induction insts generalizing sum with
  | nil => rfl
  | cons inst insts inductionHypothesis =>
      rw [makeSum, declaredNames_append, inductionHypothesis]
      rfl

theorem declaredNames_readConnect (covMap regState covSum clock : String) (size : Nat) :
    declaredNames (readConnect covMap regState covSum clock size) = [] := rfl

theorem declaredNames_writeConnect (covMap regState clock : String) (size : Nat) :
    declaredNames (writeConnect covMap regState clock size) = [] := rfl

/-- The names of the wires for one element. -/
theorem declaredNames_padStmts {size : Nat} {entry : (String × Ty) × Nat} {padRef : Expr}
    {stmts : List Stmt} (padded : padStmts size entry = some (padRef, stmts)) :
    declaredNames stmts = [entry.1.1 ++ "_shl", entry.1.1 ++ "_pad"] := by
  rw [padStmts] at padded
  split at padded
  · cases padded
  · cases padded
    rfl

theorem declaredNames_padded {size : Nat} {nameds : List ((String × Ty) × Nat)}
    {padded : List (Expr × List Stmt)} (traversed : nameds.mapM (padStmts size) = some padded) :
    declaredNames (padded.map Prod.snd).flatten =
      nameds.flatMap fun named => [named.1.1 ++ "_shl", named.1.1 ++ "_pad"] := by
  have related := forall₂_of_mapM_eq_some traversed
  clear traversed
  induction related with
  | nil => rfl
  | cons computed _ inductionHypothesis =>
      rw [List.map_cons, List.flatten_cons, declaredNames_append, inductionHypothesis,
        List.flatMap_cons, declaredNames_padStmts computed]

theorem declaredNames_stateConnect {mName regState : String} {offsets : List (Elem × Nat)}
    {size : Nat} {stmts : List Stmt}
    (made : stateConnect mName regState offsets size = some stmts) :
    declaredNames stmts = elementNames mName offsets := by
  obtain ⟨⟨padRefs, offsetStmts⟩, madeOffset, made⟩ := Option.bind_eq_some_iff.mp made
  obtain ⟨⟨top, xorStmts⟩, madeXor, rfl⟩ := Option.map_eq_some_iff.mp made
  have xorNames := (xorTree_of_makeXor madeXor).2
  rw [length_padRefs madeOffset] at xorNames
  obtain ⟨padded, traversed, same⟩ := Option.map_eq_some_iff.mp madeOffset
  cases same
  have padNames := declaredNames_padded traversed
  rw [declaredNames_append, declaredNames_append, declaredNames_append, declaredNames_condStmts,
    padNames, ← List.range_eq_range', elementNames, ← xorNames]
  exact List.append_nil _

/-- Coverage adds these names in this order. -/
theorem declaredNames_addedStmts {info : ModuleInfo} {draws : List Nat} {extModules : List String}
    {mod : Module} {added : List Stmt}
    (isAdded : addedStmts info draws extModules mod = some added) :
    declaredNames added = addedNames info draws extModules mod := by
  obtain ⟨offsets, packed, chosen⟩ := Option.bind_eq_some_iff.mp isAdded
  have zero : declaredNames (zeroStmts mod.name
      (info.insts.filter fun inst => inst.module ∉ extModules)) = [covSumName mod] ++
        (info.insts.filter fun inst => inst.module ∉ extModules).map fun inst =>
          inst.name ++ "_sum" := by
    rw [zeroStmts, declaredNames_append, declaredNames_makeSum]
    rfl
  rw [addedNames, packed]
  split at chosen
  · rename_i clock clocked
    rw [clocked]
    split at chosen
    · rename_i sized
      obtain ⟨stConnections, connected, rfl⟩ := Option.map_eq_some_iff.mp chosen
      rw [if_pos ⟨rfl, sized⟩]
      simp only [declaredNames_append, declaredNames_stateConnect connected,
        declaredNames_makeSum, declaredNames_readConnect, declaredNames_writeConnect,
        List.append_nil]
      rfl
    · rename_i unsized
      cases chosen
      rw [if_neg fun both => unsized both.2]
      exact zero
  · rename_i noClock
    cases chosen
    rw [noClock, if_neg fun both => absurd both.1 Bool.false_ne_true]
    exact zero

end InstrCov

/-! ## Names of the report -/

namespace InstrAssert

/-- Names added for the report of a module. -/
def addedNames (insts : List Instance) (mod : Module) : List String :=
  let sources := (findStop mod).length + insts.length
  (List.range (findStop mod).length).map (gateWire "stopEn") ++ insts.map assertWire ++
    (gateIds sources sources 0).map (gateWire (mod.name ++ "_or")) ++
    if (clockName mod).isSome ∧ sources ≠ 0 then [mod.name ++ "_metaAssert"] else []

variable {insts : List Instance} {mod : Module}

theorem length_stopRefs : (stopRefs insts mod).length = (findStop mod).length + insts.length := by
  rw [stopRefs, List.length_append, List.length_map, List.length_map, stopEns, List.length_map,
    List.length_zipIdx]

theorem declaredNames_stopEns :
    declaredNames ((stopEns mod).map fun node => .defNode node.1 node.2) =
      (List.range (findStop mod).length).map (gateWire "stopEn") := by
  have each : ∀ (ens : List Expr) (i : Nat),
      declaredNames (((ens.zipIdx i).map fun en => ("stopEn" ++ toString en.2, en.1)).map
        fun node => .defNode node.1 node.2) = (List.range' i ens.length).map (gateWire "stopEn") := by
    intro ens
    induction ens with
    | nil => exact fun _ => rfl
    | cons en ens inductionHypothesis =>
        intro i
        rw [List.length_cons, List.range'_succ, List.map_cons, ← inductionHypothesis (i + 1)]
        rfl
  rw [List.range_eq_range']
  exact each (findStop mod) 0

theorem declaredNames_allOr : declaredNames (allOr insts mod).2 =
    (gateIds ((findStop mod).length + insts.length) ((findStop mod).length + insts.length) 0).map
      (gateWire (mod.name ++ "_or")) := by
  by_cases empty : stopRefs insts mod = []
  · rw [← length_stopRefs, empty, allOr, ← stopRefs, empty]
    rfl
  · obtain ⟨top, stmts, made, _, names⟩ := @exists_orTree mod.name _ 0 _ empty le_rfl
    have same : allOr insts mod = (some top, stmts) := made
    rw [same, ← length_stopRefs]
    exact names

theorem declaredNames_conStmts : declaredNames (conStmts insts mod) =
    if (clockName mod).isSome ∧ (findStop mod).length + insts.length ≠ 0 then
      [mod.name ++ "_metaAssert"] else [] := by
  rw [← length_stopRefs, conStmts]
  rcases allOr_cases insts mod with ⟨empty, noTop⟩ | ⟨top, isTop, tree⟩
  · rw [noTop, empty, if_neg fun both => both.2 rfl]
    rfl
  · have notEmpty : (stopRefs insts mod).length ≠ 0 := by
      intro empty
      rw [List.length_eq_zero_iff] at empty
      rw [stopRefs] at empty
      rw [allOr, empty] at isTop
      cases isTop
    rw [isTop]
    cases clocked : clockName mod with
    | none =>
        rw [if_neg fun both => absurd both.1 Bool.false_ne_true]
        rfl
    | some clock =>
        rw [if_pos ⟨rfl, notEmpty⟩]
        rfl

/-- The report adds these names in this order. -/
theorem declaredNames_addedStmts : declaredNames (addedStmts insts mod) = addedNames insts mod := by
  have wires : declaredNames (insts.map fun inst => .defWire (assertWire inst) (.uint 1)) =
      insts.map assertWire := by
    rw [declaredNames, List.filterMap_map, List.map_filterMap]
    exact congrFun List.filterMap_eq_map insts
  have noDecls : declaredNames (insts.map instAssertCon) = [] := by
    rw [declaredNames, List.filterMap_map]
    exact congrArg _ (List.filterMap_none insts)
  rw [addedStmts, declaredNames_append, declaredNames_append, declaredNames_append,
    declaredNames_append, declaredNames_stopEns, wires, noDecls, declaredNames_allOr,
    declaredNames_conStmts, List.append_nil, addedNames]

end InstrAssert

/-! ## Generated names are distinct -/

/-- The ending of a name, but for two ports whose endings others have too. -/
def nameKind (name : String) : List Char :=
  if name ∈ ["io_covSum", "metaAssert"] then name.toList else ending name

theorem nameKind_of_ending {name : String}
    (other : ending name ∉ [ending "io_covSum", ending "metaAssert"]) :
    nameKind name = ending name := by
  apply if_neg
  intro isPort
  exact other (List.mem_map_of_mem isPort)

/-- Names with a suffix of their own. -/
theorem tidy_suffix {suffix : String} (long : (ending suffix).length = 3)
    (other : ending suffix ∉ [ending "io_covSum", ending "metaAssert"]) {names : List String}
    (nodup : names.Nodup) :
    Tidy nameKind (names.map fun name => name ++ suffix) [ending suffix] := by
  apply Tidy.map _ _ nodup
  · exact fun first second same => (String.append_left_inj suffix).mp same
  · intro stem
    rw [nameKind_of_ending, ending_append long]
    rw [ending_append long]
    exact other

/-- Names with a number. -/
theorem tidy_numbers {stem : String}
    (other : ending stem ∉ [ending "io_covSum", ending "metaAssert"]) {ids : List Nat}
    (nodup : ids.Nodup) : Tidy nameKind (ids.map (gateWire stem)) [ending stem] := by
  apply Tidy.map (gateWire_injective stem) _ nodup
  intro id
  rw [nameKind_of_ending, gateWire, ending_number]
  rw [gateWire, ending_number]
  exact other

theorem tidy_append {suffix : String} (long : (ending suffix).length = 3) {stem : String}
    (other : stem ++ suffix ∉ ["io_covSum", "metaAssert"]) :
    Tidy nameKind [stem ++ suffix] [ending suffix] := by
  have kind : nameKind (stem ++ suffix) = ending suffix := (if_neg other).trans
    (ending_append long stem)
  exact kind ▸ Tidy.singleton (stem ++ suffix)

namespace InstrCov

/-- The names under which the elements are read. -/
theorem perm_namedOffsets (offsets : List (Elem × Nat)) (i : Nat) :
    ((namedOffsets i offsets).map fun named => named.1.1).Perm
      (registerNames (offsets.map Prod.fst) ++
        (List.range' i (selects offsets)).map (gateWire "mux_cond_")) := by
  induction offsets generalizing i with
  | nil => exact List.Perm.nil
  | cons entry offsets inductionHypothesis =>
      rcases entry with ⟨reg | cond, offset⟩
      · exact (inductionHypothesis i).cons reg.name
      · rw [namedOffsets, List.map_cons, selects, List.range'_succ, List.map_cons]
        exact ((inductionHypothesis (i + 1)).cons _).trans List.perm_middle.symm

theorem tidy_elementNames {mName : String} {offsets : List (Elem × Nat)}
    (registers : (registerNames (offsets.map Prod.fst)).Nodup)
    (fresh : ∀ name ∈ registerNames (offsets.map Prod.fst), name ∉ elementNames mName offsets) :
    Tidy nameKind (elementNames mName offsets)
      ([ending "mux_cond_"] ++ [ending "_shl", ending "_pad"] ++ [ending "_xor"]) := by
  have conds : (List.range (selects offsets)).Nodup := List.nodup_range
  have names : ((namedOffsets 0 offsets).map fun named => named.1.1).Nodup := by
    rw [(perm_namedOffsets offsets 0).nodup_iff, ← List.range_eq_range']
    apply registers.append (conds.map (gateWire_injective _))
    intro name isReg isCond
    exact fresh name isReg (List.mem_append_left _ (List.mem_append_left _ isCond))
  have wires : Tidy nameKind ((namedOffsets 0 offsets).flatMap fun named =>
      [named.1.1 ++ "_shl", named.1.1 ++ "_pad"]) [ending "_shl", ending "_pad"] := by
    have apart := (@tidy_suffix "_shl" (by decide) (by decide) _ names).append
      (@tidy_suffix "_pad" (by decide) (by decide) _ names) (by decide)
    rw [List.map_map, List.map_map] at apart
    apply apart.perm
    have together := List.map_append_flatMap_perm (namedOffsets 0 offsets)
      (fun named => named.1.1 ++ "_shl") fun named => [named.1.1 ++ "_pad"]
    rw [← List.map_eq_flatMap] at together
    exact together
  have xors : Tidy nameKind ((gateIds offsets.length offsets.length 0).map
      (gateWire (mName ++ "_xor"))) [ending "_xor"] := by
    have suffix := @ending_append "_xor" (by decide) mName
    rw [← suffix]
    exact tidy_numbers (by rw [suffix]; decide) (gateIds_nodup _)
  exact ((tidy_numbers (by decide) conds).append wires (by decide)).append xors (by decide)

/-- The names of the coverage are distinct. -/
theorem tidy_addedNames {info : ModuleInfo} {draws : List Nat} {extModules : List String}
    {mod : Module} (notIo : mod.name ≠ "io")
    (insts : (info.insts.map Instance.name).Nodup)
    (registers : (registerNames (((info.allOffsets draws).getD []).map Prod.fst)).Nodup)
    (fresh : ∀ name ∈ registerNames (((info.allOffsets draws).getD []).map Prod.fst),
      name ∉ addedNames info draws extModules mod) :
    Tidy nameKind (addedNames info draws extModules mod)
      ([ending "_state", ending "_cov", ending "_covSum"] ++
        ([ending "mux_cond_"] ++ [ending "_shl", ending "_pad"] ++ [ending "_xor"]) ++
        [ending "_sum"]) := by
  have sums : Tidy nameKind ((info.insts.filter fun inst => inst.module ∉ extModules).map
      fun inst => inst.name ++ "_sum") [ending "_sum"] := by
    have some := insts.sublist (List.filter_sublist.map Instance.name :
      ((info.insts.filter fun inst => inst.module ∉ extModules).map Instance.name).Sublist _)
    have tidy := @tidy_suffix "_sum" (by decide) (by decide) _ some
    rw [List.map_map] at tidy
    exact tidy
  have sum : Tidy nameKind [covSumName mod] [ending "_covSum"] := by
    apply tidy_append (by decide)
    intro isPort
    rcases List.mem_pair.mp isPort with isSum | isAssert
    · exact notIo ((String.append_left_inj "_covSum").mp isSum)
    · have endings := congrArg ending isAssert
      rw [ending_append (by decide)] at endings
      exact absurd endings (by decide)
  rw [addedNames] at fresh ⊢
  split
  · rename_i stateful
    rw [if_pos stateful] at fresh
    have elements := @tidy_elementNames mod.name _ registers fun name isReg isElement =>
      fresh name isReg (List.mem_append_left _ (List.mem_append_right _ isElement))
    have state := @tidy_suffix "_state" (by decide) (by decide) _ (List.nodup_singleton mod.name)
    have cov := @tidy_suffix "_cov" (by decide) (by decide) _ (List.nodup_singleton mod.name)
    exact (((state.append cov (by decide)).append sum (by decide)).append elements
      (by decide)).append sums (by decide)
  · exact (sum.append sums (by decide)).mono (by decide)

end InstrCov

namespace InstrAssert

/-- The names of the report are distinct. -/
theorem tidy_addedNames {insts : List Instance} {mod : Module}
    (names : (insts.map Instance.name).Nodup) :
    Tidy nameKind (addedNames insts mod)
      ([ending "stopEn"] ++ [ending "_wire"] ++ [ending "_or"] ++ [ending "_metaAssert"]) := by
  have wires : Tidy nameKind (insts.map assertWire) [ending "_wire"] := by
    have tidy := @tidy_suffix "_metaAssert_wire" (by decide) (by decide) _ names
    rw [List.map_map] at tidy
    exact tidy
  have ors := fun sources => @tidy_numbers (mod.name ++ "_or")
    (by rw [ending_append (by decide)]; decide) _ (gateIds_nodup sources)
  simp only [@ending_append "_or" (by decide)] at ors
  have stops := @tidy_numbers "stopEn" (by decide) _
    (List.nodup_range : (List.range (findStop mod).length).Nodup)
  have reg : Tidy nameKind [mod.name ++ "_metaAssert"] [ending "_metaAssert"] := by
    apply tidy_append (by decide)
    intro isPort
    rcases List.mem_pair.mp isPort with isSum | isAssert
    · have endings := congrArg ending isSum
      rw [ending_append (by decide)] at endings
      exact absurd endings (by decide)
    · have underscore : '_' ∈ (mod.name ++ "_metaAssert").toList := by
        rw [String.toList_append]
        exact List.mem_append_right _ (by decide)
      rw [isAssert] at underscore
      exact absurd underscore (by decide)
  rw [addedNames]
  apply ((stops.append wires (by decide)).append (ors _) (by decide)).append _ (by decide)
  split
  · exact reg
  · exact Tidy.nil.mono (List.nil_subset _)

end InstrAssert

/-- The names that the passes form for a module. -/
def generatedNames (info : ModuleInfo) (draws : List Nat) (extModules : List String)
    (mod : Module) : List String :=
  addedPorts ++ mod.instances.dedup.map (fun inst => inst.name ++ "_halt") ++
    (InstrCov.addedNames info draws extModules mod ++
      InstrAssert.addedNames mod.instances.dedup mod)

/-- Instances have different names. -/
theorem nodup_instances {mod : Module} (names : (mod.decls.map Prod.fst).Nodup) :
    (mod.instances.dedup.map Instance.name).Nodup := by
  apply (List.nodup_dedup mod.instances).map_on
  intro first isFirst second isSecond same
  have decl : ∀ inst ∈ mod.instances, (inst.name, Decl.instance inst) ∈ mod.decls := by
    intro inst isInst
    obtain ⟨stmt, isStmt, declares⟩ := List.mem_filterMap.mp isInst
    cases stmt with
    | defInstance other =>
        cases declares
        exact Module.mem_decls_of_stmt isStmt rfl
    | _ => cases declares
  have firstDecl := decl first (List.mem_dedup.mp isFirst)
  rw [same] at firstDecl
  cases Module.decl_unique names firstDecl (decl second (List.mem_dedup.mp isSecond))
  rfl

/-- Every name of the result is declared once exactly when the module has none of the
generated names and is not called `io`. -/
theorem Outcome.nodup_iff {choices : Choices} {extModules : List String} {mod result : Module}
    {info : ModuleInfo} {added : List Stmt}
    (outcome : Outcome choices extModules mod result info added)
    (names : (mod.decls.map Prod.fst).Nodup) :
    (result.decls.map Prod.fst).Nodup ↔
      mod.name ≠ "io" ∧ ∀ name ∈ mod.decls.map Prod.fst,
        name ∉ generatedNames info (choices.draws mod.name) extModules mod := by
  have generated : addedPorts ++ mod.instances.dedup.map (fun inst => inst.name ++ "_halt") ++
      ((added ++ InstrAssert.addedStmts mod.instances.dedup mod).filterMap Stmt.decl).map
        Prod.fst = generatedNames info (choices.draws mod.name) extModules mod := by
    rw [generatedNames, ← InstrCov.declaredNames_addedStmts outcome.isAdded,
      ← InstrAssert.declaredNames_addedStmts, ← declaredNames_append]
    rfl
  rw [outcome.names_perm.nodup_iff, generated]
  constructor
  · intro nodup
    constructor
    · intro isIo
      have isSum : InstrCov.covSumName mod ∈
          InstrCov.addedNames info (choices.draws mod.name) extModules mod := by
        rw [InstrCov.addedNames]
        split
        · exact List.mem_append_left _ (List.mem_append_left _ (by simp))
        · exact List.mem_cons_self
      have isPort : InstrCov.covSumName mod ∈ addedPorts := by
        rw [InstrCov.covSumName, isIo]
        decide
      exact List.disjoint_of_nodup_append (List.nodup_append'.mp nodup).2.1
        (List.mem_append_left _ isPort) (List.mem_append_left _ isSum)
    · exact fun name isName isGenerated =>
        List.disjoint_of_nodup_append nodup isName isGenerated
  · rintro ⟨notIo, fresh⟩
    apply names.append _ fun name isName isGenerated => fresh name isName isGenerated
    have insts := nodup_instances names
    obtain ⟨offsets, packed, _⟩ := Option.bind_eq_some_iff.mp outcome.isAdded
    have offsetsEq : (info.allOffsets (choices.draws mod.name)).getD [] = offsets := by
      rw [packed]
      rfl
    have registers := nodup_registerNames names outcome.isInfo packed
    have tracked : ∀ name ∈ registerNames (offsets.map Prod.fst),
        name ∉ InstrCov.addedNames info (choices.draws mod.name) extModules mod := by
      intro name isReg isAdded
      obtain ⟨reg, isElem, rfl⟩ := mem_registerNames_iff.mp isReg
      have isDecl := Module.mem_decls_of_register (Module.mem_registers_of_ctrlRegs outcome.isInfo
        (ModuleInfo.mem_ctrlRegs_of_allOffsets packed isElem))
      exact fresh _ (List.mem_map_of_mem isDecl)
        (List.mem_append_right _ (List.mem_append_left _ isAdded))
    rw [← offsetsEq] at registers tracked
    have cov := InstrCov.tidy_addedNames notIo
      ((Module.info_eq outcome.isInfo).2.1 ▸ insts) registers tracked
    have ports : Tidy nameKind addedPorts
        ["io_covSum".toList, "metaAssert".toList, ending "metaReset"] :=
      ⟨by decide, by decide⟩
    have halts := @tidy_suffix "_halt" (by decide) (by decide) _ insts
    rw [List.map_map] at halts
    have asserts := @InstrAssert.tidy_addedNames _ mod insts
    exact ((ports.append halts (by decide)).append (cov.append asserts (by decide))
      (by decide)).nodup

end Difftest.Firrtl
