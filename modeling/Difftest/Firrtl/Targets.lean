import Difftest.Firrtl.LowForm
import Difftest.Firrtl.StatePacking
import Difftest.Firrtl.StopReport
import Difftest.Firrtl.SumTree

/-!
# What added statements drive

An added connect drives a name that an added statement declares, or the port of its pass.
Names are declared once, so the register of a module keeps the connects it had, and the
register of the report has one.
-/

namespace Difftest.Firrtl

/-- Connects of names that the statements declare, or of the given ones. -/
def SelfDriven (stmts : List Stmt) (others : List String) : Prop :=
  ∀ name tpe expr, .connect (.ref name tpe) expr ∈ stmts → name ∈ declaredNames stmts ++ others

theorem mem_declaredNames_of_stmt {stmts : List Stmt} {stmt : Stmt} (isStmt : stmt ∈ stmts)
    {name : String} {decl : Decl} (declares : stmt.decl = some (name, decl)) :
    name ∈ declaredNames stmts :=
  List.mem_map.mpr ⟨(name, decl), List.mem_filterMap.mpr ⟨stmt, isStmt, declares⟩, rfl⟩

theorem declaredNames_append (first second : List Stmt) :
    declaredNames (first ++ second) = declaredNames first ++ declaredNames second := by
  rw [declaredNames, List.filterMap_append, List.map_append, declaredNames, declaredNames]

namespace SelfDriven

variable {others : List String}

theorem nil : SelfDriven [] others := by
  intro name tpe expr isConnect
  cases isConnect

theorem append {first second : List Stmt} (isFirst : SelfDriven first others)
    (isSecond : SelfDriven second others) : SelfDriven (first ++ second) others := by
  intro name tpe expr isConnect
  rw [declaredNames_append, List.append_assoc]
  rcases List.mem_append.mp isConnect with inFirst | inSecond
  · rcases List.mem_append.mp (isFirst name tpe expr inFirst) with declared | other
    · exact List.mem_append_left _ declared
    · exact List.mem_append_right _ (List.mem_append_right _ other)
  · exact List.mem_append_right _ (isSecond name tpe expr inSecond)

/-- A wire and its connect. -/
theorem wire (name : String) (width size : Nat) (expr : Expr) :
    SelfDriven [.defWire name (.uint width), .connect (uref name size) expr] others := by
  intro other tpe value isConnect
  rcases List.mem_pair.mp isConnect with isWire | same
  · cases isWire
  · cases same
    exact List.mem_cons_self

/-- A connect of one of the given names. -/
theorem connect {name : String} (isOther : name ∈ others) (size : Nat) (expr : Expr) :
    SelfDriven [.connect (uref name size) expr] others := by
  intro other tpe value isConnect
  cases List.mem_singleton.mp isConnect
  exact List.mem_append_right _ isOther

/-- Statements without a connect of a name. -/
theorem of_noConnect {stmts : List Stmt}
    (noConnect : ∀ stmt ∈ stmts, ∀ name tpe expr, stmt ≠ .connect (.ref name tpe) expr) :
    SelfDriven stmts others :=
  fun name tpe expr isConnect => absurd rfl (noConnect _ isConnect name tpe expr)

theorem flatten {lists : List (List Stmt)} (each : ∀ list ∈ lists, SelfDriven list others) :
    SelfDriven lists.flatten others := by
  induction lists with
  | nil => exact nil
  | cons list lists inductionHypothesis =>
      rw [List.forall_mem_cons] at each
      exact each.1.append (inductionHypothesis each.2)

/-- Given names that are declared need not be given. -/
theorem drop {stmts : List Stmt} {declared : List String}
    (driven : SelfDriven stmts (declared ++ others))
    (isDeclared : ∀ name ∈ declared, name ∈ declaredNames stmts) : SelfDriven stmts others := by
  intro name tpe expr isConnect
  rcases List.mem_append.mp (driven name tpe expr isConnect) with known | given
  · exact List.mem_append_left _ known
  · rcases List.mem_append.mp given with isName | isOther
    · exact List.mem_append_left _ (isDeclared name isName)
    · exact List.mem_append_right _ isOther

end SelfDriven

/-! ## Coverage -/

theorem GateTree.selfDriven {op : PrimOp} {stem : String} {size id : Nat} {exprs : List Expr}
    {top : Expr} {stmts : List Stmt} (tree : GateTree op stem size id exprs top stmts)
    {others : List String} : SelfDriven stmts others := by
  intro name tpe expr isConnect
  obtain ⟨wire, isWire⟩ := tree.target isConnect
  exact List.mem_append_left _ (mem_declaredNames_of_stmt isWire rfl)

namespace InstrCov

variable {others : List String}

theorem selfDriven_makeSum {port : String} (isPort : port ∈ others) (insts : List Instance)
    (sum : Expr) : SelfDriven (makeSum port insts sum) others := by
  intro name tpe expr isConnect
  rcases target_makeSum isConnect with rfl | ⟨wire, isWire⟩
  · exact List.mem_append_right _ isPort
  · exact List.mem_append_left _ (mem_declaredNames_of_stmt isWire rfl)

theorem selfDriven_condStmts (offsets : List (Elem × Nat)) (i : Nat) :
    SelfDriven (condStmts i offsets) others := by
  induction offsets generalizing i with
  | nil => exact .nil
  | cons entry offsets inductionHypothesis =>
      rcases entry with ⟨reg | cond, offset⟩
      · exact inductionHypothesis i
      · exact (SelfDriven.wire _ _ _ _).append (inductionHypothesis (i + 1))

theorem selfDriven_padStmts {size : Nat} {entry : (String × Ty) × Nat} {padRef : Expr}
    {stmts : List Stmt} (padded : padStmts size entry = some (padRef, stmts)) :
    SelfDriven stmts others := by
  rw [padStmts] at padded
  split at padded
  · cases padded
  · cases padded
    exact (SelfDriven.wire _ _ _ _).append (SelfDriven.wire _ _ _ _)

theorem selfDriven_stateConnect {mName regState : String} {offsets : List (Elem × Nat)}
    {size : Nat} {stmts : List Stmt}
    (made : stateConnect mName regState offsets size = some stmts) (isState : regState ∈ others) :
    SelfDriven stmts others := by
  obtain ⟨⟨padRefs, offsetStmts⟩, madeOffset, made⟩ := Option.bind_eq_some_iff.mp made
  obtain ⟨⟨top, xorStmts⟩, madeXor, rfl⟩ := Option.map_eq_some_iff.mp made
  obtain ⟨padded, traversed, same⟩ := Option.map_eq_some_iff.mp madeOffset
  cases same
  apply SelfDriven.append
  · apply SelfDriven.append
    · apply (selfDriven_condStmts offsets 0).append
      apply SelfDriven.flatten
      intro list isList
      obtain ⟨pair, isPair, rfl⟩ := List.mem_map.mp isList
      obtain ⟨entry, _, computed⟩ := (mem_mapM_iff traversed pair).mp isPair
      exact selfDriven_padStmts computed
    · exact (xorTree_of_makeXor madeXor).1.selfDriven
  · exact .connect isState size top

theorem selfDriven_coverConnect {covMap regState covSum clock : String} (size : Nat)
    (isSum : covSum ∈ others) :
    SelfDriven (readConnect covMap regState covSum clock size ++
      writeConnect covMap regState clock size) others := by
  intro name tpe expr isConnect
  simp only [readConnect, writeConnect, List.mem_append, List.mem_cons, Stmt.connect.injEq,
    memField, uref, reduceCtorEq, false_and, false_or, or_false, List.not_mem_nil,
    Expr.ref.injEq] at isConnect
  rw [isConnect.1.1]
  exact List.mem_append_right _ isSum

/-- Coverage drives names of its own and the port of the sum. -/
theorem selfDriven_addedStmts {info : ModuleInfo} {draws : List Nat} {extModules : List String}
    {mod : Module} {added : List Stmt}
    (isAdded : addedStmts info draws extModules mod = some added) :
    SelfDriven added ["io_covSum"] := by
  obtain ⟨offsets, _, chosen⟩ := Option.bind_eq_some_iff.mp isAdded
  have zero : SelfDriven (zeroStmts mod.name
      (info.insts.filter fun inst => inst.module ∉ extModules)) ["io_covSum"] :=
    (SelfDriven.wire _ _ _ _).append (selfDriven_makeSum (List.mem_singleton_self _) _ _)
  split at chosen
  · split at chosen
    · obtain ⟨stConnections, connected, rfl⟩ := Option.map_eq_some_iff.mp chosen
      apply @SelfDriven.drop _ _ [mod.name ++ "_state", mod.name ++ "_covSum"]
      · apply SelfDriven.append
        · rw [List.append_assoc]
          apply SelfDriven.append
          · apply SelfDriven.append
            · apply SelfDriven.of_noConnect
              simp
            · exact selfDriven_stateConnect connected (by simp)
          · exact selfDriven_coverConnect _ (by simp)
        · exact selfDriven_makeSum (by simp [covSumPort]) _ _
      · intro name isName
        simp only [declaredNames_append]
        simp only [List.append_assoc]
        apply List.mem_append_left
        rcases List.mem_pair.mp isName with rfl | rfl
        · exact List.mem_cons_self
        · exact List.mem_cons_of_mem _ (List.mem_cons_of_mem _ List.mem_cons_self)
    · cases chosen
      exact zero
  · cases chosen
    exact zero

end InstrCov

/-! ## The report -/

namespace InstrAssert

variable {insts : List Instance} {mod : Module}

/-- The last statements of a module that keeps the report. -/
theorem conStmts_eq {clock : String} {top : Expr} (clocked : clockName mod = some clock)
    (isTop : (allOr insts mod).1 = some top) :
    conStmts insts mod =
      [.defRegister (assertReg mod.name clock),
        .connect (uref (assertReg mod.name clock).name 1)
          (.doPrim2 .or (uref (assertReg mod.name clock).name 1) top [] (.uint 1)),
        .connect (uref assertPort.name 1) (uref (assertReg mod.name clock).name 1)] := by
  rw [conStmts, isTop]
  simp only [clocked]

theorem mem_addedStmts_of_top {clock : String} {top : Expr} (clocked : clockName mod = some clock)
    (isTop : (allOr insts mod).1 = some top) :
    .defRegister (assertReg mod.name clock) ∈ addedStmts insts mod ∧
      .connect (uref (assertReg mod.name clock).name 1)
          (.doPrim2 .or (uref (assertReg mod.name clock).name 1) top [] (.uint 1)) ∈
        addedStmts insts mod := by
  rw [addedStmts, conStmts_eq clocked isTop]
  constructor
  · exact List.mem_append_right _ List.mem_cons_self
  · exact List.mem_append_right _ (List.mem_cons_of_mem _ List.mem_cons_self)

/-- A connect of a wire that is added, or one of the last connects. -/
theorem connect_cases {name : String} {tpe : Ty} {expr : Expr}
    (isConnect : .connect (.ref name tpe) expr ∈ addedStmts insts mod) :
    (∃ wire, .defWire name wire ∈ addedStmts insts mod) ∨
      .connect (.ref name tpe) expr ∈ conStmts insts mod := by
  simp only [addedStmts, List.mem_append, List.mem_map] at isConnect
  rcases isConnect with (((⟨_, _, same⟩ | ⟨_, _, same⟩) | ⟨inst, isInst, same⟩) | inTree) | inCon
  · cases same
  · cases same
  · cases same
    left
    refine ⟨.uint 1, ?_⟩
    simp only [addedStmts, List.mem_append]
    exact Or.inl (Or.inl (Or.inl (Or.inr (List.mem_map.mpr ⟨inst, isInst, rfl⟩))))
  · left
    rcases allOr_cases insts mod with ⟨empty, _⟩ | ⟨top, _, tree⟩
    · rw [stopRefs] at empty
      rw [allOr, empty] at inTree
      cases inTree
    · obtain ⟨wire, isWire⟩ := tree.target inTree
      refine ⟨wire, ?_⟩
      simp only [addedStmts, List.mem_append]
      exact Or.inl (Or.inr isWire)
  · exact Or.inr inCon

theorem selfDriven_conStmts : SelfDriven (conStmts insts mod) ["metaAssert"] := by
  rw [conStmts]
  split
  · split
    · apply @SelfDriven.append _ [_, _] [_]
      · intro name tpe expr isConnect
        rcases List.mem_pair.mp isConnect with isReg | same
        · cases isReg
        · cases same
          exact List.mem_cons_self
      · exact .connect (List.mem_singleton_self _) 1 _
    · exact .connect (List.mem_singleton_self _) 1 _
  · exact .connect (List.mem_singleton_self _) 1 _

/-- The report drives names of its own and its port. -/
theorem selfDriven_addedStmts : SelfDriven (addedStmts insts mod) ["metaAssert"] := by
  intro name tpe expr isConnect
  rcases connect_cases isConnect with ⟨wire, isWire⟩ | inCon
  · exact List.mem_append_left _ (mem_declaredNames_of_stmt isWire rfl)
  · rw [addedStmts, declaredNames_append, List.append_assoc]
    exact List.mem_append_right _ (selfDriven_conStmts name tpe expr inCon)

end InstrAssert

/-! ## The connect of a register -/

/-- The last pass turns connects into connects of the same place. -/
theorem addMetaReset_cases (regs : List Register) (stmt : Stmt) :
    InstrReset.addMetaReset regs stmt = stmt ∨
      ∃ loc expr expr', stmt = .connect loc expr ∧
        InstrReset.addMetaReset regs stmt = .connect loc expr' := by
  cases stmt with
  | connect loc expr =>
      right
      rw [InstrReset.addMetaReset]
      split
      · exact ⟨loc, expr, _, rfl, rfl⟩
      · exact ⟨loc, expr, expr, rfl, rfl⟩
  | _ => exact Or.inl rfl

namespace Outcome

variable {choices : Choices} {extModules : List String} {mod result : Module} {info : ModuleInfo}
  {added : List Stmt} (outcome : Outcome choices extModules mod result info added)

include outcome

/-- A statement of the result other than a connect was there before the last pass. -/
theorem mem_of_noConnect {stmt : Stmt} (isStmt : stmt ∈ result.stmts)
    (noConnect : ∀ loc expr, stmt ≠ .connect loc expr) :
    stmt ∈ mod.stmts ++ added ++ InstrAssert.addedStmts mod.instances.dedup mod := by
  rw [outcome.stmts] at isStmt
  rcases List.mem_append.mp isStmt with wrapped | isReset
  · obtain ⟨before, isBefore, rfl⟩ := List.mem_map.mp wrapped
    rcases addMetaReset_cases mod.resetRegs before with same | ⟨loc, _, expr', _, same⟩
    · rw [same]
      exact isBefore
    · exact absurd same (noConnect loc expr')
  · obtain ⟨inst, _, rfl⟩ := List.mem_map.mp isReset
    exact absurd rfl (noConnect _ _)

/-- A connect of the result is one that was there or the reset of an instance. -/
theorem exists_connect {loc expr : Expr} (isStmt : .connect loc expr ∈ result.stmts) :
    (∃ before, .connect loc before ∈
        mod.stmts ++ added ++ InstrAssert.addedStmts mod.instances.dedup mod ∧
      InstrReset.addMetaReset mod.resetRegs (.connect loc before) = .connect loc expr) ∨
      ∃ inst ∈ mod.instances, .connect loc expr = InstrReset.resetCon inst := by
  rw [outcome.stmts] at isStmt
  rcases List.mem_append.mp isStmt with wrapped | isReset
  · left
    obtain ⟨stmt, isStmt, same⟩ := List.mem_map.mp wrapped
    rcases addMetaReset_cases mod.resetRegs stmt with kept | ⟨loc', expr', after, rfl, turned⟩
    · obtain rfl := kept.symm.trans same
      exact ⟨expr, isStmt, kept⟩
    · cases turned.symm.trans same
      exact ⟨expr', isStmt, turned⟩
  · obtain ⟨inst, isInst, same⟩ := List.mem_map.mp isReset
    exact Or.inr ⟨inst, List.mem_dedup.mp isInst, same.symm⟩

/-- What coverage and report add. -/
theorem forms : ∀ stmt ∈ added ++ InstrAssert.addedStmts mod.instances.dedup mod,
    stmt.Added fun _ => True := by
  rw [List.forall_mem_append]
  constructor
  · exact InstrCov.added_addedStmts Expr.closed_true outcome.isAdded (fun _ _ _ => trivial)
      (fun _ _ => trivial) (fun _ _ => trivial)
  · exact InstrAssert.added_addedStmts Expr.closed_true (fun _ _ => trivial) (fun _ _ => trivial)

/-- An added connect of a name is the connect of a reference. -/
theorem exists_ref {loc expr : Expr}
    (isConnect : .connect loc expr ∈ added ++ InstrAssert.addedStmts mod.instances.dedup mod)
    {name : String} (drives : loc.signal = [name]) : ∃ tpe, loc = .ref name tpe := by
  cases outcome.forms _ isConnect with
  | connect other allowed =>
      cases drives
      exact ⟨_, rfl⟩
  | memConnect other notAdded allowed => cases drives

variable (names : (result.decls.map Prod.fst).Nodup)

include names

/-- Coverage and report declare different names. -/
theorem disjoint {name : String} (declared : name ∈ declaredNames added) :
    name ∉ declaredNames (InstrAssert.addedStmts mod.instances.dedup mod) := by
  rw [outcome.names_perm.nodup_iff] at names
  have addedNames := (List.nodup_append'.mp (List.nodup_append'.mp names).2.1).2.1
  rw [List.filterMap_append, List.map_append] at addedNames
  exact List.disjoint_of_nodup_append addedNames declared

/-- No added connect drives a name that the module has. -/
theorem not_driven {name : String} (isDecl : name ∈ mod.decls.map Prod.fst) {loc expr : Expr}
    (isConnect : .connect loc expr ∈ added ++ InstrAssert.addedStmts mod.instances.dedup mod) :
    loc.signal ≠ [name] := by
  intro drives
  obtain ⟨tpe, rfl⟩ := outcome.exists_ref isConnect drives
  apply outcome.fresh names isDecl
  rw [List.filterMap_append, List.map_append]
  rcases List.mem_append.mp isConnect with inCov | inAssert
  · rcases List.mem_append.mp (InstrCov.selfDriven_addedStmts outcome.isAdded name tpe expr inCov)
      with declared | other
    · exact List.mem_append_right _ (List.mem_append_left _ declared)
    · rw [List.mem_singleton.mp other]
      exact List.mem_append_left _ (List.mem_append_left _ List.mem_cons_self)
  · rcases List.mem_append.mp (InstrAssert.selfDriven_addedStmts name tpe expr inAssert) with
      declared | other
    · exact List.mem_append_right _ (List.mem_append_right _ declared)
    · rw [List.mem_singleton.mp other]
      exact List.mem_append_left _
        (List.mem_append_left _ (List.mem_cons_of_mem _ List.mem_cons_self))

/-- The register of the report has one connect, which is in the report. -/
theorem assertReg_driver {clock : String} {top : Expr}
    (clocked : InstrAssert.clockName mod = some clock)
    (isTop : (InstrAssert.allOr mod.instances.dedup mod).1 = some top) {loc expr : Expr}
    (isConnect : .connect loc expr ∈ added ++ InstrAssert.addedStmts mod.instances.dedup mod)
    (drives : loc.signal = [(InstrAssert.assertReg mod.name clock).name]) :
    loc = uref (InstrAssert.assertReg mod.name clock).name 1 ∧
      expr = .doPrim2 .or (uref (InstrAssert.assertReg mod.name clock).name 1) top [] (.uint 1) := by
  have isReg : InstrAssert.assertReg mod.name clock ∈ mod.resetRegs := by
    apply List.mem_append_right
    rw [Option.mem_toList]
    exact InstrAssert.moduleAssertReg_eq_some_iff.mpr ⟨clock, top, clocked, isTop, rfl⟩
  have isResult := outcome.mem_registers isReg
  have isDecl := (InstrAssert.mem_addedStmts_of_top clocked isTop).1
  obtain ⟨tpe, rfl⟩ := outcome.exists_ref isConnect drives
  have notPort : ∀ port ∈ [InstrCov.covSumPort, InstrAssert.assertPort, InstrReset.metaResetPort],
      (InstrAssert.assertReg mod.name clock).name ≠ port.name :=
    fun port isPort => (outcome.combinational_of_port isPort).ne_register names isResult
  rcases List.mem_append.mp isConnect with inCov | inAssert
  · rcases List.mem_append.mp (InstrCov.selfDriven_addedStmts outcome.isAdded _ tpe expr inCov)
      with declared | other
    · exact absurd (mem_declaredNames_of_stmt isDecl rfl) (outcome.disjoint names declared)
    · exact absurd (List.mem_singleton.mp other) (notPort _ List.mem_cons_self)
  · rcases InstrAssert.connect_cases inAssert with ⟨wire, isWire⟩ | inCon
    · exact absurd rfl ((outcome.combinational_of_wire
        (List.mem_append_right _ isWire)).ne_register names isResult)
    · rw [InstrAssert.conStmts_eq clocked isTop] at inCon
      simp only [List.mem_cons, List.not_mem_nil, or_false, reduceCtorEq, false_or] at inCon
      rcases inCon with same | same
      · cases same
        exact ⟨rfl, rfl⟩
      · exact absurd (Expr.ref.inj (Stmt.connect.inj same).1).1
          (notPort _ (List.mem_cons_of_mem _ List.mem_cons_self))

/-- The register of the report is new. -/
theorem assertReg_not_declared {clock : String} {top : Expr}
    (clocked : InstrAssert.clockName mod = some clock)
    (isTop : (InstrAssert.allOr mod.instances.dedup mod).1 = some top) :
    (InstrAssert.assertReg mod.name clock).name ∉ mod.decls.map Prod.fst := by
  intro isName
  apply outcome.fresh names isName
  rw [List.filterMap_append, List.map_append]
  exact List.mem_append_right _ (List.mem_append_right _
    (mem_declaredNames_of_stmt (InstrAssert.mem_addedStmts_of_top clocked isTop).1 rfl))

/-- A register that is reset has one connect. -/
theorem exists_driver {circuit : Circuit} (lowForm : circuit.LowForm) (isBody : mod ∈ circuit.bodies)
    {reg : Register} (isReg : reg ∈ mod.resetRegs) :
    ∃ tpe driver,
      .connect (.ref reg.name tpe) driver ∈
        mod.stmts ++ added ++ InstrAssert.addedStmts mod.instances.dedup mod ∧
      ∀ loc expr, .connect loc expr ∈
          mod.stmts ++ added ++ InstrAssert.addedStmts mod.instances.dedup mod →
        loc.signal = [reg.name] → loc = .ref reg.name tpe ∧ expr = driver := by
  rw [List.append_assoc]
  rcases List.mem_append.mp isReg with old | assert
  · have isOld := List.mem_dedup.mp old
    have isDecl : reg.name ∈ mod.decls.map Prod.fst :=
      List.mem_map_of_mem (Module.mem_decls_of_register isOld)
    obtain ⟨tpe, driver, only⟩ := lowForm.connected mod isBody reg isOld
    have isDriver : Stmt.connect (.ref reg.name tpe) driver ∈
        mod.stmts.filter fun stmt => stmt.target = some [reg.name] :=
      only ▸ List.mem_singleton_self _
    refine ⟨tpe, driver, List.mem_append_left _ (List.mem_of_mem_filter isDriver), ?_⟩
    intro loc expr isConnect drives
    rcases List.mem_append.mp isConnect with inMod | inAdded
    · have inFilter : Stmt.connect loc expr ∈
          mod.stmts.filter fun stmt => stmt.target = some [reg.name] :=
        List.mem_filter.mpr ⟨inMod, decide_eq_true (congrArg some drives)⟩
      rw [only] at inFilter
      cases List.mem_singleton.mp inFilter
      exact ⟨rfl, rfl⟩
    · exact absurd drives (outcome.not_driven names isDecl inAdded)
  · obtain ⟨clock, top, clocked, isTop, rfl⟩ :=
      InstrAssert.moduleAssertReg_eq_some_iff.mp (Option.mem_toList.mp assert)
    have inCon := (InstrAssert.mem_addedStmts_of_top clocked isTop).2
    refine ⟨_, _, List.mem_append_right _ (List.mem_append_right _ inCon), ?_⟩
    intro loc expr isConnect drives
    rcases List.mem_append.mp isConnect with inMod | inAdded
    · have declares := lowForm.declares_of_connect isBody inMod
      rw [drives] at declares
      exact absurd declares (outcome.assertReg_not_declared names clocked isTop)
    · exact outcome.assertReg_driver names clocked isTop inAdded drives

end Outcome

end Difftest.Firrtl
