import Difftest.Firrtl.Hierarchy

/-!
# What the three passes leave

An instrumented module has the statements it had, those of the coverage and those of the
report, with a multiplexer on each connect of one of its registers or of the register of
the report, and the resets of its instances.  Declared names are unique in a circuit that
runs, so the connect of an added wire or port is left alone and gives it its value.
-/

namespace Difftest.Firrtl

/-! ## Declared names -/

namespace Module

variable {mod : Module}

theorem decl_unique (names : (mod.decls.map Prod.fst).Nodup) {name : String} {first second : Decl}
    (isFirst : (name, first) ∈ mod.decls) (isSecond : (name, second) ∈ mod.decls) :
    first = second :=
  congrArg Prod.snd (List.inj_on_of_nodup_map names isFirst isSecond rfl)

theorem mem_decls_of_stmt {stmt : Stmt} (isStmt : stmt ∈ mod.stmts) {name : String} {decl : Decl}
    (declares : stmt.decl = some (name, decl)) : (name, decl) ∈ mod.decls :=
  List.mem_append_right _ (List.mem_filterMap.mpr ⟨stmt, isStmt, declares⟩)

theorem mem_decls_of_port {port : Port} (isPort : port ∈ mod.ports) :
    (port.name, .port port) ∈ mod.decls :=
  List.mem_append_left _ (List.mem_map_of_mem isPort)

theorem mem_registers_iff {reg : Register} :
    reg ∈ mod.registers ↔ .defRegister reg ∈ mod.stmts := by
  rw [registers, List.mem_filterMap]
  constructor
  · rintro ⟨stmt, isStmt, isReg⟩
    cases stmt with
    | defRegister other =>
        cases isReg
        exact isStmt
    | _ => cases isReg
  · exact fun isStmt => ⟨_, isStmt, rfl⟩

theorem mem_decls_of_register {reg : Register} (isReg : reg ∈ mod.registers) :
    (reg.name, .register reg) ∈ mod.decls :=
  mem_decls_of_stmt (mem_registers_iff.mp isReg) rfl

/-- A port or a wire. -/
def Combinational (mod : Module) (name : String) : Prop :=
  (∃ tpe, (name, .wire tpe) ∈ mod.decls) ∨ ∃ port, (name, .port port) ∈ mod.decls

theorem Combinational.ne_register (names : (mod.decls.map Prod.fst).Nodup) {name : String}
    (combinational : mod.Combinational name) {reg : Register} (isReg : reg ∈ mod.registers) :
    reg.name ≠ name := by
  rintro rfl
  have isDecl := mem_decls_of_register isReg
  rcases combinational with ⟨tpe, isWire⟩ | ⟨port, isPort⟩
  · cases decl_unique names isDecl isWire
  · cases decl_unique names isDecl isPort

/-- A connect gives a port or a wire the value of its expression. -/
theorem Obeys.connect_eq (names : (mod.decls.map Prod.fst).Nodup) {env env' : Env}
    (obeys : mod.Obeys env env') {name : String} (combinational : mod.Combinational name)
    {tpe : Ty} {expr : Expr} (isStmt : .connect (.ref name tpe) expr ∈ mod.stmts) :
    env [name] = tpe.fit (expr.eval env) := by
  apply (obeys.2 _ isStmt).2
  intro reg isReg same
  exact combinational.ne_register names isReg (List.singleton_inj.mp same)

end Module

/-! ## The report of a covered module -/

namespace InstrAssert

/-- What is added depends on the name, the stops and the clock only. -/
theorem addedStmts_congr {insts : List Instance} {first second : Module}
    (name : first.name = second.name) (stops : findStop first = findStop second)
    (clock : clockName first = clockName second) :
    addedStmts insts first = addedStmts insts second ∧
      moduleAssertReg insts first = moduleAssertReg insts second := by
  have ens : stopEns first = stopEns second := by rw [stopEns, stops, stopEns]
  have or : allOr insts first = allOr insts second := by
    rw [allOr, allOr, ens, name]
  constructor
  · rw [addedStmts, addedStmts, conStmts, conStmts, ens, or, clock, name]
  · rw [moduleAssertReg, moduleAssertReg, or, clock, name]

/-- A module has a register for the report when it has a clock and something to report. -/
theorem moduleAssertReg_eq_some_iff {insts : List Instance} {mod : Module} {reg : Register} :
    moduleAssertReg insts mod = some reg ↔ ∃ clock top, clockName mod = some clock ∧
      (allOr insts mod).1 = some top ∧ reg = assertReg mod.name clock := by
  simp only [moduleAssertReg, Option.bind_eq_some_iff, Option.map_eq_some_iff]
  constructor
  · rintro ⟨clock, clocked, top, isTop, rfl⟩
    exact ⟨clock, top, clocked, isTop, rfl⟩
  · rintro ⟨clock, top, clocked, isTop, rfl⟩
    exact ⟨clock, clocked, top, isTop, rfl⟩

/-- The port of the coverage is neither a clock nor a reset. -/
theorem clockName_covSumPort {first second : Module}
    (ports : second.ports = first.ports ++ [InstrCov.covSumPort]) :
    clockName second = clockName first := by
  have notClock : InstrCov.covSumPort.name ≠ "clock" := by decide
  have notReset : ¬ "reset".toList <:+: InstrCov.covSumPort.name.toList := by decide
  rw [clockName, clockName, ports, List.foldl_append, List.foldl_cons, List.foldl_nil]
  simp only [if_neg notClock, if_neg notReset]

end InstrAssert

/-! ## One module -/

/-- The registers that the last pass resets. -/
def Module.resetRegs (mod : Module) : List Register :=
  mod.registers.dedup ++ (InstrAssert.moduleAssertReg mod.instances.dedup mod).toList

/-- What is left of a module, with its graph and the statements of its coverage. -/
structure Outcome (choices : Choices) (extModules : List String) (mod result : Module)
    (info : ModuleInfo) (added : List Stmt) : Prop where
  interface : Instrumented extModules mod result
  isInfo : mod.info (choices.vecRegs mod.name) = some info
  isAdded : InstrCov.addedStmts info (choices.draws mod.name) extModules mod = some added
  ints : ∀ reg ∈ mod.registers, reg.tpe.isInt = true
  stmts : result.stmts =
    (mod.stmts ++ added ++ InstrAssert.addedStmts mod.instances.dedup mod).map
        (InstrReset.addMetaReset mod.resetRegs) ++
      mod.instances.dedup.map InstrReset.resetCon

section

variable {choices : Choices} {extModules : List String} {mod result : Module} {info : ModuleInfo}
  {added : List Stmt}

/-- A property of added expressions that holds of every expression. -/
theorem Expr.closed_true : Expr.Closed fun _ => True where
  literal := fun _ _ => trivial
  ref := fun _ => trivial
  memField := fun _ _ => trivial
  mux := fun _ _ _ => trivial
  doPrim1 := fun _ => trivial
  doPrim2 := fun _ _ => trivial

theorem Stmt.Added.noStop {holds : Expr → Prop} {stmt : Stmt} (added : stmt.Added holds)
    (ret : Int) (clk en : Expr) : stmt ≠ .stop ret clk en := by
  rintro rfl
  cases added

theorem findStop_append {added : List Stmt} {holds : Expr → Prop} {before after : Module}
    (stmts : after.stmts = before.stmts ++ added) (forms : ∀ stmt ∈ added, stmt.Added holds) :
    InstrAssert.findStop after = InstrAssert.findStop before := by
  rw [InstrAssert.findStop, InstrAssert.findStop, stmts, List.filterMap_append,
    List.append_right_eq_self, List.filterMap_eq_nil_iff]
  intro stmt mem
  cases stmt with
  | stop ret clk en => exact absurd rfl ((forms _ mem).noStop ret clk en)
  | _ => rfl

theorem exists_outcome
    (instrumented : RegCoverage.instrument choices extModules mod = some result) :
    ∃ info added, Outcome choices extModules mod result info added := by
  obtain ⟨info, covered, isInfo, ints, isCovered, passes⟩ :=
    RegCoverage.exists_passes instrumented
  obtain ⟨_, insts, regs⟩ := Module.info_eq isInfo
  obtain ⟨added, isAdded, coveredStmts⟩ := InstrCov.stmts_instrument isCovered
  obtain ⟨name, ports⟩ := InstrCov.ports_instrument isCovered
  have forms := InstrCov.added_addedStmts Expr.closed_true isAdded (fun _ _ _ => trivial)
    (fun _ _ => trivial) (fun _ _ => trivial)
  have same := @InstrAssert.addedStmts_congr info.insts _ _ name
    (findStop_append coveredStmts forms) (InstrAssert.clockName_covSumPort ports)
  refine ⟨info, added, RegCoverage.instrumented_of_instrument instrumented, isInfo, isAdded, ?_, ?_⟩
  · intro reg isReg
    exact ints reg (regs ▸ List.mem_dedup.mpr isReg)
  · rw [← passes, InstrReset.stmts_instrument, InstrAssert.stmts_instrument, coveredStmts,
      same.1, same.2, insts, regs]
    rfl

namespace Outcome

variable (outcome : Outcome choices extModules mod result info added)

include outcome

theorem mem_stmts {stmt : Stmt}
    (isStmt : stmt ∈ mod.stmts ++ added ++ InstrAssert.addedStmts mod.instances.dedup mod) :
    InstrReset.addMetaReset mod.resetRegs stmt ∈ result.stmts := by
  rw [outcome.stmts]
  exact List.mem_append_left _ (List.mem_map_of_mem isStmt)

/-- The statements that are added before the resets. -/
theorem stmts_decl : result.stmts.filterMap Stmt.decl =
    mod.stmts.filterMap Stmt.decl ++
      (added ++ InstrAssert.addedStmts mod.instances.dedup mod).filterMap Stmt.decl := by
  have keeps : Stmt.decl ∘ InstrReset.addMetaReset mod.resetRegs = Stmt.decl :=
    funext fun stmt => InstrReset.decl_addMetaReset _ stmt
  have noDecl : (mod.instances.dedup.map InstrReset.resetCon).filterMap Stmt.decl = [] := by
    rw [List.filterMap_eq_nil_iff]
    intro stmt isReset
    obtain ⟨inst, _, rfl⟩ := List.mem_map.mp isReset
    rfl
  rw [outcome.stmts, List.filterMap_append, noDecl, List.append_nil, List.filterMap_map, keeps,
    List.append_assoc, List.filterMap_append]

/-- The names of the result are those of the module and the added ones. -/
theorem names_perm : (result.decls.map Prod.fst).Perm (mod.decls.map Prod.fst ++
    (addedPorts ++ mod.instances.dedup.map (fun inst => inst.name ++ "_halt") ++
      ((added ++ InstrAssert.addedStmts mod.instances.dedup mod).filterMap Stmt.decl).map
        Prod.fst)) := by
  have ports : (result.ports.map fun port => (port.name, Decl.port port)).map Prod.fst =
      mod.ports.map Port.name ++
        (addedPorts ++ mod.instances.dedup.map fun inst => inst.name ++ "_halt") := by
    rw [outcome.interface.ports, List.map_map, List.map_append, List.map_append,
      List.map_map, List.append_assoc]
    rfl
  have before : (mod.ports.map fun port => (port.name, Decl.port port)).map Prod.fst =
      mod.ports.map Port.name := by
    rw [List.map_map]
    rfl
  have swap : ∀ first second third fourth : List String,
      (first ++ second ++ (third ++ fourth)).Perm (first ++ third ++ (second ++ fourth)) := by
    intro first second third fourth
    rw [List.append_assoc, List.append_assoc]
    apply List.Perm.append_left
    rw [← List.append_assoc, ← List.append_assoc]
    exact List.perm_append_comm.append_right fourth
  rw [Module.decls, Module.decls, List.map_append, ports, outcome.stmts_decl, List.map_append,
    List.map_append, before]
  exact swap _ _ _ _

/-- No added name was declared before. -/
theorem fresh (names : (result.decls.map Prod.fst).Nodup) {name : String}
    (isDecl : name ∈ mod.decls.map Prod.fst) :
    name ∉ addedPorts ++ mod.instances.dedup.map (fun inst => inst.name ++ "_halt") ++
      ((added ++ InstrAssert.addedStmts mod.instances.dedup mod).filterMap Stmt.decl).map
        Prod.fst := by
  rw [outcome.names_perm.nodup_iff] at names
  exact fun isAdded => List.disjoint_of_nodup_append names isDecl isAdded

/-- The registers that are reset are registers of the result. -/
theorem mem_registers {reg : Register} (isReg : reg ∈ mod.resetRegs) :
    reg ∈ result.registers := by
  have isStmt : Stmt.defRegister reg ∈
      mod.stmts ++ added ++ InstrAssert.addedStmts mod.instances.dedup mod := by
    rcases List.mem_append.mp isReg with old | assert
    · apply List.mem_append_left
      apply List.mem_append_left
      exact Module.mem_registers_iff.mp (List.mem_dedup.mp old)
    · apply List.mem_append_right
      obtain ⟨clock, top, clocked, isTop, rfl⟩ :=
        InstrAssert.moduleAssertReg_eq_some_iff.mp (Option.mem_toList.mp assert)
      rw [InstrAssert.addedStmts]
      apply List.mem_append_right
      rw [InstrAssert.conStmts, isTop]
      simp only [clocked]
      exact List.mem_cons_self
  rw [Module.mem_registers_iff]
  exact outcome.mem_stmts isStmt

theorem combinational_of_wire {name : String} {tpe : Ty}
    (isWire : .defWire name tpe ∈
      mod.stmts ++ added ++ InstrAssert.addedStmts mod.instances.dedup mod) :
    result.Combinational name :=
  Or.inl ⟨tpe, Module.mem_decls_of_stmt (outcome.mem_stmts isWire) rfl⟩

theorem combinational_of_port {port : Port}
    (isPort : port ∈ [InstrCov.covSumPort, InstrAssert.assertPort, InstrReset.metaResetPort]) :
    result.Combinational port.name := by
  have isResult : port ∈ result.ports := by
    rw [outcome.interface.ports]
    exact List.mem_append_left _ (List.mem_append_right _ isPort)
  exact Or.inr ⟨port, Module.mem_decls_of_port isResult⟩

/-- The connect of an added wire or port gives it the value of its expression. -/
theorem connect_eq (names : (result.decls.map Prod.fst).Nodup) {env env' : Env}
    (obeys : result.Obeys env env') {name : String} (combinational : result.Combinational name)
    {tpe : Ty} {expr : Expr}
    (isStmt : .connect (.ref name tpe) expr ∈
      mod.stmts ++ added ++ InstrAssert.addedStmts mod.instances.dedup mod) :
    env [name] = tpe.fit (expr.eval env) := by
  have alone : InstrReset.addMetaReset mod.resetRegs (.connect (.ref name tpe) expr) =
      .connect (.ref name tpe) expr := by
    have noReg : mod.resetRegs.find? (fun reg => reg.name = (Expr.ref name tpe).serialize) =
        none := by
      rw [List.find?_eq_none]
      intro reg isReg
      rw [decide_eq_true_eq]
      exact combinational.ne_register names (outcome.mem_registers isReg)
    simp only [InstrReset.addMetaReset, noReg]
  apply obeys.connect_eq names combinational
  rw [← alone]
  exact outcome.mem_stmts isStmt

/-- An added node has the value of its expression. -/
theorem node_eq {env env' : Env} (obeys : result.Obeys env env') {name : String} {value : Expr}
    (isStmt : .defNode name value ∈
      mod.stmts ++ added ++ InstrAssert.addedStmts mod.instances.dedup mod) :
    env [name] = value.eval env :=
  obeys.2 _ (outcome.mem_stmts isStmt)

/-- The connect of a register that is reset gets a multiplexer. -/
theorem addMetaReset_reg (names : (result.decls.map Prod.fst).Nodup) {reg : Register}
    (isReg : reg ∈ mod.resetRegs) (tpe : Ty) (expr : Expr) :
    InstrReset.addMetaReset mod.resetRegs (.connect (.ref reg.name tpe) expr) =
      .connect (.ref reg.name tpe)
        (.mux (uref "metaReset" 1) (.uintLiteral 0 reg.tpe.width) expr .unknown) := by
  have found : mod.resetRegs.find? (fun other => other.name =
      (Expr.ref reg.name tpe).serialize) = some reg := by
    have isSome : (mod.resetRegs.find? fun other => other.name =
        (Expr.ref reg.name tpe).serialize).isSome := by
      rw [List.find?_isSome]
      exact ⟨reg, isReg, decide_eq_true rfl⟩
    obtain ⟨other, isOther⟩ := Option.isSome_iff_exists.mp isSome
    have named := List.find?_some isOther
    rw [decide_eq_true_eq, Expr.serialize] at named
    have isDecl := Module.mem_decls_of_register (outcome.mem_registers isReg)
    have otherDecl := Module.mem_decls_of_register
      (outcome.mem_registers (List.mem_of_find?_eq_some isOther))
    rw [named] at otherDecl
    cases Module.decl_unique names isDecl otherDecl
    exact isOther
  simp only [InstrReset.addMetaReset, found]
  rfl

/-- A register that is reset follows its connect behind a multiplexer. -/
theorem follows (names : (result.decls.map Prod.fst).Nodup) {env env' : Env}
    (obeys : result.Obeys env env') {reg : Register} (isReg : reg ∈ mod.resetRegs) {tpe : Ty}
    {expr : Expr}
    (isStmt : .connect (.ref reg.name tpe) expr ∈
      mod.stmts ++ added ++ InstrAssert.addedStmts mod.instances.dedup mod) :
    reg.Follows env env'
      (.mux (uref "metaReset" 1) (.uintLiteral 0 reg.tpe.width) expr .unknown) := by
  have isResult := outcome.mem_stmts isStmt
  rw [outcome.addMetaReset_reg names isReg] at isResult
  exact (obeys.2 _ isResult).1 reg (outcome.mem_registers isReg) rfl

/-- The reset of an instance. -/
theorem metaReset_eq {env env' : Env} (obeys : result.Obeys env env') {inst : Instance}
    (isInst : inst ∈ mod.instances) :
    env [inst.name, "metaReset"] =
      (Expr.doPrim2 .or (uref "metaReset" 1) (uref (inst.name ++ "_halt") 1) []
        (.uint 1)).eval env := by
  have isResult : InstrReset.resetCon inst ∈ result.stmts := by
    rw [outcome.stmts]
    exact List.mem_append_right _ (List.mem_map_of_mem (List.mem_dedup.mpr isInst))
  apply (obeys.2 _ isResult).2
  intro reg _ same
  exact absurd (congrArg List.length same) (by simp [Expr.signal])

end Outcome

end

/-! ## The circuit -/

section Circuit

open RegCoverage

variable {choices : Choices} {circuit result : Circuit}

theorem names_execute (executed : execute choices circuit = some result) :
    result.modules.map DefModule.name = circuit.modules.map DefModule.name := by
  obtain ⟨modules, traversed, rfl⟩ := Option.map_eq_some_iff.mp executed
  have related := forall₂_of_mapM_eq_some traversed
  have names : List.Forall₂ (fun first second => first.name = second.name) circuit.modules
      modules := by
    apply related.imp
    intro before after computed
    cases before with
    | internal mod =>
        obtain ⟨mod', instrumented, rfl⟩ := Option.map_eq_some_iff.mp computed
        exact (instrumented_of_instrument instrumented).name.symm
    | external name ports =>
        cases computed
        rfl
  rw [← List.forall₂_eq_eq_eq, List.forall₂_map_left_iff, List.forall₂_map_right_iff]
  exact names.flip.imp fun _ _ => Eq.symm

namespace Circuit.Linked

variable (linked : circuit.Linked) (executed : execute choices circuit = some result)

include linked executed

theorem body?_execute_iff {name : String} {mod' : Module} :
    result.body? name = some mod' ↔ ∃ mod, circuit.body? name = some mod ∧
      instrument choices (extModules circuit) mod = some mod' := by
  have unique := names_execute executed ▸ linked.modules
  rw [Circuit.body?_eq_some_iff unique, mem_bodies_execute_iff executed]
  simp only [Circuit.body?_eq_some_iff linked.modules]
  constructor
  · rintro ⟨⟨mod, isBody, instrumented⟩, rfl⟩
    exact ⟨mod, ⟨isBody, (instrumented_of_instrument instrumented).name.symm⟩, instrumented⟩
  · rintro ⟨mod, ⟨isBody, rfl⟩, instrumented⟩
    exact ⟨⟨mod, isBody, instrumented⟩, (instrumented_of_instrument instrumented).name⟩

theorem sub?_execute_iff {mod mod' : Module}
    (instrumented : instrument choices (extModules circuit) mod = some mod') {name : String}
    {sub' : Module} :
    result.sub? mod' name = some sub' ↔ ∃ sub, circuit.sub? mod name = some sub ∧
      instrument choices (extModules circuit) sub = some sub' := by
  rw [Circuit.sub?, Circuit.sub?, (instrumented_of_instrument instrumented).instances]
  simp only [Option.bind_eq_some_iff, linked.body?_execute_iff executed]
  constructor
  · rintro ⟨inst, isInst, sub, isSub, subInstrumented⟩
    exact ⟨sub, ⟨inst, isInst, isSub⟩, subInstrumented⟩
  · rintro ⟨sub, ⟨inst, isInst, isSub⟩, subInstrumented⟩
    exact ⟨inst, isInst, sub, isSub, subInstrumented⟩

/-- The instances of the result are those of the circuit. -/
theorem moduleAt_execute_iff {path : List String} {mod' : Module} :
    result.moduleAt path = some mod' ↔ ∃ mod, circuit.moduleAt path = some mod ∧
      instrument choices (extModules circuit) mod = some mod' := by
  induction path using List.reverseRecOn generalizing mod' with
  | nil =>
      have main : result.main = circuit.main := by
        obtain ⟨modules, _, rfl⟩ := Option.map_eq_some_iff.mp executed
        rfl
      rw [Circuit.moduleAt_nil, Circuit.moduleAt_nil, main]
      exact linked.body?_execute_iff executed
  | append_singleton path name inductionHypothesis =>
      simp only [Circuit.moduleAt_concat, Option.bind_eq_some_iff]
      constructor
      · rintro ⟨outer', isOuter', found⟩
        obtain ⟨outer, isOuter, instrumented⟩ := inductionHypothesis.mp isOuter'
        obtain ⟨sub, isSub, subInstrumented⟩ :=
          (linked.sub?_execute_iff executed instrumented).mp found
        exact ⟨sub, ⟨outer, isOuter, isSub⟩, subInstrumented⟩
      · rintro ⟨sub, ⟨outer, isOuter, isSub⟩, subInstrumented⟩
        obtain ⟨outer', _, instrumented⟩ :=
          exists_execute executed (Circuit.mem_bodies_of_moduleAt isOuter)
        refine ⟨outer', inductionHypothesis.mpr ⟨outer, isOuter, instrumented⟩, ?_⟩
        exact (linked.sub?_execute_iff executed instrumented).mpr ⟨sub, isSub, subInstrumented⟩

variable {v : List String → Nat → Env} {words : List String → Nat → Words}

/-- In a run of the result every instance obeys what is left of its module. -/
theorem exists_run (runs : result.Runs v words) {path : List String} {mod : Module}
    (isModule : circuit.moduleAt path = some mod) :
    ∃ mod' info added, Outcome choices (extModules circuit) mod mod' info added ∧
      result.moduleAt path = some mod' ∧ (mod'.decls.map Prod.fst).Nodup ∧
        ∀ t, mod'.Obeys (v path t) (v path (t + 1)) := by
  obtain ⟨mod', isResult, instrumented⟩ :=
    exists_execute executed (Circuit.mem_bodies_of_moduleAt isModule)
  have isModule' := (linked.moduleAt_execute_iff executed).mpr ⟨mod, isModule, instrumented⟩
  obtain ⟨info, added, outcome⟩ := exists_outcome instrumented
  exact ⟨mod', info, added, outcome, isModule', runs.names mod' isResult,
    fun t => (runs.steps t).obeys isModule'⟩

/-- An added port of an instance carries the same inside and outside. -/
theorem port_eq (runs : result.Runs v words) {path : List String} {mod sub : Module}
    (isModule : circuit.moduleAt path = some mod) {name : String}
    (found : circuit.sub? mod name = some sub) {port : Port}
    (isPort : port ∈ [InstrCov.covSumPort, InstrAssert.assertPort, InstrReset.metaResetPort])
    (t : Nat) : v path t [name, port.name] = v (path ++ [name]) t [port.name] := by
  obtain ⟨mod', _, instrumented⟩ :=
    exists_execute executed (Circuit.mem_bodies_of_moduleAt isModule)
  obtain ⟨sub', _, subInstrumented⟩ :=
    exists_execute executed (Circuit.mem_bodies_of_sub? found)
  have isModule' := (linked.moduleAt_execute_iff executed).mpr ⟨mod, isModule, instrumented⟩
  have found' := (linked.sub?_execute_iff executed instrumented).mpr ⟨sub, found, subInstrumented⟩
  apply (runs.steps t).ports isModule' found'
  rw [(instrumented_of_instrument subInstrumented).ports]
  exact List.mem_append_left _ (List.mem_append_right _ isPort)

/-- A run of a top around modules without instances. -/
theorem runs_of_leaves {top : Module} (isTop : circuit.body? circuit.main = some top)
    {leaves : List (String × Module)}
    (subs : ∀ name sub, circuit.sub? top name = some sub → (name, sub) ∈ leaves)
    (noInstances : ∀ leaf ∈ leaves, leaf.2.instances = [])
    (names : ∀ mod ∈ circuit.bodies, ∀ mod' ∈ instrument choices (extModules circuit) mod,
      (mod'.decls.map Prod.fst).Nodup)
    (topRuns : ∀ top' ∈ instrument choices (extModules circuit) top,
      top'.Runs (v []) (words []))
    (leafRuns : ∀ leaf ∈ leaves, ∀ mod' ∈ instrument choices (extModules circuit) leaf.2,
      mod'.Runs (v [leaf.1]) (words [leaf.1]) ∧
        ∀ port ∈ mod'.ports, ∀ t, v [] t [leaf.1, port.name] = v [leaf.1] t [port.name]) :
    result.Runs v words := by
  constructor
  · intro mod' isResult
    obtain ⟨mod, isBody, instrumented⟩ := (mem_bodies_execute_iff executed mod').mp isResult
    exact names mod isBody mod' instrumented
  · intro t
    constructor
    · intro path mod' isModule'
      obtain ⟨mod, isModule, instrumented⟩ := (linked.moduleAt_execute_iff executed).mp isModule'
      rcases Circuit.moduleAt_cases isTop subs noInstances isModule with
        ⟨rfl, rfl⟩ | ⟨leaf, isLeaf, rfl, rfl⟩
      · exact (topRuns mod' instrumented).step t
      · exact (leafRuns leaf isLeaf mod' instrumented).1.step t
    · intro path mod' isModule' name sub' found'
      obtain ⟨mod, isModule, instrumented⟩ := (linked.moduleAt_execute_iff executed).mp isModule'
      obtain ⟨sub, found, subInstrumented⟩ :=
        (linked.sub?_execute_iff executed instrumented).mp found'
      rcases Circuit.moduleAt_cases isTop subs noInstances isModule with
        ⟨rfl, rfl⟩ | ⟨leaf, isLeaf, rfl, rfl⟩
      · exact fun port isPort =>
          (leafRuns _ (subs name sub found) sub' subInstrumented).2 port isPort t
      · obtain ⟨inst, isInst, _⟩ := Circuit.exists_instance_of_sub? found
        rw [noInstances leaf isLeaf] at isInst
        cases isInst
  · intro path mod' isModule'
    obtain ⟨mod, isModule, instrumented⟩ := (linked.moduleAt_execute_iff executed).mp isModule'
    rcases Circuit.moduleAt_cases isTop subs noInstances isModule with
      ⟨rfl, rfl⟩ | ⟨leaf, isLeaf, rfl, rfl⟩
    · exact (topRuns mod' instrumented).memory
    · exact (leafRuns leaf isLeaf mod' instrumented).1.memory

end Circuit.Linked

end Circuit

end Difftest.Firrtl
