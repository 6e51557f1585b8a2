import Difftest.Firrtl.InstrCov

/-!
# The three passes

`regCoverage.execute` adds the coverage of every module, then a port `metaAssert` that
reports the stops of a module and of its instances, then a port `metaReset` that holds the
registers of a module at zero.  `none` is a raised exception.  The files and the summary
that it prints are left out.
-/

namespace Difftest.Firrtl

/-! ## Stops -/

namespace InstrAssert

/-- `assertPort`. -/
def assertPort : Port := ⟨"metaAssert", .output, .uint 1⟩

/-- `hasClockAndReset`: the name of the clock, if there is also a reset. -/
def clockName (mod : Module) : Option String :=
  let (clockName, resetName) := mod.ports.foldl (fun (clockName, resetName) port =>
    if port.name = "clock" then (some port.name, resetName)
    else if "reset".toList <:+: port.name.toList then (clockName, some port.name)
    else (clockName, resetName)) ((none : Option String), (none : Option String))
  resetName.bind fun _ => clockName

/-- `findStop`: the enables of the stops. -/
def findStop (mod : Module) : List Expr :=
  mod.stmts.filterMap fun
    | .stop _ _ en => some en
    | _ => none

/-- `stopEns`: the name of a node for each stop. -/
def stopEns (mod : Module) : List (String × Expr) :=
  (findStop mod).zipIdx.map fun (en, i) => ("stopEn" ++ toString i, en)

/-- The wire that carries the report of an instance. -/
def assertWire (inst : Instance) : String := inst.name ++ "_metaAssert_wire"

/-- `instAssertCons`. -/
def instAssertCon (inst : Instance) : Stmt :=
  .connect (uref (assertWire inst) 1)
    (.subField (.ref inst.name .unknown) "metaAssert" .unknown)

/-- `makeOr`: a balanced tree of `or`.  The first argument bounds the depth. -/
def makeOr (mName : String) : Nat → List Expr → Nat → Option Expr × List Stmt
  | 0, _, _ => (none, [])
  | fuel + 1, stopEns, id =>
      let orWire := mName ++ ("_or" ++ toString id)
      match stopEns with
      | [] => (none, [])
      | [single] => (some single, [])
      | [first, second] =>
          (some (uref orWire 1),
            [.defWire orWire (.uint 1),
              .connect (uref orWire 1) (.doPrim2 .or first second [] (.uint 1))])
      | _ =>
          match makeOr mName fuel (stopEns.take (stopEns.length / 2)) (2 * id + 1),
            makeOr mName fuel (stopEns.drop (stopEns.length / 2)) (2 * id + 2) with
          | (some or1, stmts1), (some or2, stmts2) =>
              (some (uref orWire 1),
                stmts1 ++ stmts2 ++
                  [.defWire orWire (.uint 1),
                    .connect (uref orWire 1) (.doPrim2 .or or1 or2 [] (.uint 1))])
          -- both halves have a stop
          | _, _ => (none, [])

/-- `assertReg`. -/
def assertReg (mName clock : String) : Register where
  info := []
  name := mName ++ "_metaAssert"
  tpe := .uint 1
  clock := .ref clock .clock
  reset := .uintLiteral 0 1
  init := uref (mName ++ "_metaAssert") 1

/-- `topOr` and `orStmts`. -/
def allOr (insts : List Instance) (mod : Module) : Option Expr × List Stmt :=
  let stopRefs := (stopEns mod).map (fun node => Expr.ref node.1 node.2.tpe) ++
    insts.map fun inst => uref (assertWire inst) 1
  makeOr mod.name stopRefs.length stopRefs 0

/-- The register that keeps the report, if the module has one. -/
def moduleAssertReg (insts : List Instance) (mod : Module) : Option Register :=
  (clockName mod).bind fun clock =>
    (allOr insts mod).1.map fun _ => assertReg mod.name clock

/-- `conStmts`. -/
def conStmts (insts : List Instance) (mod : Module) : List Stmt :=
  match (allOr insts mod).1 with
  | some topOr =>
      match clockName mod with
      | some clock =>
          let reg := assertReg mod.name clock
          [.defRegister reg,
            .connect (uref reg.name 1) (.doPrim2 .or (uref reg.name 1) topOr [] (.uint 1)),
            .connect (uref assertPort.name 1) (uref reg.name 1)]
      | none => [.connect (uref assertPort.name 1) topOr]
  | none => [.connect (uref assertPort.name 1) (.uintLiteral 0 1)]

/-- The statements added to a module. -/
def addedStmts (insts : List Instance) (mod : Module) : List Stmt :=
  (stopEns mod).map (fun node => .defNode node.1 node.2) ++
    insts.map (fun inst => .defWire (assertWire inst) (.uint 1)) ++
    insts.map instAssertCon ++ (allOr insts mod).2 ++ conStmts insts mod

/-- `InstrAssert.instrument`. -/
def instrument (insts : List Instance) (mod : Module) : Module :=
  { mod with
    ports := mod.ports ++ [assertPort]
    body := mod.body ++ (addedStmts insts mod).map Tree.stmt }

theorem stmts_instrument (insts : List Instance) (mod : Module) :
    (instrument insts mod).stmts = mod.stmts ++ addedStmts insts mod := by
  rw [Module.stmts, instrument, Tree.leavesAll_append, Tree.leavesAll_stmts, Module.stmts]

end InstrAssert

/-! ## Resets -/

namespace InstrReset

/-- `metaResetPort`. -/
def metaResetPort : Port := ⟨"metaReset", .input, .uint 1⟩

/-- `instResetPort`. -/
def haltPort (inst : Instance) : Port := ⟨inst.name ++ "_halt", .input, .uint 1⟩

/-- `addMetaReset` on a statement that is no block. -/
def addMetaReset (regs : List Register) : Stmt → Stmt
  | .connect loc expr =>
      match regs.find? fun reg => reg.name = loc.serialize with
      | some reg =>
          .connect loc
            (.mux (uref metaResetPort.name 1) (.uintLiteral 0 reg.tpe.width) expr .unknown)
      | none => .connect loc expr
  | other => other

/-- `instResetCons`. -/
def resetCon (inst : Instance) : Stmt :=
  .connect (.subField (.ref inst.name .unknown) "metaReset" .unknown)
    (.doPrim2 .or (uref metaResetPort.name 1) (uref (haltPort inst).name 1) [] (.uint 1))

/-- `InstrReset.instrument`; the registers include the one of the report. -/
def instrument (insts : List Instance) (regs : List Register) (mod : Module) : Module :=
  { mod with
    ports := mod.ports ++ [metaResetPort] ++ insts.map haltPort
    body := Tree.mapAll (addMetaReset regs) mod.body ++ (insts.map resetCon).map Tree.stmt }

theorem stmts_instrument (insts : List Instance) (regs : List Register) (mod : Module) :
    (instrument insts regs mod).stmts =
      mod.stmts.map (addMetaReset regs) ++ insts.map resetCon := by
  rw [Module.stmts, instrument, Tree.leavesAll_append, Tree.leavesAll_stmts,
    Tree.leavesAll_mapAll, Module.stmts]

end InstrReset

/-! ## Circuits -/

/-- What the passes take from outside: the vectors that `findVecRegs` reports and the
random numbers, for each module. -/
structure Choices where
  vecRegs : String → List VecRegs
  draws : String → List Nat

namespace RegCoverage

variable (choices : Choices)

/-- The three passes on a module with a body. -/
def instrument (extModules : List String) (mod : Module) : Option Module :=
  (mod.info (choices.vecRegs mod.name)).bind fun info =>
    if info.regs.all fun reg => reg.tpe.isInt then
      (InstrCov.instrument info (choices.draws mod.name) extModules mod).map fun covered =>
        let assertReg := InstrAssert.moduleAssertReg info.insts covered
        InstrReset.instrument info.insts (info.regs ++ assertReg.toList)
          (InstrAssert.instrument info.insts covered)
    -- `saveCovResult` raises
    else none

/-- The three passes on a module. -/
def instrumentDef (extModules : List String) : DefModule → Option DefModule
  | .internal mod => (instrument choices extModules mod).map DefModule.internal
  | .external name ports => some (.external name ports)

/-- Names of the external modules. -/
def extModules (circuit : Circuit) : List String :=
  (circuit.modules.filter DefModule.isExternal).map DefModule.name

/-- `regCoverage.execute`. -/
def execute (circuit : Circuit) : Option Circuit :=
  (circuit.modules.mapM (instrumentDef choices (extModules circuit))).map fun modules =>
    { circuit with modules }

/-- The three passes one after the other. -/
theorem exists_passes {choices : Choices} {extModules : List String} {mod result : Module}
    (instrumented : instrument choices extModules mod = some result) :
    ∃ info covered, mod.info (choices.vecRegs mod.name) = some info ∧
      (∀ reg ∈ info.regs, reg.tpe.isInt = true) ∧
      InstrCov.instrument info (choices.draws mod.name) extModules mod = some covered ∧
      InstrReset.instrument info.insts
        (info.regs ++ (InstrAssert.moduleAssertReg info.insts covered).toList)
        (InstrAssert.instrument info.insts covered) = result := by
  obtain ⟨info, isInfo, chosen⟩ := Option.bind_eq_some_iff.mp instrumented
  split at chosen
  · rename_i ints
    obtain ⟨covered, isCovered, same⟩ := Option.map_eq_some_iff.mp chosen
    exact ⟨info, covered, isInfo, List.all_eq_true.mp ints, isCovered, same⟩
  · cases chosen

end RegCoverage

end Difftest.Firrtl
