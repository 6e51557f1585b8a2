import Difftest.Data.Dict
import Difftest.Data.Search
import Difftest.Data.Sequence
import Difftest.Firrtl.Ir

/-!
# The graph of a module

`graphLedger` makes a node of every port and declaration, an edge from each name to
what its value is used in, and searches backwards from the selects of the
multiplexers.  `none` is a raised exception.
-/

namespace Difftest.Firrtl

/-! ## Nodes and edges -/

/-- What the graph keeps for a name. -/
inductive Decl where
  | port (port : Port)
  | wire (tpe : Ty)
  | register (reg : Register)
  | node (value : Expr)
  | memory (mem : Memory)
  | instance (inst : Instance)
deriving DecidableEq, Repr

/-- The name a statement declares, and what it declares. -/
def Stmt.decl : Stmt → Option (String × Decl)
  | defWire name tpe => some (name, .wire tpe)
  | defRegister reg => some (reg.name, .register reg)
  | defInstance inst => some (inst.name, .instance inst)
  | defMemory mem => some (mem.name, .memory mem)
  | defNode name value => some (name, .node value)
  | _ => none

/-- `findNode`: the ports, then the declarations of the statements. -/
def Module.decls (mod : Module) : List (String × Decl) :=
  mod.ports.map (fun port => (port.name, .port port)) ++ mod.stmts.filterMap Stmt.decl

/-- `graphMap`, without the edges. -/
def Module.graphMap (mod : Module) : Dict String Decl :=
  Dict.ofList mod.decls

/-- `findName`: the name behind a location. -/
def findName : Expr → Option String
  | .ref name _ => some name
  | .subField expr _ _ => findName expr
  | _ => none

/-- `findNames`: the names an expression takes data from; selects do not count. -/
def findNames : Expr → List String
  | .ref name _ => [name]
  | .subField expr _ _ => findNames expr
  | .mux _ tval fval _ => findNames tval ++ findNames fval
  | .doPrim1 _ arg _ _ => findNames arg
  | .doPrim2 _ arg1 arg2 _ _ => findNames arg1 ++ findNames arg2
  | _ => []

/-- `isUsed`: does the expression take data from the name? -/
def isUsed (name : String) : Expr → Bool
  | .ref refName _ => refName == name
  | .subField expr _ _ => isUsed name expr
  | .mux _ tval fval _ => isUsed name tval || isUsed name fval
  | .doPrim1 _ arg _ _ => isUsed name arg
  | .doPrim2 _ arg1 arg2 _ _ => isUsed name arg1 || isUsed name arg2
  | _ => false

theorem isUsed_iff (name : String) (expr : Expr) : isUsed name expr = true ↔ name ∈ findNames expr := by
  induction expr with
  | ref refName tpe => rw [isUsed, findNames, List.mem_singleton, beq_iff_eq, eq_comm]
  | subField expr field tpe ih => simpa [isUsed, findNames] using ih
  | mux cond tval fval tpe _ ihT ihF => simp [isUsed, findNames, ihT, ihF]
  | validIf cond value tpe => simp [isUsed, findNames]
  | uintLiteral value width => simp [isUsed, findNames]
  | sintLiteral value width => simp [isUsed, findNames]
  | doPrim1 op arg consts tpe ih => simpa [isUsed, findNames] using ih
  | doPrim2 op arg1 arg2 consts tpe ih1 ih2 => simp [isUsed, findNames, ih1, ih2]

/-- `findEdge`: the sink a statement adds for a name.  A location is always a
reference, so `findName` finds one. -/
def Stmt.sink (name : String) : Stmt → Option String
  | defRegister reg => if isUsed name reg.reset then some reg.name else none
  | defNode node value => if isUsed name value then some node else none
  | connect loc expr => if isUsed name expr then findName loc else none
  | _ => none

/-- The sinks of a name, the edges of `graphMap`. -/
def Module.sinks (mod : Module) (name : String) : List String :=
  mod.stmts.filterMap (Stmt.sink name)

/-- `reverseEdge`: the names a name is a sink of. -/
def Module.sources (mod : Module) (name : String) : List String :=
  mod.graphMap.keys.filter fun source => name ∈ mod.sinks source

/-- Nodes and wires are passed by the search, everything else is a source. -/
def Decl.passed : Decl → Bool
  | wire _ => true
  | node _ => true
  | _ => false

/-- Is the name a node or a wire? -/
def Module.passes (mod : Module) (name : String) : Bool :=
  (mod.graphMap.get? name).any Decl.passed

/-- `findSrcs` with an empty list of visited names. -/
def Module.findSrcs (mod : Module) (sink : String) : Option (List String) :=
  if sink ∈ mod.graphMap.keys then
    (Search.search mod.sources mod.passes (mod.graphMap.keys.length + 1) sink []).map Prod.fst
  else none

/-! ## Multiplexers -/

/-- `findMuxes` in an expression. -/
def Expr.muxes : Expr → List Mux
  | ref _ _ => []
  | subField expr _ _ => expr.muxes
  | mux cond tval fval tpe =>
      { cond, tval, fval, tpe } :: (cond.muxes ++ tval.muxes ++ fval.muxes)
  | validIf cond value _ => cond.muxes ++ value.muxes
  | uintLiteral _ _ => []
  | sintLiteral _ _ => []
  | doPrim1 _ arg _ _ => arg.muxes
  | doPrim2 _ arg1 arg2 _ _ => arg1.muxes ++ arg2.muxes

/-- The multiplexers of a module. -/
def Module.muxes (mod : Module) : List Mux :=
  (mod.stmts.flatMap fun stmt => stmt.exprs.flatMap Expr.muxes).dedup

/-- The sources of a list of names. -/
def Module.findAllSrcs (mod : Module) (names : List String) : Option (List String) :=
  (names.mapM mod.findSrcs).map List.flatten

/-- `muxSrcs`: the sources of the select of each multiplexer.  Selects with the same
names share one search in the source. -/
def Module.muxSrcs (mod : Module) : Option (List (Mux × List String)) :=
  mod.muxes.mapM fun mux => (mod.findAllSrcs (findNames mux.cond)).map fun srcs => (mux, srcs)

/-- The register of a name, if it is one. -/
def Module.registerOf (mod : Module) (name : String) : Option Register :=
  match mod.graphMap.get? name with
  | some (.register reg) => some reg
  | _ => none

/-- The register of a name has this name and is defined in the module. -/
theorem Module.of_registerOf {mod : Module} {name : String} {reg : Register}
    (found : mod.registerOf name = some reg) : reg.name = name ∧ .defRegister reg ∈ mod.stmts := by
  rw [registerOf] at found
  split at found
  · rename_i other got
    cases found
    have isDecl : (name, Decl.register reg) ∈ mod.decls :=
      Dict.mem_of_mem_ofList (Dict.mem_of_find got)
    rcases List.mem_append.mp isDecl with isPort | inStmts
    · obtain ⟨port, _, same⟩ := List.mem_map.mp isPort
      cases same
    · obtain ⟨stmt, isStmt, declares⟩ := List.mem_filterMap.mp inStmts
      cases stmt with
      | defRegister other =>
          cases declares
          exact ⟨rfl, isStmt⟩
      | _ => cases declares
  · cases found

/-- The registers among the sources, `ctrlSrcs("DefRegister")`. -/
def ctrlRegsOf (mod : Module) (muxSrcs : List (Mux × List String)) : List Register :=
  ((muxSrcs.flatMap Prod.snd).filterMap mod.registerOf).dedup

/-- `findMuxSrcs`, for registers. -/
def Module.ctrlRegs (mod : Module) : Option (List Register) :=
  mod.muxSrcs.map (ctrlRegsOf mod)

/-! ## Module information -/

/-- The sources of the next value of a register, itself excepted. -/
def Module.regSrcs (mod : Module) (reg : Register) : Option (List String) :=
  (mod.findAllSrcs (mod.sources reg.name)).map fun srcs => srcs.filter fun src => src ≠ reg.name

/-- `findDirInRegs`: control registers fed by ports, directly or through one register
that is. -/
def Module.findDirInRegs (mod : Module) (ctrlRegs : List Register) : Option (List Register) :=
  (ctrlRegs.mapM fun reg => (mod.regSrcs reg).map fun srcs => (reg, srcs)).map fun ctrlRegSrcs =>
    let portNames := mod.ports.map Port.name
    let firstInRegs := (ctrlRegSrcs.filter fun entry =>
      entry.2.all fun src => src ∈ portNames).map fun entry => entry.1.name
    (ctrlRegSrcs.filter fun entry =>
      entry.2.all fun src => src ∈ portNames ∨ src ∈ firstInRegs).map Prod.fst

/-- An entry of `findVecRegs`: the registers `namePrefix i body` for each `i` below the
size and each body are the elements of a vector. -/
structure VecRegs where
  size : Nat
  namePrefix : String
  bodies : List String
deriving DecidableEq, Repr

/-- `moduleInfo`.  Its sets are lists here. -/
structure ModuleInfo where
  ctrlRegs : List Register
  muxSrcs : List (Mux × List String)
  insts : List Instance
  regs : List Register
  vecRegs : List VecRegs
  dirInRegs : List Register
deriving DecidableEq, Repr

/-- The information on a module, given what `findVecRegs` reports. -/
def Module.info (mod : Module) (vecRegs : List VecRegs) : Option ModuleInfo :=
  mod.muxSrcs.bind fun muxSrcs =>
    let ctrlRegs := ctrlRegsOf mod muxSrcs
    (mod.findDirInRegs ctrlRegs).map fun dirInRegs =>
      { ctrlRegs, muxSrcs, insts := mod.instances.dedup, regs := mod.registers.dedup, vecRegs,
        dirInRegs }

/-- The parts of `moduleInfo` that are read off the statements. -/
theorem Module.info_eq {mod : Module} {vecRegs : List VecRegs} {info : ModuleInfo}
    (isInfo : mod.info vecRegs = some info) :
    mod.muxSrcs = some info.muxSrcs ∧ info.insts = mod.instances.dedup ∧
      info.regs = mod.registers.dedup := by
  obtain ⟨srcs, isSrcs, found⟩ := Option.bind_eq_some_iff.mp isInfo
  obtain ⟨dirInRegs, _, rfl⟩ := Option.map_eq_some_iff.mp found
  exact ⟨isSrcs, rfl, rfl⟩

/-- The control registers are a set. -/
theorem Module.nodup_ctrlRegs {mod : Module} {vecRegs : List VecRegs} {info : ModuleInfo}
    (isInfo : mod.info vecRegs = some info) : info.ctrlRegs.Nodup := by
  obtain ⟨srcs, _, found⟩ := Option.bind_eq_some_iff.mp isInfo
  obtain ⟨dirInRegs, _, rfl⟩ := Option.map_eq_some_iff.mp found
  exact List.nodup_dedup _

end Difftest.Firrtl
