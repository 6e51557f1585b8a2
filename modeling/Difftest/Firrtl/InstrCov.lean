import Difftest.Firrtl.GraphLedger

/-!
# Coverage instrumentation

`InstrCov` chooses the registers and selects that make up the state of a module, gives
each an offset in the state register, and adds the state register, a one-bit memory with
a place for each state, and a register that counts the ones in it.  `none` is a raised
exception.
-/

namespace Difftest.Firrtl

/-- The default of `maxStateSize`. -/
def maxStateSize : Nat := 20

/-- The default of `covSumSize`. -/
def covSumSize : Nat := 30

/-- `regWidth`: the width of a register.  Registers of Low FIRRTL are `UInt` or `SInt`;
for others the source raises. -/
def regWidth (reg : Register) : Nat :=
  match reg.tpe with
  | .uint width => width
  | .sint width => width
  | _ => 0

/-- Types of registers for which no exception is raised. -/
def Ty.isInt : Ty → Bool
  | uint _ => true
  | sint _ => true
  | _ => false

/-- An element of the state: a register or a select. -/
inductive Elem where
  | register (reg : Register)
  | ctrl (expr : Expr)
deriving DecidableEq, Repr

/-- Bits an element has in the state. -/
def Elem.width : Elem → Nat
  | register reg => regWidth reg
  | ctrl _ => 1

namespace ModuleInfo

variable (info : ModuleInfo)

/-! ## Choosing the elements -/

/-- `dirInRegs` of the pass: small ones stay. -/
def wideDirInRegs : List Register := info.dirInRegs.filter fun reg => 3 < regWidth reg

/-- `vecRegNames`. -/
def vecRegNames : List String :=
  info.vecRegs.flatMap fun vec =>
    (List.range vec.size).flatMap fun i =>
      vec.bodies.map fun body => vec.namePrefix ++ (toString i ++ body)

/-- `ctrlRegs` of the pass: without the registers fed by ports. -/
def keptRegs : List Register := info.ctrlRegs.filter fun reg => reg ∉ info.wideDirInRegs

def largeRegs : List Register := info.keptRegs.filter fun reg => maxStateSize ≤ regWidth reg

def smallRegs : List Register := info.keptRegs.filter fun reg => regWidth reg < maxStateSize

def scalaRegs : List Register := info.smallRegs.filter fun reg => reg.name ∉ info.vecRegNames

def vectorRegs : List Register := info.smallRegs.filter fun reg => reg.name ∈ info.vecRegNames

/-- `sinkMuxes`: the selects that a register feeds. -/
def sinkMuxes (reg : Register) : List Expr :=
  ((info.muxSrcs.filter fun entry => reg.name ∈ entry.2).map fun entry => entry.1.cond).dedup

/-- `optRegs`: registers with at most one bit for each select that they feed. -/
def optRegs : List Register :=
  info.scalaRegs.filter fun reg => regWidth reg ≤ (info.sinkMuxes reg).length

/-- `ctrlSigs`: the selects of wide registers, and of narrow ones with more bits than
selects. -/
def ctrlSigs : List Expr :=
  (info.largeRegs.flatMap info.sinkMuxes ++
    (info.scalaRegs.filter fun reg => ¬ regWidth reg ≤ (info.sinkMuxes reg).length).flatMap
      info.sinkMuxes).dedup

/-- `coveredMuxSrcs`: the selects that some narrow register feeds. -/
def coveredMuxSrcs : List Expr := (info.smallRegs.flatMap info.sinkMuxes).dedup

/-- `unCoveredCtrlSigs`. -/
def unCoveredCtrlSigs : List Expr := info.ctrlSigs.filter fun cond => cond ∉ info.coveredMuxSrcs

/-- The first elements of one vector. -/
def firstRegs (vec : VecRegs) : List Register :=
  vec.bodies.filterMap fun body =>
    info.vectorRegs.find? fun reg => reg.name = vec.namePrefix ++ "0" ++ body

/-- `firstVecRegs`: the first elements of the vectors, by prefix and size. -/
def firstVecRegs : Dict (String × Nat) (List Register) :=
  Dict.ofList (info.vecRegs.map fun vec => ((vec.namePrefix, vec.size), info.firstRegs vec))

/-- `firstVecRegs.values.toSet.flatten`. -/
def firstElements : List Register := info.firstVecRegs.values.flatten.dedup

/-! ## Offsets -/

/-- The elements given to `getRegState`. -/
def elements : List Elem :=
  (info.optRegs ++ info.firstElements).map Elem.register ++ info.unCoveredCtrlSigs.map Elem.ctrl

end ModuleInfo

/-- The offset of each element when they are put side by side. -/
def packOffsets : Nat → List Elem → List (Elem × Nat)
  | _, [] => []
  | offset, elem :: elems => (elem, offset) :: packOffsets (offset + elem.width) elems

/-- Offsets drawn at random, from as many as keep the element inside. -/
def drawOffsets (draws : List Nat) (elems : List Elem) : List (Elem × Nat) :=
  elems.zipIdx.map fun (elem, i) => (elem, draws.getD i 0 % (maxStateSize - elem.width + 1))

/-- `getRegState`: the size of the state and the offset of each element. -/
def getRegState (draws : List Nat) (elems : List Elem) : Nat × List (Elem × Nat) :=
  let totBitWidth := (elems.map Elem.width).sum
  if totBitWidth = 0 then (0, [])
  else if totBitWidth ≤ maxStateSize then (totBitWidth, packOffsets 0 elems)
  else (maxStateSize, drawOffsets draws elems)

namespace ModuleInfo

variable (info : ModuleInfo) (draws : List Nat)

/-- `regStateSize`. -/
def regStateSize : Nat := (getRegState draws info.elements).1

/-- `ctrlOffsets`. -/
def ctrlOffsets : List (Elem × Nat) := (getRegState draws info.elements).2

/-- Is the element the first one of a vector? -/
def isFirst (elem : Elem) : Bool :=
  match elem with
  | .register reg => reg ∈ info.firstElements
  | .ctrl _ => false

/-- `scalaOffsets`. -/
def scalaOffsets : List (Elem × Nat) :=
  (info.ctrlOffsets draws).filter fun entry => ¬ info.isFirst entry.1

/-- `firstVecOffsets`. -/
def firstVecOffsets : List (Elem × Nat) :=
  (info.ctrlOffsets draws).filter fun entry => info.isFirst entry.1

/-- The body and the offset of a first element. -/
def bodyOffset (namePrefix : String) (first : Register) : Option (String × Nat) :=
  ((info.firstVecOffsets draws).find? fun entry => entry.1 = .register first).map fun entry =>
    (String.ofList (first.name.toList.drop (namePrefix ++ "0").length), entry.2)

/-- The names of the elements of one vector with their offsets. -/
def elementOffsets (entry : (String × Nat) × List Register) : Option (List (String × Nat)) :=
  (entry.2.mapM (info.bodyOffset draws entry.1.1)).map fun bodyOffsets =>
    (List.range entry.1.2).flatMap fun i =>
      bodyOffsets.map fun bodyOffset =>
        (entry.1.1 ++ (toString i ++ bodyOffset.1), bodyOffset.2)

/-- `vecNameOffsets`: the names of the elements of all vectors with their offsets. -/
def vecNameOffsets : Option (Dict String Nat) :=
  (info.firstVecRegs.entries.mapM (info.elementOffsets draws)).map fun lists =>
    Dict.ofList lists.flatten

/-- `vectorOffsets`. -/
def vectorOffsets : Option (List (Elem × Nat)) :=
  (info.vecNameOffsets draws).bind fun nameOffsets =>
    nameOffsets.entries.mapM fun entry =>
      (info.vectorRegs.find? fun reg => reg.name = entry.1).map fun reg => (.register reg, entry.2)

/-- `allOffsets`. -/
def allOffsets : Option (List (Elem × Nat)) :=
  (info.vectorOffsets draws).map fun vectorOffsets => info.scalaOffsets draws ++ vectorOffsets

end ModuleInfo

/-- `covMapSize`. -/
def covMapSize (regStateSize : Nat) : Nat := if regStateSize = 0 then 0 else 2 ^ regStateSize

/-! ## Added statements -/

/-- A reference to a `UInt`. -/
def uref (name : String) (width : Nat) : Expr := .ref name (.uint width)

/-- The width of a `UInt` or `SInt` type. -/
def Ty.width : Ty → Nat
  | uint width => width
  | sint width => width
  | _ => 0

namespace InstrCov

/-- `hasClockAndReset`: the last port that is named like a clock. -/
def clockName (mod : Module) : Option String :=
  mod.ports.foldl (fun clockName port =>
    if port.name = "clock" ∨ port.name = "gated_clock" then some port.name else clockName) none

/-- A register that keeps its value unless it is connected. -/
def defRegister (name info clockName : String) (width : Nat) : Register where
  info := [info]
  name := name
  tpe := .uint width
  clock := .ref clockName .clock
  reset := .uintLiteral 0 1
  init := uref name width

/-- `defMemory`: one bit for each state, read at once and written at the clock edge. -/
def defMemory (name : String) (size : Nat) : Memory where
  name := name
  dataType := .uint 1
  depth := size
  writeLatency := 1
  readLatency := 0
  readers := ["read"]
  writers := ["write"]
  readwriters := []
  readUnderWrite := .undefined

/-- A field of a port of the coverage memory. -/
def memField (mem port field : String) (tpe : Ty) : Expr :=
  .subField (.subField (.ref mem .unknown) port .unknown) field tpe

/-- `readConnect`: read at the state and count it unless its bit is set. -/
def readConnect (covMap regState covSum clockName : String) (regStateSize : Nat) : List Stmt :=
  [.connect (memField covMap "read" "addr" (.uint regStateSize)) (uref regState regStateSize),
    .connect (memField covMap "read" "en" (.uint 1)) (.uintLiteral 1 1),
    .connect (memField covMap "read" "clk" .clock) (.ref clockName .clock),
    .connect (uref covSum covSumSize)
      (.mux (memField covMap "read" "data" (.uint 1)) (uref covSum covSumSize)
        (.doPrim2 .add (uref covSum covSumSize) (.uintLiteral 1 1) [] (.uint covSumSize))
        .unknown)]

/-- `writeConnect`: set the bit of the state. -/
def writeConnect (covMap regState clockName : String) (regStateSize : Nat) : List Stmt :=
  [.connect (memField covMap "write" "addr" (.uint regStateSize)) (uref regState regStateSize),
    .connect (memField covMap "write" "mask" (.uint 1)) (.uintLiteral 1 1),
    .connect (memField covMap "write" "en" (.uint 1)) (.uintLiteral 1 1),
    .connect (memField covMap "write" "clk" .clock) (.ref clockName .clock),
    .connect (memField covMap "write" "data" (.uint 1)) (.uintLiteral 1 1)]

/-- `makeSum`: add the sums of the instances one after the other. -/
def makeSum (port : String) : List Instance → Expr → List Stmt
  | [], sum => [.connect (uref port covSumSize) sum]
  | inst :: insts, sum =>
      let sumWire := inst.name ++ "_sum"
      [.defWire sumWire (.uint covSumSize),
        .connect (uref sumWire covSumSize)
          (.doPrim2 .add sum (.subField (.ref inst.name .unknown) "io_covSum" .unknown) []
            (.uint covSumSize))] ++
        makeSum port insts (uref sumWire covSumSize)

/-- The wires that carry the selects. -/
def condStmts : Nat → List (Elem × Nat) → List Stmt
  | _, [] => []
  | i, (.register _, _) :: rest => condStmts i rest
  | i, (.ctrl cond, _) :: rest =>
      [.defWire ("mux_cond_" ++ toString i) (.uint 1),
        .connect (uref ("mux_cond_" ++ toString i) 1) cond] ++ condStmts (i + 1) rest

/-- The name and type under which each element is read, with its offset. -/
def namedOffsets : Nat → List (Elem × Nat) → List ((String × Ty) × Nat)
  | _, [] => []
  | i, (.register reg, offset) :: rest => ((reg.name, reg.tpe), offset) :: namedOffsets i rest
  | i, (.ctrl _, offset) :: rest =>
      (("mux_cond_" ++ toString i, .uint 1), offset) :: namedOffsets (i + 1) rest

/-- One element shifted to its offset and padded to the size of the state. -/
def padStmts (regStateSize : Nat) (entry : (String × Ty) × Nat) : Option (Expr × List Stmt) :=
  let ctrlWidth := entry.1.2.width
  let shlWire := entry.1.1 ++ "_shl"
  let padWire := entry.1.1 ++ "_pad"
  let shlRef := uref shlWire (ctrlWidth + entry.2)
  let padRef := uref padWire regStateSize
  -- a literal of negative width is not Low FIRRTL
  if regStateSize < ctrlWidth + entry.2 then none
  else
    let pad := regStateSize - (ctrlWidth + entry.2)
    let padded := if pad = 0 then shlRef
      else .doPrim2 .cat (.uintLiteral 0 pad) shlRef [] (.uint regStateSize)
    some (padRef,
      [.defWire shlWire (.uint (ctrlWidth + entry.2)),
        .connect shlRef
          (.doPrim1 .shl (.ref entry.1.1 entry.1.2) [entry.2] (.uint regStateSize)),
        .defWire padWire (.uint regStateSize),
        .connect padRef padded])

/-- `makeOffset`. -/
def makeOffset (offsets : List (Elem × Nat)) (regStateSize : Nat) :
    Option (List Expr × List Stmt) :=
  ((namedOffsets 0 offsets).mapM (padStmts regStateSize)).map fun padded =>
    (padded.map Prod.fst, condStmts 0 offsets ++ (padded.map Prod.snd).flatten)

/-- `makeXor`: a balanced tree of `xor`.  The first argument bounds the depth; without
references the source does not end. -/
def makeXor (mName : String) (regStateSize : Nat) :
    Nat → List Expr → Nat → Option (Expr × List Stmt)
  | 0, _, _ => none
  | fuel + 1, padRefs, id =>
      let xorWire := mName ++ ("_xor" ++ toString id)
      let xorRef := uref xorWire regStateSize
      match padRefs with
      | [] => none
      | [single] => some (single, [])
      | [first, second] =>
          some (xorRef,
            [.defWire xorWire (.uint regStateSize),
              .connect xorRef (.doPrim2 .xor first second [] (.uint regStateSize))])
      | _ =>
          (makeXor mName regStateSize fuel (padRefs.take (padRefs.length / 2)) (2 * id + 1)).bind
            fun (xor1, stmts1) =>
              (makeXor mName regStateSize fuel (padRefs.drop (padRefs.length / 2))
                (2 * id + 2)).map fun (xor2, stmts2) =>
                  (xorRef,
                    stmts1 ++ stmts2 ++
                      [.defWire xorWire (.uint regStateSize),
                        .connect xorRef (.doPrim2 .xor xor1 xor2 [] (.uint regStateSize))])

/-- `stateConnect`. -/
def stateConnect (mName regState : String) (offsets : List (Elem × Nat)) (regStateSize : Nat) :
    Option (List Stmt) :=
  (makeOffset offsets regStateSize).bind fun (padRefs, offsetStmts) =>
    (makeXor mName regStateSize padRefs.length padRefs 0).map fun (topXor, xorStmts) =>
      offsetStmts ++ xorStmts ++ [.connect (uref regState regStateSize) topXor]

/-- The port that carries the sum to the parent. -/
def covSumPort : Port := ⟨"io_covSum", .output, .uint covSumSize⟩

/-- The statements added to a module with a clock and a state. -/
def stateStmts (mName clock : String) (offsets : List (Elem × Nat)) (regStateSize : Nat)
    (insts : List Instance) : Option (List Stmt) :=
  let regState := mName ++ "_state"
  let covMap := mName ++ "_cov"
  let covSum := mName ++ "_covSum"
  (stateConnect mName regState offsets regStateSize).map fun stConnections =>
    [.defRegister (defRegister regState ("Register tracking " ++ mName ++ " state") clock
        regStateSize),
      .defMemory (defMemory covMap (covMapSize regStateSize)),
      .defRegister (defRegister covSum "Sum of coverage map" clock covSumSize)] ++
      stConnections ++ readConnect covMap regState covSum clock regStateSize ++
      writeConnect covMap regState clock regStateSize ++
      makeSum covSumPort.name insts (uref covSum covSumSize)

/-- The statements added to a module without a clock or a state. -/
def zeroStmts (mName : String) (insts : List Instance) : List Stmt :=
  let covSum := mName ++ "_covSum"
  [.defWire covSum (.uint covSumSize),
    .connect (uref covSum covSumSize) (.uintLiteral 0 covSumSize)] ++
    makeSum covSumPort.name insts (uref covSum covSumSize)

/-- The statements added to a module. -/
def addedStmts (info : ModuleInfo) (draws : List Nat) (extModules : List String)
    (mod : Module) : Option (List Stmt) :=
  let insts := info.insts.filter fun inst => inst.module ∉ extModules
  (info.allOffsets draws).bind fun offsets =>
    match clockName mod with
    | some clock =>
        if info.regStateSize draws ≠ 0 then
          stateStmts mod.name clock offsets (info.regStateSize draws) insts
        else some (zeroStmts mod.name insts)
    | none => some (zeroStmts mod.name insts)

/-- `InstrCov.instrument` on a module with a body. -/
def instrument (info : ModuleInfo) (draws : List Nat) (extModules : List String)
    (mod : Module) : Option Module :=
  (addedStmts info draws extModules mod).map fun added =>
    { mod with
      ports := mod.ports ++ [covSumPort]
      body := mod.body ++ added.map Tree.stmt }

/-- The statements of an instrumented module. -/
theorem stmts_instrument {info : ModuleInfo} {draws : List Nat} {extModules : List String}
    {mod result : Module}
    (instrumented : instrument info draws extModules mod = some result) :
    ∃ added, addedStmts info draws extModules mod = some added ∧
      result.stmts = mod.stmts ++ added := by
  obtain ⟨added, isAdded, rfl⟩ := Option.map_eq_some_iff.mp instrumented
  refine ⟨added, isAdded, ?_⟩
  rw [Module.stmts, Tree.leavesAll_append, Tree.leavesAll_stmts, Module.stmts]

theorem ports_instrument {info : ModuleInfo} {draws : List Nat} {extModules : List String}
    {mod result : Module}
    (instrumented : instrument info draws extModules mod = some result) :
    result.name = mod.name ∧ result.ports = mod.ports ++ [covSumPort] := by
  obtain ⟨added, _, rfl⟩ := Option.map_eq_some_iff.mp instrumented
  exact ⟨rfl, rfl⟩

end InstrCov

end Difftest.Firrtl
