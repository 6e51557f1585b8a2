import Difftest.Firrtl.Completeness
import Difftest.Firrtl.GateTree

/-!
# What added statements read and drive

The statements that the passes add stay inside the module but for the ports of its
instances: coverage reads `io_covSum`, the report reads `metaAssert`, and the last pass
drives `metaReset`.
-/

namespace Difftest.Firrtl

/-! ## Ports of instances in statements -/

/-- Fields of names, among them the ports of instances, that an expression mentions. -/
def Expr.fields : Expr → List (String × String)
  | ref _ _ => []
  | subField expr field _ =>
      (match expr with
        | ref name _ => [(name, field)]
        | _ => []) ++ expr.fields
  | mux cond tval fval _ => cond.fields ++ tval.fields ++ fval.fields
  | validIf cond value _ => cond.fields ++ value.fields
  | uintLiteral _ _ => []
  | sintLiteral _ _ => []
  | doPrim1 _ arg _ _ => arg.fields
  | doPrim2 _ arg1 arg2 _ _ => arg1.fields ++ arg2.fields

namespace Stmt

/-- Fields that a statement reads or drives. -/
def fields (stmt : Stmt) : List (String × String) := stmt.exprs.flatMap Expr.fields

/-- The port of an instance that a statement drives. -/
def drives : Stmt → Option (String × String)
  | connect (.subField (.ref name _) field _) _ => some (name, field)
  | _ => none

end Stmt

/-- What a connect drives does not depend on the value. -/
theorem Stmt.drives_connect (loc first second : Expr) :
    (Stmt.connect loc first).drives = (Stmt.connect loc second).drives := by
  cases loc with
  | subField expr field tpe => cases expr <;> rfl
  | _ => rfl

/-- Ports of instances that added statements read or drive. -/
def addedPorts : List String := ["io_covSum", "metaAssert", "metaReset"]

/-! ## Added statements -/

/-- A property of expressions that the passes keep when they build new ones: their names
are not that of the reset, and their fields belong to ports of memories. -/
structure Expr.Closed (holds : Expr → Prop) : Prop where
  literal : ∀ value width, holds (.uintLiteral value width)
  ref : ∀ {name tpe}, name ≠ "metaReset" → holds (.ref name tpe)
  memField : ∀ {mem port field tpe}, mem ≠ "metaReset" → port ∉ addedPorts →
    holds (InstrCov.memField mem port field tpe)
  mux : ∀ {cond tval fval tpe}, holds cond → holds tval → holds fval →
    holds (.mux cond tval fval tpe)
  doPrim1 : ∀ {op arg consts tpe}, holds arg → holds (.doPrim1 op arg consts tpe)
  doPrim2 : ∀ {op arg1 arg2 consts tpe}, holds arg1 → holds arg2 →
    holds (.doPrim2 op arg1 arg2 consts tpe)

/-- The forms of the added statements, with a property of the expressions in them. -/
inductive Stmt.Added (holds : Expr → Prop) : Stmt → Prop
  | wire (name : String) (tpe : Ty) : Added holds (.defWire name tpe)
  | memory (mem : Memory) : Added holds (.defMemory mem)
  | register {reg : Register} (clock : holds reg.clock) (reset : reg.reset = .uintLiteral 0 1)
      (init : holds reg.init) : Added holds (.defRegister reg)
  | node {name : String} {value : Expr} (allowed : holds value) : Added holds (.defNode name value)
  | connect {name : String} {width : Nat} {expr : Expr} (other : name ≠ "metaReset")
      (allowed : holds expr) : Added holds (.connect (uref name width) expr)
  | memConnect {mem port field : String} {tpe : Ty} {expr : Expr} (other : mem ≠ "metaReset")
      (notAdded : port ∉ addedPorts) (allowed : holds expr) : Added holds (.connect (InstrCov.memField mem port field tpe) expr)

/-- A name with an underscore is not that of the reset. -/
theorem append_ne_metaReset {suffix : String} (underscore : '_' ∈ suffix.toList) (name : String) :
    name ++ suffix ≠ "metaReset" := by
  intro same
  have noUnderscore : '_' ∉ "metaReset".toList := by decide
  apply noUnderscore
  rw [← same, String.toList_append]
  exact List.mem_append_right _ underscore

theorem prefixed_ne_metaReset {first : String} (underscore : '_' ∈ first.toList) (name : String) :
    first ++ name ≠ "metaReset" := by
  intro same
  have noUnderscore : '_' ∉ "metaReset".toList := by decide
  apply noUnderscore
  rw [← same, String.toList_append]
  exact List.mem_append_left _ underscore

/-- The wires of a tree of gates. -/
theorem GateTree.added {op : PrimOp} {stem : String} {size id : Nat} {exprs : List Expr}
    {top : Expr} {stmts : List Stmt} (tree : GateTree op stem size id exprs top stmts)
    {holds : Expr → Prop} (closed : Expr.Closed holds) (underscore : '_' ∈ stem.toList)
    (allowed : ∀ expr ∈ exprs, holds expr) :
    holds top ∧ ∀ stmt ∈ stmts, stmt.Added holds := by
  induction tree with
  | leaf id expr => exact ⟨allowed expr (List.mem_singleton_self _), List.forall_mem_nil _⟩
  | @node id _ _ _ _ _ _ _ _ ihLeft ihRight =>
      rw [List.forall_mem_append] at allowed
      have left := ihLeft allowed.1
      have right := ihRight allowed.2
      have other : gateWire stem id ≠ "metaReset" := prefixed_ne_metaReset underscore _
      refine ⟨closed.ref other, ?_⟩
      simp only [List.forall_mem_append, List.forall_mem_cons]
      exact ⟨⟨left.2, right.2⟩, .wire _ _, .connect other (closed.doPrim2 left.1 right.1),
        List.forall_mem_nil _⟩

/-- The instance that a statement declares. -/
def Stmt.instance? : Stmt → Option Instance
  | .defInstance inst => some inst
  | _ => none

theorem Module.instances_eq (mod : Module) : mod.instances = mod.stmts.filterMap Stmt.instance? :=
  rfl

/-- A statement that declares no instance, drives no port of one, and reads the added
ports of instances as allowed. -/
structure Stmt.Inner (reads : String × String → Prop) (stmt : Stmt) : Prop where
  noInstance : stmt.instance? = none
  noDrive : stmt.drives = none
  fields : ∀ field ∈ stmt.fields, field.2 ∈ addedPorts → reads field

/-- An expression that reads the added ports of instances as allowed. -/
def Expr.Allowed (reads : String × String → Prop) (expr : Expr) : Prop :=
  ∀ field ∈ expr.fields, field.2 ∈ addedPorts → reads field

section Allowed

variable {reads : String × String → Prop}

theorem Expr.closed_allowed : Expr.Closed (Expr.Allowed reads) where
  literal := fun _ _ => List.forall_mem_nil _
  ref := fun _ => List.forall_mem_nil _
  memField := by
    intro mem port field tpe _ notAdded pair isField isAdded
    have onlyPort : pair = (mem, port) := by
      simpa [InstrCov.memField, Expr.fields] using isField
    rw [onlyPort] at isAdded
    exact absurd isAdded notAdded
  mux := fun cond tval fval =>
    List.forall_mem_append.mpr ⟨List.forall_mem_append.mpr ⟨cond, tval⟩, fval⟩
  doPrim1 := fun arg => arg
  doPrim2 := fun arg1 arg2 => List.forall_mem_append.mpr ⟨arg1, arg2⟩

/-- Added statements stay inside the module. -/
theorem Stmt.Added.inner {stmt : Stmt} (added : stmt.Added (Expr.Allowed reads)) :
    stmt.Inner reads := by
  cases added with
  | wire name tpe => exact ⟨rfl, rfl, List.forall_mem_nil _⟩
  | memory mem => exact ⟨rfl, rfl, List.forall_mem_nil _⟩
  | @register reg clock reset init =>
      refine ⟨rfl, rfl, ?_⟩
      rw [Stmt.fields, Stmt.exprs, reset]
      simp only [List.flatMap_cons, List.flatMap_nil, Expr.fields, List.nil_append,
        List.append_nil]
      exact List.forall_mem_append.mpr ⟨clock, init⟩
  | node allowed =>
      refine ⟨rfl, rfl, ?_⟩
      rw [Stmt.fields, Stmt.exprs, List.flatMap_singleton]
      exact allowed
  | connect _ allowed =>
      refine ⟨rfl, rfl, ?_⟩
      rw [Stmt.fields, Stmt.exprs, List.flatMap_cons, List.flatMap_singleton]
      exact allowed
  | memConnect other notAdded allowed =>
      refine ⟨rfl, rfl, ?_⟩
      rw [Stmt.fields, Stmt.exprs, List.flatMap_cons, List.flatMap_singleton]
      exact List.forall_mem_append.mpr ⟨Expr.closed_allowed.memField other notAdded, allowed⟩

end Allowed

/-! ## Coverage -/

theorem mem_map_fst_getRegState {draws : List Nat} {elems : List Elem} {elem : Elem}
    (mem : elem ∈ (getRegState draws elems).2.map Prod.fst) : elem ∈ elems := by
  rw [getRegState] at mem
  split at mem
  · cases mem
  · split at mem
    · rwa [map_fst_packOffsets] at mem
    · rwa [map_fst_drawOffsets] at mem

/-- A select in the state is the select of a multiplexer. -/
theorem ModuleInfo.exists_mux_of_ctrl {info : ModuleInfo} {draws : List Nat}
    {offsets : List (Elem × Nat)} (packed : info.allOffsets draws = some offsets) {cond : Expr}
    (mem : Elem.ctrl cond ∈ offsets.map Prod.fst) :
    ∃ entry ∈ info.muxSrcs, entry.1.cond = cond := by
  obtain ⟨vectors, vectorPacked, rfl⟩ := Option.map_eq_some_iff.mp packed
  rw [List.map_append, List.mem_append, mem_vectorOffsets_iff vectorPacked] at mem
  rcases mem with scalar | ⟨_, _, _, _, _, _, _, same, _⟩
  · have isElement := mem_map_fst_getRegState
      (List.map_subset Prod.fst (List.filter_subset_self _) scalar)
    have isCtrl : cond ∈ info.unCoveredCtrlSigs := by
      simpa [elements] using isElement
    have isSelect := List.mem_dedup.mp (List.mem_filter.mp isCtrl).1
    rcases List.mem_append.mp isSelect with large | narrow
    · obtain ⟨reg, _, isSink⟩ := List.mem_flatMap.mp large
      obtain ⟨entry, isEntry, _, same⟩ := mem_sinkMuxes_iff.mp isSink
      exact ⟨entry, isEntry, same⟩
    · obtain ⟨reg, _, isSink⟩ := List.mem_flatMap.mp narrow
      obtain ⟨entry, isEntry, _, same⟩ := mem_sinkMuxes_iff.mp isSink
      exact ⟨entry, isEntry, same⟩
  · cases same

/-- The registers in the state are control registers. -/
theorem ModuleInfo.mem_ctrlRegs_of_allOffsets {info : ModuleInfo} {draws : List Nat}
    {offsets : List (Elem × Nat)} (packed : info.allOffsets draws = some offsets) {reg : Register}
    (mem : Elem.register reg ∈ offsets.map Prod.fst) : reg ∈ info.ctrlRegs := by
  have small : ∀ {reg}, reg ∈ info.vectorRegs → reg ∈ info.ctrlRegs :=
    fun vector => mem_ctrlRegs_of_smallRegs (List.mem_filter.mp vector).1
  obtain ⟨vectors, vectorPacked, rfl⟩ := Option.map_eq_some_iff.mp packed
  rw [List.map_append, List.mem_append, mem_vectorOffsets_iff vectorPacked] at mem
  rcases mem with scalar | ⟨_, _, _, _, _, _, other, same, found⟩
  · have isElement := mem_map_fst_getRegState
      (List.map_subset Prod.fst (List.filter_subset_self _) scalar)
    have isReg : reg ∈ info.optRegs ∨ reg ∈ info.firstElements := by
      simpa [elements] using isElement
    rcases isReg with opt | first
    · exact mem_ctrlRegs_of_smallRegs (List.mem_filter.mp (mem_optRegs_iff.mp opt).1).1
    · exact small (mem_vectorRegs_of_firstElements first)
  · cases same
    exact small (List.mem_of_find?_eq_some found)

namespace InstrCov

theorem clockName_eq {mod : Module} {clock : String} (clocked : clockName mod = some clock) :
    clock = "clock" ∨ clock = "gated_clock" := by
  have fold : ∀ (ports : List Port) (before : Option String),
      (∀ name ∈ before, name = "clock" ∨ name = "gated_clock") →
      ∀ name ∈ ports.foldl (fun clockName port =>
        if port.name = "clock" ∨ port.name = "gated_clock" then some port.name
        else clockName) before, name = "clock" ∨ name = "gated_clock" := by
    intro ports
    induction ports with
    | nil => exact fun before known => known
    | cons port ports inductionHypothesis =>
        intro before known
        apply inductionHypothesis
        dsimp only
        split
        · rename_i isClock
          intro name same
          cases same
          exact isClock
        · exact known
  exact fold mod.ports none (fun _ none => absurd none (Option.not_mem_none _)) clock clocked

section Added

variable {holds : Expr → Prop} (closed : Expr.Closed holds)

include closed

/-- The sum of the instances reads their port `io_covSum`. -/
theorem added_makeSum {port : String} {insts : List Instance} {sum : Expr}
    (isPort : port ≠ "metaReset") (isSum : holds sum)
    (allowed : ∀ inst ∈ insts,
      holds (.subField (.ref inst.name .unknown) "io_covSum" .unknown)) :
    ∀ stmt ∈ makeSum port insts sum, stmt.Added holds := by
  induction insts generalizing sum with
  | nil =>
      rw [makeSum, List.forall_mem_singleton]
      exact .connect isPort isSum
  | cons inst insts inductionHypothesis =>
      have other : inst.name ++ "_sum" ≠ "metaReset" := append_ne_metaReset (by decide) _
      have first := allowed inst List.mem_cons_self
      rw [makeSum, List.forall_mem_append]
      constructor
      · simp only [List.forall_mem_cons]
        exact ⟨.wire _ _, .connect other (closed.doPrim2 isSum first), List.forall_mem_nil _⟩
      · apply inductionHypothesis (closed.ref other)
        exact fun rest mem => allowed rest (List.mem_cons_of_mem _ mem)

omit closed in
theorem added_condStmts {offsets : List (Elem × Nat)} (i : Nat)
    (allowed : ∀ cond, Elem.ctrl cond ∈ offsets.map Prod.fst → holds cond) :
    ∀ stmt ∈ condStmts i offsets, stmt.Added holds := by
  induction offsets generalizing i with
  | nil => exact List.forall_mem_nil _
  | cons entry offsets inductionHypothesis =>
      have rest := fun cond mem => allowed cond (List.mem_cons_of_mem _ mem)
      rcases entry with ⟨reg | cond, offset⟩
      · exact inductionHypothesis i rest
      · rw [condStmts, List.forall_mem_append]
        constructor
        · simp only [List.forall_mem_cons]
          exact ⟨.wire _ _, .connect (prefixed_ne_metaReset (by decide) _)
            (allowed cond List.mem_cons_self), List.forall_mem_nil _⟩
        · exact inductionHypothesis (i + 1) rest

/-- Each element is read under the name of a register or of the wire of its select. -/
theorem holds_namedOffsets {offsets : List (Elem × Nat)} (i : Nat)
    (allowed : ∀ reg, Elem.register reg ∈ offsets.map Prod.fst → holds (.ref reg.name reg.tpe)) :
    ∀ entry ∈ namedOffsets i offsets, holds (.ref entry.1.1 entry.1.2) := by
  induction offsets generalizing i with
  | nil => exact List.forall_mem_nil _
  | cons entry offsets inductionHypothesis =>
      have rest := fun reg mem => allowed reg (List.mem_cons_of_mem _ mem)
      rcases entry with ⟨reg | cond, offset⟩
      · exact List.forall_mem_cons.mpr
          ⟨allowed reg List.mem_cons_self, inductionHypothesis i rest⟩
      · exact List.forall_mem_cons.mpr
          ⟨closed.ref (prefixed_ne_metaReset (by decide) _), inductionHypothesis (i + 1) rest⟩

/-- The wires of one element. -/
theorem added_padStmts {size : Nat} {entry : (String × Ty) × Nat} {padRef : Expr}
    {stmts : List Stmt} (padded : padStmts size entry = some (padRef, stmts))
    (isElement : holds (.ref entry.1.1 entry.1.2)) :
    holds padRef ∧ ∀ stmt ∈ stmts, stmt.Added holds := by
  have shl : entry.1.1 ++ "_shl" ≠ "metaReset" := append_ne_metaReset (by decide) _
  have pad : entry.1.1 ++ "_pad" ≠ "metaReset" := append_ne_metaReset (by decide) _
  rw [padStmts] at padded
  split at padded
  · cases padded
  · cases padded
    refine ⟨closed.ref pad, ?_⟩
    simp only [List.forall_mem_cons]
    refine ⟨.wire _ _, .connect shl (closed.doPrim1 isElement), .wire _ _, .connect pad ?_,
      List.forall_mem_nil _⟩
    split
    · exact closed.ref shl
    · exact closed.doPrim2 (closed.literal _ _) (closed.ref shl)

theorem added_makeOffset {offsets : List (Elem × Nat)} {size : Nat} {padRefs : List Expr}
    {stmts : List Stmt} (made : makeOffset offsets size = some (padRefs, stmts))
    (regs : ∀ reg, Elem.register reg ∈ offsets.map Prod.fst → holds (.ref reg.name reg.tpe))
    (conds : ∀ cond, Elem.ctrl cond ∈ offsets.map Prod.fst → holds cond) :
    (∀ padRef ∈ padRefs, holds padRef) ∧ ∀ stmt ∈ stmts, stmt.Added holds := by
  obtain ⟨padded, traversed, same⟩ := Option.map_eq_some_iff.mp made
  cases same
  have each : ∀ pair ∈ padded, holds pair.1 ∧ ∀ stmt ∈ pair.2, stmt.Added holds := by
    intro pair mem
    obtain ⟨entry, isEntry, computed⟩ := (mem_mapM_iff traversed pair).mp mem
    exact added_padStmts closed computed (holds_namedOffsets closed 0 regs entry isEntry)
  constructor
  · intro padRef mem
    obtain ⟨pair, isPair, rfl⟩ := List.mem_map.mp mem
    exact (each pair isPair).1
  · rw [List.forall_mem_append]
    constructor
    · exact added_condStmts 0 conds
    · intro stmt mem
      obtain ⟨list, isList, inList⟩ := List.mem_flatten.mp mem
      obtain ⟨pair, isPair, rfl⟩ := List.mem_map.mp isList
      exact (each pair isPair).2 stmt inList

theorem added_stateConnect {mName : String} {offsets : List (Elem × Nat)} {size : Nat}
    {stmts : List Stmt}
    (made : stateConnect mName (mName ++ "_state") offsets size = some stmts)
    (regs : ∀ reg, Elem.register reg ∈ offsets.map Prod.fst → holds (.ref reg.name reg.tpe))
    (conds : ∀ cond, Elem.ctrl cond ∈ offsets.map Prod.fst → holds cond) :
    ∀ stmt ∈ stmts, stmt.Added holds := by
  obtain ⟨⟨padRefs, offsetStmts⟩, madeOffset, made⟩ := Option.bind_eq_some_iff.mp made
  obtain ⟨⟨top, xorStmts⟩, madeXor, rfl⟩ := Option.map_eq_some_iff.mp made
  have offset := added_makeOffset closed madeOffset regs conds
  have underscore : '_' ∈ (mName ++ "_xor").toList := by
    rw [String.toList_append]
    exact List.mem_append_right _ (by decide)
  have xor := (xorTree_of_makeXor madeXor).1.added closed underscore offset.1
  simp only [List.forall_mem_append, List.forall_mem_singleton]
  exact ⟨⟨offset.2, xor.2⟩, .connect (append_ne_metaReset (by decide) _) xor.1⟩

/-- A register of the coverage keeps its value without a connect. -/
theorem added_defRegister {name info clock : String} {width : Nat} (other : name ≠ "metaReset")
    (isClock : clock ≠ "metaReset") :
    (Stmt.defRegister (defRegister name info clock width)).Added holds :=
  .register (closed.ref isClock) rfl (closed.ref other)

theorem added_coverConnect (mName : String) {clock : String} (size : Nat)
    (isClock : clock ≠ "metaReset") :
    ∀ stmt ∈ readConnect (mName ++ "_cov") (mName ++ "_state") (mName ++ "_covSum") clock size ++
      writeConnect (mName ++ "_cov") (mName ++ "_state") clock size, stmt.Added holds := by
  have read : "read" ∉ addedPorts := by decide
  have write : "write" ∉ addedPorts := by decide
  have state : holds (uref (mName ++ "_state") size) :=
    closed.ref (append_ne_metaReset (by decide) _)
  have sumName : mName ++ "_covSum" ≠ "metaReset" := append_ne_metaReset (by decide) _
  have covMap : mName ++ "_cov" ≠ "metaReset" := append_ne_metaReset (by decide) _
  have one : holds (.uintLiteral 1 1) := closed.literal 1 1
  have clk : holds (.ref clock .clock) := closed.ref isClock
  have sum : holds (uref (mName ++ "_covSum") covSumSize) := closed.ref sumName
  simp only [readConnect, writeConnect, List.forall_mem_append, List.forall_mem_cons]
  refine ⟨⟨.memConnect covMap read state, .memConnect covMap read one, .memConnect covMap read clk,
    .connect sumName ?_, List.forall_mem_nil _⟩, .memConnect covMap write state,
    .memConnect covMap write one, .memConnect covMap write one, .memConnect covMap write clk,
    .memConnect covMap write one, List.forall_mem_nil _⟩
  exact closed.mux (closed.memField covMap read) sum (closed.doPrim2 sum one)

/-- Coverage reads the port `io_covSum` of instances of modules with a body, the control
registers, and what the selects of the module read. -/
theorem added_addedStmts {info : ModuleInfo} {draws : List Nat} {extModules : List String}
    {mod : Module} {added : List Stmt}
    (isAdded : addedStmts info draws extModules mod = some added)
    (sums : ∀ inst ∈ info.insts, inst.module ∉ extModules →
      holds (.subField (.ref inst.name .unknown) "io_covSum" .unknown))
    (regs : ∀ reg ∈ info.ctrlRegs, holds (.ref reg.name reg.tpe))
    (selects : ∀ entry ∈ info.muxSrcs, holds entry.1.cond) :
    ∀ stmt ∈ added, stmt.Added holds := by
  obtain ⟨offsets, packed, chosen⟩ := Option.bind_eq_some_iff.mp isAdded
  have sumsFiltered : ∀ inst ∈ info.insts.filter fun inst => inst.module ∉ extModules,
      holds (.subField (.ref inst.name .unknown) "io_covSum" .unknown) := by
    intro inst mem
    have both := List.mem_filter.mp mem
    exact sums inst both.1 (of_decide_eq_true both.2)
  have port : covSumPort.name ≠ "metaReset" := by decide
  have sumName : mod.name ++ "_covSum" ≠ "metaReset" := append_ne_metaReset (by decide) _
  have stateName : mod.name ++ "_state" ≠ "metaReset" := append_ne_metaReset (by decide) _
  have sum : ∀ stmt ∈ makeSum covSumPort.name
      (info.insts.filter fun inst => inst.module ∉ extModules)
      (uref (mod.name ++ "_covSum") covSumSize), stmt.Added holds :=
    added_makeSum closed port (closed.ref sumName) sumsFiltered
  have zero : ∀ stmt ∈ zeroStmts mod.name (info.insts.filter fun inst => inst.module ∉ extModules),
      stmt.Added holds := by
    simp only [zeroStmts, List.forall_mem_append, List.forall_mem_cons]
    exact ⟨⟨.wire _ _, .connect sumName (closed.literal _ _), List.forall_mem_nil _⟩, sum⟩
  split at chosen
  · rename_i clock clocked
    have isClock : clock ≠ "metaReset" := by
      rcases clockName_eq clocked with rfl | rfl
      · decide
      · decide
    split at chosen
    · obtain ⟨stConnections, connected, rfl⟩ := Option.map_eq_some_iff.mp chosen
      have state := added_stateConnect closed connected
        (fun reg mem => regs reg (ModuleInfo.mem_ctrlRegs_of_allOffsets packed mem))
        (by
          intro cond mem
          obtain ⟨entry, isEntry, rfl⟩ := ModuleInfo.exists_mux_of_ctrl packed mem
          exact selects entry isEntry)
      have cover := added_coverConnect closed mod.name (info.regStateSize draws) isClock
      rw [List.forall_mem_append] at cover
      simp only [List.forall_mem_append, List.forall_mem_cons]
      exact ⟨⟨⟨⟨⟨added_defRegister closed stateName isClock, .memory _,
        added_defRegister closed sumName isClock, List.forall_mem_nil _⟩, state⟩,
        cover.1⟩, cover.2⟩, sum⟩
    · cases chosen
      exact zero
  · cases chosen
    exact zero

end Added

/-- Coverage reads the port `io_covSum` of instances of modules with a body, and what
the selects of the module read. -/
theorem inner_addedStmts {reads : String × String → Prop} {info : ModuleInfo} {draws : List Nat}
    {extModules : List String} {mod : Module} {added : List Stmt}
    (isAdded : addedStmts info draws extModules mod = some added)
    (sums : ∀ inst ∈ info.insts, inst.module ∉ extModules → reads (inst.name, "io_covSum"))
    (selects : ∀ entry ∈ info.muxSrcs, ∀ field ∈ entry.1.cond.fields, field.2 ∈ addedPorts →
      reads field) :
    ∀ stmt ∈ added, stmt.Inner reads := by
  have forms := added_addedStmts (@Expr.closed_allowed reads) isAdded
    (by
      intro inst isInst notExt field isField _
      have onlyPort : field = (inst.name, "io_covSum") := by
        simpa [Expr.fields] using isField
      rw [onlyPort]
      exact sums inst isInst notExt)
    (fun _ _ => List.forall_mem_nil _) selects
  exact fun stmt mem => (forms stmt mem).inner

end InstrCov

/-! ## Stops -/

namespace InstrAssert

section Added

variable {holds : Expr → Prop} (closed : Expr.Closed holds)

include closed

/-- The wires of the tree of all reports. -/
theorem added_allOr {insts : List Instance} {mod : Module}
    (allowed : ∀ stopRef ∈ (stopEns mod).map (fun node => Expr.ref node.1 node.2.tpe) ++
      insts.map fun inst => uref (assertWire inst) 1, holds stopRef) :
    (∀ top ∈ (allOr insts mod).1, holds top) ∧
      ∀ stmt ∈ (allOr insts mod).2, stmt.Added holds := by
  by_cases empty : (stopEns mod).map (fun node => Expr.ref node.1 node.2.tpe) ++
      insts.map (fun inst => uref (assertWire inst) 1) = []
  · rw [allOr, empty]
    exact ⟨fun _ none => absurd none (Option.not_mem_none _), List.forall_mem_nil _⟩
  · obtain ⟨top, stmts, made, tree, _⟩ := @exists_orTree mod.name _ 0 _ empty le_rfl
    have underscore : '_' ∈ (mod.name ++ "_or").toList := by
      rw [String.toList_append]
      exact List.mem_append_right _ (by decide)
    have both := tree.added closed underscore allowed
    rw [allOr, made]
    refine ⟨?_, both.2⟩
    intro other same
    cases same
    exact both.1

omit closed in
theorem clockName_eq {mod : Module} {clock : String} (clocked : clockName mod = some clock) :
    clock = "clock" := by
  have fold : ∀ (ports : List Port) (before : Option String × Option String),
      (∀ name ∈ before.1, name = "clock") →
      ∀ name ∈ (ports.foldl (fun names port =>
        if port.name = "clock" then (some port.name, names.2)
        else if "reset".toList <:+: port.name.toList then (names.1, some port.name)
        else (names.1, names.2)) before).1, name = "clock" := by
    intro ports
    induction ports with
    | nil => exact fun before known => known
    | cons port ports inductionHypothesis =>
        intro before known
        apply inductionHypothesis
        dsimp only
        split
        · rename_i isClock
          intro name same
          cases same
          exact isClock
        · split
          · exact known
          · exact known
  obtain ⟨reset, _, found⟩ := Option.bind_eq_some_iff.mp clocked
  exact fold mod.ports (none, none) (fun _ none => absurd none (Option.not_mem_none _)) clock found

/-- The report reads the port `metaAssert` of every instance and what the stops read. -/
theorem added_addedStmts {insts : List Instance} {mod : Module}
    (reports : ∀ inst ∈ insts,
      holds (.subField (.ref inst.name .unknown) "metaAssert" .unknown))
    (stops : ∀ en ∈ findStop mod, holds en) :
    ∀ stmt ∈ addedStmts insts mod, stmt.Added holds := by
  have wireName : ∀ inst : Instance, assertWire inst ≠ "metaReset" :=
    fun inst => append_ne_metaReset (by decide) _
  have stopName : ∀ i : Nat, "stopEn" ++ toString i ≠ "metaReset" := by
    intro i same
    have lists := congrArg String.toList same
    rw [String.toList_append] at lists
    cases lists
  have refs : ∀ stopRef ∈ (stopEns mod).map (fun node => Expr.ref node.1 node.2.tpe) ++
      insts.map fun inst => uref (assertWire inst) 1, holds stopRef := by
    intro stopRef mem
    rcases List.mem_append.mp mem with isStop | isInst
    · obtain ⟨node, isNode, rfl⟩ := List.mem_map.mp isStop
      obtain ⟨⟨en, i⟩, _, rfl⟩ := List.mem_map.mp isNode
      exact closed.ref (stopName i)
    · obtain ⟨inst, _, rfl⟩ := List.mem_map.mp isInst
      exact closed.ref (wireName inst)
  have or : (∀ top ∈ (allOr insts mod).1, holds top) ∧
      ∀ stmt ∈ (allOr insts mod).2, stmt.Added holds :=
    added_allOr closed refs
  have port : assertPort.name ≠ "metaReset" := by decide
  have con : ∀ stmt ∈ conStmts insts mod, stmt.Added holds := by
    rw [conStmts]
    split
    · rename_i top isTop
      have isTop : holds top := or.1 top isTop
      split
      · rename_i clock clocked
        have regName : mod.name ++ "_metaAssert" ≠ "metaReset" :=
          append_ne_metaReset (by decide) _
        have isClock : clock ≠ "metaReset" := by
          rw [clockName_eq clocked]
          decide
        have reg : holds (uref (mod.name ++ "_metaAssert") 1) := closed.ref regName
        simp only [List.forall_mem_cons]
        exact ⟨.register (closed.ref isClock) rfl reg, .connect regName (closed.doPrim2 reg isTop),
          .connect port reg, List.forall_mem_nil _⟩
      · simp only [List.forall_mem_cons]
        exact ⟨.connect port isTop, List.forall_mem_nil _⟩
    · simp only [List.forall_mem_cons]
      exact ⟨.connect port (closed.literal 0 1), List.forall_mem_nil _⟩
  simp only [addedStmts, List.forall_mem_append]
  refine ⟨⟨⟨⟨?_, ?_⟩, ?_⟩, or.2⟩, con⟩
  · intro stmt mem
    obtain ⟨node, isNode, rfl⟩ := List.mem_map.mp mem
    obtain ⟨⟨en, i⟩, isStop, rfl⟩ := List.mem_map.mp isNode
    exact .node (stops en (List.fst_mem_of_mem_zipIdx isStop))
  · intro stmt mem
    obtain ⟨inst, _, rfl⟩ := List.mem_map.mp mem
    exact .wire _ _
  · intro stmt mem
    obtain ⟨inst, isInst, rfl⟩ := List.mem_map.mp mem
    exact .connect (wireName inst) (reports inst isInst)

end Added

/-- The report reads the port `metaAssert` of every instance and what the stops read. -/
theorem inner_addedStmts {reads : String × String → Prop} {insts : List Instance} {mod : Module}
    (reports : ∀ inst ∈ insts, reads (inst.name, "metaAssert"))
    (stops : ∀ en ∈ findStop mod, ∀ field ∈ en.fields, field.2 ∈ addedPorts → reads field) :
    ∀ stmt ∈ addedStmts insts mod, stmt.Inner reads := by
  have forms := added_addedStmts (@Expr.closed_allowed reads)
    (by
      intro inst isInst field isField _
      have onlyPort : field = (inst.name, "metaAssert") := by
        simpa [Expr.fields] using isField
      rw [onlyPort]
      exact reports inst isInst) stops
  exact fun stmt mem => (forms stmt mem).inner

theorem instAssertCon_mem {insts : List Instance} {inst : Instance} (isInst : inst ∈ insts)
    (mod : Module) : instAssertCon inst ∈ addedStmts insts mod := by
  simp only [addedStmts, List.mem_append]
  exact Or.inl (Or.inl (Or.inr (List.mem_map_of_mem isInst)))

theorem fields_instAssertCon (inst : Instance) :
    (instAssertCon inst).fields = [(inst.name, "metaAssert")] :=
  rfl

end InstrAssert

/-! ## Resets -/

namespace InstrReset

/-- The reset of a register changes no location, no field and no declaration. -/
theorem addMetaReset_keeps (regs : List Register) (stmt : Stmt) :
    (addMetaReset regs stmt).drives = stmt.drives ∧
      (addMetaReset regs stmt).fields = stmt.fields ∧
      (addMetaReset regs stmt).instance? = stmt.instance? := by
  cases stmt with
  | connect loc expr =>
      rw [addMetaReset]
      split
      · refine ⟨Stmt.drives_connect _ _ _, ?_, rfl⟩
        simp only [Stmt.fields, Stmt.exprs, List.flatMap_cons, uref, Expr.fields,
          List.nil_append]
      · exact ⟨rfl, rfl, rfl⟩
  | _ => exact ⟨rfl, rfl, rfl⟩

theorem decl_addMetaReset (regs : List Register) (stmt : Stmt) :
    (addMetaReset regs stmt).decl = stmt.decl := by
  cases stmt with
  | connect loc expr =>
      rw [addMetaReset]
      split
      · rfl
      · rfl
  | _ => rfl

theorem fields_resetCon (inst : Instance) :
    (resetCon inst).fields = [(inst.name, "metaReset")] :=
  rfl

theorem drives_resetCon (inst : Instance) :
    (resetCon inst).drives = some (inst.name, "metaReset") :=
  rfl

end InstrReset

end Difftest.Firrtl
