import Difftest.Firrtl.Added

/-!
# Interfaces after the passes

Each pass adds ports to a module and connects the ports of its instances without a view
of the modules that are instantiated.  The ports it reads and drives on an instance of a
module with a body are there.  An external module gets no ports, and a module with
instances gets one halt input for each that no instantiating module drives.
-/

namespace Difftest.Firrtl

/-! ## Interfaces -/

/-- The number of connects that drive a port of an instance. -/
def Module.drivers (mod : Module) (field : String × String) : Nat :=
  mod.stmts.countP fun stmt => stmt.drives = some field

/-- The module has an input of the name. -/
def HasInput (ports : List Port) (name : String) : Prop :=
  ∃ port ∈ ports, port.direction = .input ∧ port.name = name

instance (ports : List Port) (name : String) : Decidable (HasInput ports name) :=
  inferInstanceAs (Decidable (∃ port ∈ ports, _))

namespace Circuit

variable (circuit : Circuit)

/-- The modules with a body. -/
def bodies : List Module :=
  circuit.modules.filterMap fun
    | .internal mod => some mod
    | .external _ _ => none

/-- What Low FIRRTL promises of instances: they name modules of the circuit, statements
mention ports they have and drive inputs, and each input is driven by one connect. -/
structure Linked : Prop where
  modules : (circuit.modules.map DefModule.name).Nodup
  instances : ∀ mod ∈ circuit.bodies, (mod.instances.map Instance.name).Nodup
  found : ∀ mod ∈ circuit.bodies, ∀ inst ∈ mod.instances,
    ∃ target ∈ circuit.modules, target.name = inst.module
  fields : ∀ mod ∈ circuit.bodies, ∀ inst ∈ mod.instances, ∀ target ∈ circuit.modules,
    target.name = inst.module → ∀ stmt ∈ mod.stmts, ∀ field ∈ stmt.fields,
      field.1 = inst.name → field.2 ∈ target.ports.map Port.name
  inputs : ∀ mod ∈ circuit.bodies, ∀ inst ∈ mod.instances, ∀ target ∈ circuit.modules,
    target.name = inst.module → ∀ stmt ∈ mod.stmts, ∀ field ∈ stmt.drives,
      field.1 = inst.name → HasInput target.ports field.2
  driven : ∀ mod ∈ circuit.bodies, ∀ inst ∈ mod.instances, ∀ target ∈ circuit.modules,
    target.name = inst.module → ∀ port ∈ target.ports, port.direction = .input →
      mod.drivers (inst.name, port.name) = 1

/-- Every instance port that an added statement reads or drives exists on the module that
is instantiated. -/
def PortsExist : Prop :=
  ∀ mod ∈ circuit.bodies, ∀ inst ∈ mod.instances, ∀ stmt ∈ mod.stmts, ∀ field ∈ addedPorts,
    (inst.name, field) ∈ stmt.fields →
      ∃ target ∈ circuit.modules, target.name = inst.module ∧ field ∈ target.ports.map Port.name

/-- Every input of an instantiated module with a body is driven by exactly one connect of
the instantiating module. -/
def InputsDriven : Prop :=
  ∀ mod ∈ circuit.bodies, ∀ inst ∈ mod.instances, ∀ target ∈ circuit.bodies,
    target.name = inst.module → ∀ port ∈ target.ports, port.direction = .input →
      mod.drivers (inst.name, port.name) = 1

end Circuit

/-- A module whose instances keep a complete interface: an external one has the ports
itself; one with a body has no input `metaReset` yet, and has itself the halt input of
each of its instances. -/
def DefModule.Complete : DefModule → Prop
  | internal mod => ¬ HasInput mod.ports "metaReset" ∧
      ∀ inst ∈ mod.instances, HasInput mod.ports (inst.name ++ "_halt")
  | external _ ports =>
      "metaAssert" ∈ ports.map Port.name ∧ "metaReset" ∈ ports.map Port.name

/-! ## One module -/

theorem Expr.fields_cond_of_mem_muxes {expr : Expr} {mux : Mux} (mem : mux ∈ expr.muxes) :
    mux.cond.fields ⊆ expr.fields := by
  induction expr with
  | ref name tpe => cases mem
  | subField expr name tpe ih => exact List.subset_append_of_subset_right _ (ih mem)
  | mux cond tval fval tpe ihC ihT ihF =>
      rw [Expr.fields]
      rcases List.mem_cons.mp mem with rfl | inside
      · exact List.subset_append_of_subset_left _ (List.subset_append_left _ _)
      · rcases List.mem_append.mp inside with inCondOrT | inF
        · apply List.subset_append_of_subset_left
          rcases List.mem_append.mp inCondOrT with inC | inT
          · exact List.subset_append_of_subset_left _ (ihC inC)
          · exact List.subset_append_of_subset_right _ (ihT inT)
        · exact List.subset_append_of_subset_right _ (ihF inF)
  | validIf cond value tpe ihC ihV =>
      rcases List.mem_append.mp mem with inC | inV
      · exact List.subset_append_of_subset_left _ (ihC inC)
      · exact List.subset_append_of_subset_right _ (ihV inV)
  | uintLiteral value width => cases mem
  | sintLiteral value width => cases mem
  | doPrim1 op arg consts tpe ih => exact ih mem
  | doPrim2 op arg1 arg2 consts tpe ih1 ih2 =>
      rcases List.mem_append.mp mem with in1 | in2
      · exact List.subset_append_of_subset_left _ (ih1 in1)
      · exact List.subset_append_of_subset_right _ (ih2 in2)

theorem Stmt.fields_of_mem_exprs {stmt : Stmt} {expr : Expr} (mem : expr ∈ stmt.exprs) :
    expr.fields ⊆ stmt.fields :=
  fun _ isField => List.mem_flatMap.mpr ⟨expr, mem, isField⟩

/-- What the selects read the statements read. -/
theorem Module.exists_stmt_of_select {mod : Module} {srcs : List (Mux × List String)}
    (computed : mod.muxSrcs = some srcs) {entry : Mux × List String} (mem : entry ∈ srcs) :
    ∃ stmt ∈ mod.stmts, entry.1.cond.fields ⊆ stmt.fields := by
  obtain ⟨mux, isMux, found⟩ := (mem_mapM_iff computed entry).mp mem
  obtain ⟨list, _, rfl⟩ := Option.map_eq_some_iff.mp found
  obtain ⟨stmt, isStmt, inStmt⟩ := List.mem_flatMap.mp (List.mem_dedup.mp isMux)
  obtain ⟨expr, isExpr, inExpr⟩ := List.mem_flatMap.mp inStmt
  exact ⟨stmt, isStmt, List.Subset.trans (Expr.fields_cond_of_mem_muxes inExpr)
    (Stmt.fields_of_mem_exprs isExpr)⟩

/-- The added ports of instances that the statements of an instrumented module read or
drive: those that the module had, and those of its own instances. -/
def Module.Reads (mod : Module) (extModules : List String) (field : String × String) : Prop :=
  (∃ stmt ∈ mod.stmts, field ∈ stmt.fields) ∨
    ∃ inst ∈ mod.instances, field.1 = inst.name ∧
      (field.2 = "io_covSum" → inst.module ∉ extModules)

/-- What the three passes do to the interface of a module and of its instances. -/
structure Instrumented (extModules : List String) (mod result : Module) : Prop where
  name : result.name = mod.name
  ports : result.ports =
    mod.ports ++ [InstrCov.covSumPort, InstrAssert.assertPort, InstrReset.metaResetPort] ++
      mod.instances.dedup.map InstrReset.haltPort
  instances : result.instances = mod.instances
  drivers : ∀ field, result.drivers field = mod.drivers field +
    mod.instances.dedup.countP fun inst => (inst.name, "metaReset") = field
  fields : ∀ stmt ∈ result.stmts, ∀ field ∈ stmt.fields, field.2 ∈ addedPorts →
    mod.Reads extModules field
  reports : ∀ inst ∈ mod.instances, ∃ stmt ∈ result.stmts, (inst.name, "metaAssert") ∈ stmt.fields
  resets : ∀ inst ∈ mod.instances, ∃ stmt ∈ result.stmts, (inst.name, "metaReset") ∈ stmt.fields

namespace RegCoverage

variable {choices : Choices} {extModules : List String} {mod result : Module}

/-- The instances and the drivers of an instrumented module. -/
theorem instances_drivers_of_stmts {before added : List Stmt} {insts : List Instance}
    {regs : List Register} {reads : String × String → Prop} (old : mod.stmts = before)
    (stmts : result.stmts = (before ++ added).map (InstrReset.addMetaReset regs) ++
      insts.map InstrReset.resetCon)
    (inner : ∀ stmt ∈ added, stmt.Inner reads) :
    result.instances = mod.instances ∧ ∀ field, result.drivers field =
      mod.drivers field + insts.countP fun inst => (inst.name, "metaReset") = field := by
  constructor
  · have keeps : Stmt.instance? ∘ InstrReset.addMetaReset regs = Stmt.instance? :=
      funext fun stmt => (InstrReset.addMetaReset_keeps regs stmt).2.2
    have noAdded : added.filterMap Stmt.instance? = [] :=
      List.filterMap_eq_nil_iff.mpr fun stmt mem => (inner stmt mem).noInstance
    have noReset : (insts.map InstrReset.resetCon).filterMap Stmt.instance? = [] := by
      rw [List.filterMap_eq_nil_iff]
      intro stmt mem
      obtain ⟨inst, _, rfl⟩ := List.mem_map.mp mem
      rfl
    rw [Module.instances_eq, Module.instances_eq, stmts, old, List.filterMap_append, noReset,
      List.filterMap_map, keeps, List.filterMap_append, noAdded, List.append_nil, List.append_nil]
  · intro field
    have noAdded : added.countP (fun stmt => stmt.drives = some field) = 0 := by
      rw [List.countP_eq_zero]
      intro stmt mem
      rw [(inner stmt mem).noDrive, decide_eq_true_eq]
      exact nofun
    have keeps : ((before ++ added).map (InstrReset.addMetaReset regs)).countP
        (fun stmt => stmt.drives = some field) = mod.drivers field := by
      rw [List.countP_map, Module.drivers, old]
      calc
        (before ++ added).countP _ =
            (before ++ added).countP (fun stmt => stmt.drives = some field) := by
          apply List.countP_congr
          intro stmt _
          rw [Function.comp_apply, (InstrReset.addMetaReset_keeps regs stmt).1]
        _ = before.countP (fun stmt => stmt.drives = some field) := by
          rw [List.countP_append, noAdded, Nat.add_zero]
    rw [Module.drivers, stmts, List.countP_append, keeps, List.countP_map]
    congr 1
    apply List.countP_congr
    intro inst _
    rw [Function.comp_apply, InstrReset.drives_resetCon, decide_eq_true_eq, decide_eq_true_eq,
      Option.some.injEq]

/-- What the three passes do to one module. -/
theorem instrumented_of_instrument
    (instrumented : instrument choices extModules mod = some result) :
    Instrumented extModules mod result := by
  obtain ⟨info, covered, isInfo, _, isCovered, passes⟩ := exists_passes instrumented
  obtain ⟨regs, same⟩ : ∃ regs, InstrReset.instrument info.insts regs
      (InstrAssert.instrument info.insts covered) = result :=
    ⟨_, passes⟩
  obtain ⟨isSrcs, insts, _⟩ := Module.info_eq isInfo
  obtain ⟨added, isAdded, coveredStmts⟩ := InstrCov.stmts_instrument isCovered
  have memInsts : ∀ inst, inst ∈ info.insts ↔ inst ∈ mod.instances := by
    intro inst
    rw [insts, List.mem_dedup]
  have innerAdded : ∀ stmt ∈ added, stmt.Inner (mod.Reads extModules) := by
    apply InstrCov.inner_addedStmts isAdded
    · intro inst isInst notExt
      exact Or.inr ⟨inst, (memInsts inst).mp isInst, rfl, fun _ => notExt⟩
    · intro entry isEntry field isField _
      obtain ⟨stmt, isStmt, subset⟩ := Module.exists_stmt_of_select isSrcs isEntry
      exact Or.inl ⟨stmt, isStmt, subset isField⟩
  have coveredFields : ∀ stmt ∈ covered.stmts, ∀ field ∈ stmt.fields, field.2 ∈ addedPorts →
      mod.Reads extModules field := by
    intro stmt isStmt field isField isPort
    rw [coveredStmts] at isStmt
    rcases List.mem_append.mp isStmt with old | new
    · exact Or.inl ⟨stmt, old, isField⟩
    · exact (innerAdded stmt new).fields field isField isPort
  have innerAssert : ∀ stmt ∈ InstrAssert.addedStmts info.insts covered,
      stmt.Inner (mod.Reads extModules) := by
    apply InstrAssert.inner_addedStmts
    · intro inst isInst
      refine Or.inr ⟨inst, (memInsts inst).mp isInst, rfl, ?_⟩
      intro other
      have different : "metaAssert" ≠ "io_covSum" := by decide
      exact absurd other different
    · intro en isStop field isField isPort
      obtain ⟨stmt, isStmt, isEn⟩ := List.mem_filterMap.mp isStop
      apply coveredFields stmt isStmt field _ isPort
      split at isEn
      · cases isEn
        apply Stmt.fields_of_mem_exprs _ isField
        exact List.mem_cons_of_mem _ (List.mem_singleton_self _)
      · cases isEn
  have stmts : result.stmts =
      (mod.stmts ++ (added ++ InstrAssert.addedStmts info.insts covered)).map
        (InstrReset.addMetaReset regs) ++ mod.instances.dedup.map InstrReset.resetCon := by
    rw [← same, InstrReset.stmts_instrument, InstrAssert.stmts_instrument, coveredStmts, insts,
      List.append_assoc]
  have inner : ∀ stmt ∈ added ++ InstrAssert.addedStmts info.insts covered,
      stmt.Inner (mod.Reads extModules) :=
    List.forall_mem_append.mpr ⟨innerAdded, innerAssert⟩
  obtain ⟨instances, drivers⟩ := instances_drivers_of_stmts rfl stmts inner
  constructor
  · rw [← same]
    exact (InstrCov.ports_instrument isCovered).1
  · rw [← same, InstrReset.instrument, InstrAssert.instrument,
      (InstrCov.ports_instrument isCovered).2, insts, List.append_assoc mod.ports,
      List.append_assoc mod.ports]
    rfl
  · exact instances
  · exact drivers
  · intro stmt isStmt field isField isPort
    rw [stmts] at isStmt
    rcases List.mem_append.mp isStmt with wrapped | reset
    · obtain ⟨stmt, isBefore, rfl⟩ := List.mem_map.mp wrapped
      rw [(InstrReset.addMetaReset_keeps _ stmt).2.1] at isField
      rcases List.mem_append.mp isBefore with old | new
      · exact Or.inl ⟨stmt, old, isField⟩
      · exact (inner stmt new).fields field isField isPort
    · obtain ⟨inst, isInst, rfl⟩ := List.mem_map.mp reset
      rw [InstrReset.fields_resetCon, List.mem_singleton] at isField
      refine Or.inr ⟨inst, List.mem_dedup.mp isInst, ?_, ?_⟩
      · rw [isField]
      · intro other
        have different : "metaReset" ≠ "io_covSum" := by decide
        rw [isField] at other
        exact absurd other different
  · intro inst isInst
    have isReport : InstrReset.addMetaReset regs (InstrAssert.instAssertCon inst) ∈
        result.stmts := by
      rw [stmts]
      apply List.mem_append_left
      apply List.mem_map_of_mem
      apply List.mem_append_right
      exact List.mem_append_right _ (InstrAssert.instAssertCon_mem ((memInsts inst).mpr isInst) _)
    refine ⟨_, isReport, ?_⟩
    rw [(InstrReset.addMetaReset_keeps _ _).2.1, InstrAssert.fields_instAssertCon]
    exact List.mem_singleton_self _
  · intro inst isInst
    refine ⟨InstrReset.resetCon inst, ?_, List.mem_singleton_self _⟩
    rw [stmts]
    exact List.mem_append_right _ (List.mem_map_of_mem (List.mem_dedup.mpr isInst))

end RegCoverage

/-! ## Ports of instrumented modules -/

theorem halt_ne_metaReset (name : String) : name ++ "_halt" ≠ "metaReset" := by
  intro same
  have lists := congrArg String.toList same
  rw [String.toList_append] at lists
  have noSuffix : ¬ "_halt".toList <:+ "metaReset".toList := by decide
  exact noSuffix ⟨name.toList, lists⟩

namespace Instrumented

variable {extModules : List String} {mod result : Module}

theorem hasInput_iff (spec : Instrumented extModules mod result) (field : String) :
    HasInput result.ports field ↔ HasInput mod.ports field ∨ field = "metaReset" ∨
      ∃ inst ∈ mod.instances, field = inst.name ++ "_halt" := by
  rw [spec.ports]
  constructor
  · rintro ⟨port, isPort, isInput, rfl⟩
    rcases List.mem_append.mp isPort with first | halt
    · rcases List.mem_append.mp first with old | new
      · exact Or.inl ⟨port, old, isInput, rfl⟩
      · right
        left
        rcases List.mem_cons.mp new with rfl | new
        · cases isInput
        · rcases List.mem_cons.mp new with rfl | new
          · cases isInput
          · rw [List.mem_singleton.mp new]
            rfl
    · obtain ⟨inst, isInst, rfl⟩ := List.mem_map.mp halt
      exact Or.inr (Or.inr ⟨inst, List.mem_dedup.mp isInst, rfl⟩)
  · rintro (⟨port, isPort, isInput, rfl⟩ | rfl | ⟨inst, isInst, rfl⟩)
    · exact ⟨port, List.mem_append_left _ (List.mem_append_left _ isPort), isInput, rfl⟩
    · refine ⟨InstrReset.metaResetPort, ?_, rfl, rfl⟩
      exact List.mem_append_left _ (List.mem_append_right _ (by simp))
    · refine ⟨InstrReset.haltPort inst, ?_, rfl, rfl⟩
      exact List.mem_append_right _ (List.mem_map_of_mem (List.mem_dedup.mpr isInst))

/-- A module keeps its ports and gets the added ones. -/
theorem mem_ports (spec : Instrumented extModules mod result) {field : String}
    (mem : field ∈ mod.ports.map Port.name ∨ field ∈ addedPorts) :
    field ∈ result.ports.map Port.name := by
  rw [spec.ports, List.map_append, List.map_append]
  apply List.mem_append_left
  exact List.mem_append.mpr mem

/-- No connect is added for another port of an instance. -/
theorem drivers_of_ne (spec : Instrumented extModules mod result) {name field : String}
    (other : field ≠ "metaReset") :
    result.drivers (name, field) = mod.drivers (name, field) := by
  have none : mod.instances.dedup.countP
      (fun inst => (inst.name, "metaReset") = (name, field)) = 0 := by
    rw [List.countP_eq_zero]
    intro inst _
    rw [decide_eq_true_eq, Prod.mk.injEq]
    exact fun both => other both.2.symm
  rw [spec.drivers, none, Nat.add_zero]

/-- One connect is added for the port `metaReset` of an instance. -/
theorem drivers_metaReset (spec : Instrumented extModules mod result)
    (names : (mod.instances.map Instance.name).Nodup) {inst : Instance}
    (isInst : inst ∈ mod.instances) :
    result.drivers (inst.name, "metaReset") = mod.drivers (inst.name, "metaReset") + 1 := by
  have one : mod.instances.dedup.countP
      (fun other => (other.name, "metaReset") = (inst.name, "metaReset")) = 1 := by
    rw [List.Nodup.dedup (List.Nodup.of_map _ names)]
    calc
      mod.instances.countP (fun other => (other.name, "metaReset") = (inst.name, "metaReset")) =
          (mod.instances.map Instance.name).count inst.name := by
        rw [List.count, List.countP_map]
        apply List.countP_congr
        intro other _
        simp
      _ = 1 := List.count_eq_one_of_mem names (List.mem_map_of_mem isInst)
  rw [spec.drivers, one]

end Instrumented

/-! ## The circuit -/

section Circuit

open RegCoverage

variable {choices : Choices} {circuit result : Circuit}

theorem mem_bodies_iff {circuit : Circuit} {mod : Module} :
    mod ∈ circuit.bodies ↔ .internal mod ∈ circuit.modules := by
  rw [Circuit.bodies, List.mem_filterMap]
  constructor
  · rintro ⟨target | ⟨name, ports⟩, isModule, same⟩
    · cases same
      exact isModule
    · cases same
  · intro isModule
    exact ⟨_, isModule, rfl⟩

theorem mem_bodies_execute_iff (executed : execute choices circuit = some result)
    (mod' : Module) :
    mod' ∈ result.bodies ↔
      ∃ mod ∈ circuit.bodies, instrument choices (extModules circuit) mod = some mod' := by
  obtain ⟨modules, traversed, rfl⟩ := Option.map_eq_some_iff.mp executed
  rw [mem_bodies_iff, mem_mapM_iff traversed]
  constructor
  · rintro ⟨mod | ⟨name, ports⟩, isModule, found⟩
    · obtain ⟨_, instrumented, same⟩ := Option.map_eq_some_iff.mp found
      cases same
      exact ⟨mod, mem_bodies_iff.mpr isModule, instrumented⟩
    · cases found
  · rintro ⟨mod, isModule, instrumented⟩
    exact ⟨_, mem_bodies_iff.mp isModule, Option.map_eq_some_iff.mpr ⟨mod', instrumented, rfl⟩⟩

theorem external_mem_iff (executed : execute choices circuit = some result) {name : String}
    {ports : List Port} :
    .external name ports ∈ result.modules ↔ .external name ports ∈ circuit.modules := by
  obtain ⟨modules, traversed, rfl⟩ := Option.map_eq_some_iff.mp executed
  rw [mem_mapM_iff traversed]
  constructor
  · rintro ⟨⟨mod⟩ | ⟨name, ports⟩, isModule, found⟩
    · obtain ⟨_, _, same⟩ := Option.map_eq_some_iff.mp found
      cases same
    · cases found
      exact isModule
  · intro isModule
    exact ⟨_, isModule, rfl⟩

/-- Every module with a body is instrumented. -/
theorem exists_execute (executed : execute choices circuit = some result) {mod : Module}
    (isBody : mod ∈ circuit.bodies) :
    ∃ mod' ∈ result.bodies, instrument choices (extModules circuit) mod = some mod' := by
  have isResult := mem_bodies_execute_iff executed
  obtain ⟨modules, traversed, rfl⟩ := Option.map_eq_some_iff.mp executed
  obtain ⟨_, _, found⟩ := exists_of_mapM_eq_some traversed (mem_bodies_iff.mp isBody)
  obtain ⟨mod', instrumented, _⟩ := Option.map_eq_some_iff.mp found
  exact ⟨mod', (isResult mod').mpr ⟨mod, isBody, instrumented⟩, instrumented⟩

theorem exists_instrumented (executed : execute choices circuit = some result) {mod : Module}
    (isBody : mod ∈ circuit.bodies) :
    ∃ mod' ∈ result.bodies, Instrumented (extModules circuit) mod mod' := by
  obtain ⟨mod', isResult, instrumented⟩ := exists_execute executed isBody
  exact ⟨mod', isResult, instrumented_of_instrument instrumented⟩

namespace Circuit.Linked

theorem target_unique (linked : circuit.Linked) {first second : DefModule}
    (isFirst : first ∈ circuit.modules) (isSecond : second ∈ circuit.modules)
    (same : first.name = second.name) : first = second :=
  List.inj_on_of_nodup_map linked.modules isFirst isSecond same

theorem instance_unique (linked : circuit.Linked) {mod : Module} (isBody : mod ∈ circuit.bodies)
    {first second : Instance} (isFirst : first ∈ mod.instances)
    (isSecond : second ∈ mod.instances) (same : first.name = second.name) : first = second :=
  List.inj_on_of_nodup_map (linked.instances mod isBody) isFirst isSecond same

theorem drivers_of_hasInput (linked : circuit.Linked) {mod : Module}
    (isBody : mod ∈ circuit.bodies) {inst : Instance} (isInst : inst ∈ mod.instances)
    {target : DefModule} (isTarget : target ∈ circuit.modules) (names : target.name = inst.module)
    {field : String} : HasInput target.ports field → mod.drivers (inst.name, field) = 1 := by
  rintro ⟨port, isPort, isInput, rfl⟩
  exact linked.driven mod isBody inst isInst target isTarget names port isPort isInput

theorem drivers_of_not_hasInput (linked : circuit.Linked) {mod : Module}
    (isBody : mod ∈ circuit.bodies) {inst : Instance} (isInst : inst ∈ mod.instances)
    {target : DefModule} (isTarget : target ∈ circuit.modules) (names : target.name = inst.module)
    {field : String} (noInput : ¬ HasInput target.ports field) :
    mod.drivers (inst.name, field) = 0 := by
  rw [Module.drivers, List.countP_eq_zero]
  intro stmt isStmt
  rw [decide_eq_true_eq]
  intro drives
  exact noInput (linked.inputs mod isBody inst isInst target isTarget names stmt isStmt _ drives rfl)

end Circuit.Linked

/-- The module that is instantiated in the original circuit has a counterpart with the
ports it had. -/
theorem exists_target (executed : execute choices circuit = some result) {target : DefModule}
    (isTarget : target ∈ circuit.modules) :
    ∃ target' ∈ result.modules, target'.name = target.name ∧
      target.ports.map Port.name ⊆ target'.ports.map Port.name := by
  cases target with
  | internal mod =>
      obtain ⟨mod', isResult, spec⟩ := exists_instrumented executed (mem_bodies_iff.mpr isTarget)
      refine ⟨_, mem_bodies_iff.mp isResult, spec.name, ?_⟩
      exact fun field mem => spec.mem_ports (Or.inl mem)
  | external name ports =>
      exact ⟨_, (external_mem_iff executed).mpr isTarget, rfl, fun _ mem => mem⟩

instance (target : DefModule) : Decidable target.Complete :=
  match target with
  | .internal _ => inferInstanceAs (Decidable (_ ∧ _))
  | .external _ _ => inferInstanceAs (Decidable (_ ∧ _))

/-- Every module that is instantiated keeps a complete interface. -/
def Circuit.Complete (circuit : Circuit) : Prop :=
  ∀ mod ∈ circuit.bodies, ∀ inst ∈ mod.instances, ∀ target ∈ circuit.modules,
    target.name = inst.module → target.Complete

/-- The added ports exist when the external modules have them. -/
theorem portsExist_of_complete (linked : circuit.Linked)
    (executed : execute choices circuit = some result) (complete : circuit.Complete) :
    result.PortsExist := by
  intro mod' isResult inst isInst stmt isStmt field isAdded mentions
  obtain ⟨mod, isBody, instrumented⟩ := (mem_bodies_execute_iff executed mod').mp isResult
  have spec := instrumented_of_instrument instrumented
  rw [spec.instances] at isInst
  obtain ⟨target, isTarget, names⟩ := linked.found mod isBody inst isInst
  obtain ⟨target', isTarget', sameName, ports⟩ := exists_target executed isTarget
  rcases spec.fields stmt isStmt _ mentions isAdded with
    ⟨old, isOld, mentioned⟩ | ⟨other, isOther, same, notExt⟩
  · have isPort := linked.fields mod isBody inst isInst target isTarget names old isOld _
      mentioned rfl
    exact ⟨target', isTarget', sameName.trans names, ports isPort⟩
  · obtain rfl := linked.instance_unique isBody isInst isOther same
    cases target with
    | internal body =>
        obtain ⟨body', isBody', bodySpec⟩ :=
          exists_instrumented executed (mem_bodies_iff.mpr isTarget)
        exact ⟨_, mem_bodies_iff.mp isBody', bodySpec.name.trans names,
          bodySpec.mem_ports (Or.inr isAdded)⟩
    | external name extPorts =>
        have both := complete mod isBody inst isInst _ isTarget names
        refine ⟨_, (external_mem_iff executed).mpr isTarget, names, ?_⟩
        rcases List.mem_cons.mp isAdded with rfl | isMeta
        · have isExt : inst.module ∈ extModules circuit := by
            rw [← names]
            exact List.mem_map_of_mem (List.mem_filter.mpr ⟨isTarget, rfl⟩)
          exact absurd isExt (notExt rfl)
        · rcases List.mem_pair.mp isMeta with rfl | rfl
          · exact both.1
          · exact both.2

/-- The inputs are driven when the modules with a body instantiate nothing that needs a
halt. -/
theorem inputsDriven_of_complete (linked : circuit.Linked)
    (executed : execute choices circuit = some result) (complete : circuit.Complete) :
    result.InputsDriven := by
  intro mod' isResult inst isInst target' isTarget' names port isPort isInput
  obtain ⟨mod, isBody, instrumented⟩ := (mem_bodies_execute_iff executed mod').mp isResult
  obtain ⟨target, isTarget, targetInstrumented⟩ :=
    (mem_bodies_execute_iff executed target').mp isTarget'
  have spec := instrumented_of_instrument instrumented
  have targetSpec := instrumented_of_instrument targetInstrumented
  rw [spec.instances] at isInst
  have isModule := mem_bodies_iff.mp isTarget
  have named : (DefModule.internal target).name = inst.module := targetSpec.name.symm.trans names
  obtain ⟨noReset, halts⟩ := complete mod isBody inst isInst _ isModule named
  have own : HasInput target.ports port.name → mod'.drivers (inst.name, port.name) = 1 := by
    intro hasInput
    have other : port.name ≠ "metaReset" := by
      rintro same
      exact noReset (same ▸ hasInput)
    rw [spec.drivers_of_ne other]
    exact linked.drivers_of_hasInput isBody isInst isModule named hasInput
  rcases (targetSpec.hasInput_iff port.name).mp ⟨port, isPort, isInput, rfl⟩ with
    old | isReset | ⟨other, isOther, isHalt⟩
  · exact own old
  · rw [isReset, spec.drivers_metaReset (linked.instances mod isBody) isInst,
      linked.drivers_of_not_hasInput isBody isInst isModule named noReset]
  · exact own (isHalt ▸ halts other isOther)

/-- An external module that is instantiated has the ports the passes read and drive. -/
theorem external_complete (linked : circuit.Linked)
    (executed : execute choices circuit = some result) (exist : result.PortsExist)
    {mod : Module} (isBody : mod ∈ circuit.bodies) {inst : Instance}
    (isInst : inst ∈ mod.instances) {name : String} {ports : List Port}
    (isTarget : .external name ports ∈ circuit.modules) (names : name = inst.module) :
    "metaAssert" ∈ ports.map Port.name ∧ "metaReset" ∈ ports.map Port.name := by
  obtain ⟨mod', isResult, spec⟩ := exists_instrumented executed isBody
  have has : ∀ field ∈ addedPorts, (∃ stmt ∈ mod'.stmts, (inst.name, field) ∈ stmt.fields) →
      field ∈ ports.map Port.name := by
    rintro field isAdded ⟨stmt, isStmt, mentions⟩
    obtain ⟨target', isTarget', sameName, isPort⟩ := exist mod' isResult inst
      (spec.instances ▸ isInst) stmt isStmt field isAdded mentions
    rw [← names] at sameName
    cases target' with
    | internal body' =>
        obtain ⟨body, isOld, instrumented⟩ :=
          (mem_bodies_execute_iff executed body').mp (mem_bodies_iff.mpr isTarget')
        have oldName := (instrumented_of_instrument instrumented).name
        have same := linked.target_unique (mem_bodies_iff.mp isOld) isTarget
          (oldName.symm.trans sameName)
        cases same
    | external name' ports' =>
        have isOld := (external_mem_iff executed).mp isTarget'
        cases linked.target_unique isOld isTarget sameName
        exact isPort
  exact ⟨has _ (by decide) (spec.reports inst isInst), has _ (by decide) (spec.resets inst isInst)⟩

/-- A module with a body that is instantiated had no input `metaReset` and had the halt
inputs of its instances. -/
theorem internal_complete (linked : circuit.Linked)
    (executed : execute choices circuit = some result) (driven : result.InputsDriven)
    {mod : Module} (isBody : mod ∈ circuit.bodies) {inst : Instance}
    (isInst : inst ∈ mod.instances) {target : Module} (isTarget : target ∈ circuit.bodies)
    (names : target.name = inst.module) : (DefModule.internal target).Complete := by
  obtain ⟨mod', isResult, spec⟩ := exists_instrumented executed isBody
  obtain ⟨target', isTarget', targetSpec⟩ := exists_instrumented executed isTarget
  have isModule := mem_bodies_iff.mp isTarget
  have once : ∀ field, HasInput target'.ports field → mod'.drivers (inst.name, field) = 1 := by
    rintro field ⟨port, isPort, isInput, rfl⟩
    exact driven mod' isResult inst (spec.instances ▸ isInst) target' isTarget'
      (targetSpec.name.trans names) port isPort isInput
  constructor
  · intro hasReset
    have first := linked.drivers_of_hasInput isBody isInst isModule names hasReset
    have both := once "metaReset" ((targetSpec.hasInput_iff _).mpr (Or.inl hasReset))
    rw [spec.drivers_metaReset (linked.instances mod isBody) isInst, first] at both
    cases both
  · intro other isOther
    by_contra noHalt
    have none := linked.drivers_of_not_hasInput isBody isInst isModule names noHalt
    have one := once (other.name ++ "_halt")
      ((targetSpec.hasInput_iff _).mpr (Or.inr (Or.inr ⟨other, isOther, rfl⟩)))
    rw [spec.drivers_of_ne (halt_ne_metaReset _), none] at one
    cases one

/-- The interfaces fit exactly when every module that is instantiated keeps a complete
one. -/
theorem interfaces_iff (linked : circuit.Linked)
    (executed : execute choices circuit = some result) :
    result.PortsExist ∧ result.InputsDriven ↔ circuit.Complete := by
  constructor
  · rintro ⟨exist, driven⟩ mod isBody inst isInst target isTarget names
    cases target with
    | internal body =>
        exact internal_complete linked executed driven isBody isInst
          (mem_bodies_iff.mpr isTarget) names
    | external name ports =>
        exact external_complete linked executed exist isBody isInst isTarget names
  · intro complete
    exact ⟨portsExist_of_complete linked executed complete,
      inputsDriven_of_complete linked executed complete⟩

end Circuit

/-! ## Two circuits -/

/-- No vectors and no random numbers. -/
def noChoices : Choices := ⟨fun _ => [], fun _ => []⟩

def clockPort : Port := ⟨"clock", .input, .clock⟩

/-- A module that passes its input on. -/
def leaf : Module where
  name := "Leaf"
  ports := [clockPort, ⟨"in", .input, .uint 1⟩, ⟨"out", .output, .uint 1⟩]
  body := [.stmt (.connect (uref "out" 1) (uref "in" 1))]

/-- A port of an instance. -/
def instPort (inst port : String) : Expr := .subField (.ref inst .unknown) port .unknown

/-- A module with one instance. -/
def wrapper (name module : String) : Module where
  name := name
  ports := [clockPort, ⟨"in", .input, .uint 1⟩, ⟨"out", .output, .uint 1⟩]
  body :=
    [.stmt (.defInstance ⟨"inner", module⟩),
      .stmt (.connect (instPort "inner" "clock") (.ref "clock" .clock)),
      .stmt (.connect (instPort "inner" "in") (uref "in" 1)),
      .stmt (.connect (uref "out" 1) (instPort "inner" "out"))]

/-- A wrapper of a leaf. -/
def twoLevels : Circuit where
  modules := [.internal leaf, .internal (wrapper "Top" "Leaf")]
  main := "Top"

/-- A wrapper of a wrapper of an external module. -/
def blackBox : Circuit where
  modules := [.external "Box" leaf.ports, .internal (wrapper "Mid" "Box"),
    .internal (wrapper "Top" "Mid")]
  main := "Top"

theorem linked_twoLevels : twoLevels.Linked := by
  constructor <;> decide +kernel

theorem linked_blackBox : blackBox.Linked := by
  constructor <;> decide +kernel

/-- An instance of a module without instances has a complete interface. -/
theorem interfaces_twoLevels :
    ∃ result, RegCoverage.execute noChoices twoLevels = some result ∧
      result.PortsExist ∧ result.InputsDriven := by
  have executes : (RegCoverage.execute noChoices twoLevels).isSome = true := by decide +kernel
  obtain ⟨result, executed⟩ := Option.isSome_iff_exists.mp executes
  refine ⟨result, executed, (interfaces_iff linked_twoLevels executed).mpr ?_⟩
  unfold Circuit.Complete
  decide +kernel

/-- An external module has no `metaAssert`, and nothing drives the halt input that its
instance gives the module around it. -/
theorem interfaces_fail_blackBox :
    blackBox.Linked ∧ ∃ result, RegCoverage.execute noChoices blackBox = some result ∧
      ¬ result.PortsExist ∧ ¬ result.InputsDriven := by
  have executes : (RegCoverage.execute noChoices blackBox).isSome = true := by decide +kernel
  obtain ⟨result, executed⟩ := Option.isSome_iff_exists.mp executes
  refine ⟨linked_blackBox, result, executed, ?_, ?_⟩
  · intro exist
    have isBody : wrapper "Mid" "Box" ∈ blackBox.bodies := List.mem_cons_self
    have isExternal : .external "Box" leaf.ports ∈ blackBox.modules := List.mem_cons_self
    have has := external_complete linked_blackBox executed exist isBody
      (List.mem_singleton_self (⟨"inner", "Box"⟩ : Instance)) isExternal rfl
    exact absurd has.1 (by decide)
  · intro driven
    have isBody : wrapper "Top" "Mid" ∈ blackBox.bodies :=
      List.mem_cons_of_mem _ (List.mem_singleton_self _)
    have isTarget : wrapper "Mid" "Box" ∈ blackBox.bodies := List.mem_cons_self
    have has := internal_complete linked_blackBox executed driven isBody
      (List.mem_singleton_self (⟨"inner", "Mid"⟩ : Instance)) isTarget rfl
    exact absurd (has.2 ⟨"inner", "Box"⟩ (List.mem_singleton_self _)) (by decide)

end Difftest.Firrtl
