import Difftest.Firrtl.Outcome

/-!
# Low form

What the compiler promises of the circuit that the passes get: expressions read declared
names and ports, names have no dots, every register is connected once and synchronous
resets have become multiplexers.  None of the added names is read, so no statement of the
circuit notices the reset.
-/

namespace Difftest.Firrtl

/-! ## Signals -/

namespace Expr

/-- Signals that an expression reads or takes a field of. -/
def signals : Expr → List Signal
  | ref name _ => [[name]]
  | subField expr name _ => (expr.signal ++ [name]) :: expr.signals
  | mux cond tval fval _ => cond.signals ++ tval.signals ++ fval.signals
  | validIf cond value _ => cond.signals ++ value.signals
  | uintLiteral _ _ => []
  | sintLiteral _ _ => []
  | doPrim1 _ arg _ _ => arg.signals
  | doPrim2 _ arg1 arg2 _ _ => arg1.signals ++ arg2.signals

/-- The value depends on the signals only. -/
theorem eval_congr {expr : Expr} {env env' : Env}
    (same : ∀ signal ∈ expr.signals, env signal = env' signal) : expr.eval env = expr.eval env' := by
  induction expr with
  | ref name tpe => exact same _ (List.mem_singleton_self _)
  | subField expr name tpe _ => exact same _ List.mem_cons_self
  | mux cond tval fval tpe ihC ihT ihF =>
      rw [signals, List.forall_mem_append, List.forall_mem_append] at same
      rw [eval, eval, ihC same.1.1, ihT same.1.2, ihF same.2]
  | validIf cond value tpe _ ihV =>
      rw [signals, List.forall_mem_append] at same
      rw [eval, eval, ihV same.2]
  | uintLiteral value width => rfl
  | sintLiteral value width => rfl
  | doPrim1 op arg consts tpe ih => rw [eval, eval, ih same]
  | doPrim2 op arg1 arg2 consts tpe ih1 ih2 =>
      rw [signals, List.forall_mem_append] at same
      rw [eval, eval, ih1 same.1, ih2 same.2]

/-- A reference is among its signals. -/
theorem signal_mem_signals (expr : Expr) : expr.signal ∈ expr.signals ∨ expr.signal = [] := by
  cases expr with
  | ref name tpe => exact Or.inl (List.mem_singleton_self _)
  | subField expr name tpe => exact Or.inl List.mem_cons_self
  | _ => exact Or.inr rfl

/-- The select of a multiplexer reads what the expression reads. -/
theorem signals_cond_of_mem_muxes {expr : Expr} {mux : Mux} (mem : mux ∈ expr.muxes) :
    mux.cond.signals ⊆ expr.signals := by
  induction expr with
  | ref name tpe => cases mem
  | subField expr name tpe ih => exact List.subset_cons_of_subset _ (ih mem)
  | mux cond tval fval tpe ihC ihT ihF =>
      rw [signals]
      rcases List.mem_cons.mp mem with rfl | inside
      · exact List.subset_append_of_subset_left _ (List.subset_append_left _ _)
      · rcases List.mem_append.mp inside with inCondOrT | inF
        · apply List.subset_append_of_subset_left
          rcases List.mem_append.mp inCondOrT with inC | inT
          · exact List.subset_append_of_subset_left _ (ihC inC)
          · exact List.subset_append_of_subset_right _ (ihT inT)
        · exact List.subset_append_of_subset_right _ (ihF inF)
  | validIf cond value tpe ihC ihV =>
      rcases List.mem_append.mp mem with inC | inV
      · exact List.subset_append_of_subset_left _ (ihC inC)
      · exact List.subset_append_of_subset_right _ (ihV inV)
  | uintLiteral value width => cases mem
  | sintLiteral value width => cases mem
  | doPrim1 op arg consts tpe ih => exact ih mem
  | doPrim2 op arg1 arg2 consts tpe ih1 ih2 =>
      rcases List.mem_append.mp mem with in1 | in2
      · exact List.subset_append_of_subset_left _ (ih1 in1)
      · exact List.subset_append_of_subset_right _ (ih2 in2)

end Expr

namespace Stmt

/-- The signal that a connect drives. -/
def target : Stmt → Option Signal
  | connect loc _ => some loc.signal
  | _ => none

/-- The signals that a statement reads or drives. -/
def signals (stmt : Stmt) : List Signal :=
  stmt.target.toList ++ stmt.exprs.flatMap Expr.signals

theorem signals_of_mem_exprs {stmt : Stmt} {expr : Expr} (isExpr : expr ∈ stmt.exprs) :
    expr.signals ⊆ stmt.signals :=
  fun _ isSignal => List.mem_append_right _ (List.mem_flatMap.mpr ⟨expr, isExpr, isSignal⟩)

end Stmt

/-! ## Promises -/

namespace Circuit

variable (circuit : Circuit)

/-- A signal of a module: a declared name, a port of an instance, or a field of a port of a
memory. -/
def Declares (mod : Module) : Signal → Prop
  | [] => False
  | [name] => name ∈ mod.decls.map Prod.fst
  | [name, field] => ∀ sub ∈ circuit.sub? mod name, field ∈ sub.ports.map Port.name
  | _ => True

instance (mod : Module) (signal : Signal) : Decidable (circuit.Declares mod signal) :=
  match signal with
  | [] => isFalse id
  | [_] => inferInstanceAs (Decidable (_ ∈ _))
  | [_, _] => inferInstanceAs (Decidable (∀ sub ∈ _, _))
  | _ :: _ :: _ :: _ => isTrue trivial

/-- The promises of the low form. -/
structure LowForm : Prop where
  declared : ∀ mod ∈ circuit.bodies, ∀ stmt ∈ mod.stmts, ∀ signal ∈ stmt.signals,
    circuit.Declares mod signal
  noDot : ∀ mod ∈ circuit.bodies, ∀ name ∈ mod.name :: mod.decls.map Prod.fst,
    '.' ∉ name.toList
  connected : ∀ mod ∈ circuit.bodies, ∀ reg ∈ mod.registers, ∃ tpe expr,
    mod.stmts.filter (fun stmt => stmt.target = some [reg.name]) =
      [.connect (.ref reg.name tpe) expr]
  noSync : ∀ mod ∈ circuit.bodies, ∀ reg ∈ mod.registers,
    reg.reset.tpe = .asyncReset ∨ reg.reset = .uintLiteral 0 1

/-- A connect drives a declared signal. -/
theorem LowForm.declares_of_connect {circuit : Circuit} (lowForm : circuit.LowForm) {mod : Module}
    (isBody : mod ∈ circuit.bodies) {loc expr : Expr} (isConnect : .connect loc expr ∈ mod.stmts) :
    circuit.Declares mod loc.signal :=
  lowForm.declared mod isBody _ isConnect _ (List.mem_append_left _ (List.mem_singleton_self _))

/-- The signals of a module that carry the reset. -/
def ResetSignal (mod : Module) (signal : Signal) : Prop :=
  signal = ["metaReset"] ∨
    ∃ name sub, circuit.sub? mod name = some sub ∧ signal = [name, "metaReset"]

/-- An expression that does not notice the reset. -/
def Blind (mod : Module) (expr : Expr) : Prop :=
  ∀ signal ∈ expr.signals, ¬ circuit.ResetSignal mod signal

end Circuit

/-! ## Statements that do not notice the reset -/

section Blind

variable {circuit : Circuit}

theorem not_resetSignal_singleton {mod : Module} {name : String} (other : name ≠ "metaReset") :
    ¬ circuit.ResetSignal mod [name] := by
  rintro (same | ⟨_, _, _, same⟩)
  · exact other (List.singleton_inj.mp same)
  · cases same

theorem not_resetSignal_field {mod : Module} {name field : String} (other : field ≠ "metaReset") :
    ¬ circuit.ResetSignal mod [name, field] := by
  rintro (same | ⟨_, _, _, same⟩)
  · cases same
  · cases same
    exact other rfl

theorem not_resetSignal_memory {mod : Module} {mem port field : String} :
    ¬ circuit.ResetSignal mod [mem, port, field] := by
  rintro (same | ⟨_, _, _, same⟩)
  · cases same
  · cases same

theorem Circuit.closed_blind (mod : Module) : Expr.Closed (circuit.Blind mod) where
  literal := fun _ _ => List.forall_mem_nil _
  ref := fun other => List.forall_mem_singleton.mpr (not_resetSignal_singleton other)
  memField := by
    intro mem port field tpe isMem notAdded
    have isPort : port ≠ "metaReset" := by
      rintro rfl
      exact notAdded (by decide)
    simp only [Circuit.Blind, InstrCov.memField, Expr.signals, List.forall_mem_cons]
    exact ⟨not_resetSignal_memory, not_resetSignal_field isPort, not_resetSignal_singleton isMem,
      List.forall_mem_nil _⟩
  mux := fun cond tval fval =>
    List.forall_mem_append.mpr ⟨List.forall_mem_append.mpr ⟨cond, tval⟩, fval⟩
  doPrim1 := fun arg => arg
  doPrim2 := fun arg1 arg2 => List.forall_mem_append.mpr ⟨arg1, arg2⟩

/-- The value of the expression in environments that differ in the reset only. -/
theorem Circuit.Blind.eval_eq {mod : Module} {expr : Expr} (blind : circuit.Blind mod expr)
    {env env' : Env} (same : ∀ signal, ¬ circuit.ResetSignal mod signal → env signal = env' signal) :
    expr.eval env = expr.eval env' :=
  Expr.eval_congr fun signal isSignal => same signal (blind signal isSignal)

end Blind

/-- Control registers are registers of the module. -/
theorem Module.mem_registers_of_ctrlRegs {mod : Module} {vecRegs : List VecRegs}
    {info : ModuleInfo} (isInfo : mod.info vecRegs = some info) {reg : Register}
    (isCtrl : reg ∈ info.ctrlRegs) : reg ∈ mod.registers := by
  obtain ⟨srcs, _, found⟩ := Option.bind_eq_some_iff.mp isInfo
  obtain ⟨dirInRegs, _, rfl⟩ := Option.map_eq_some_iff.mp found
  obtain ⟨name, _, isReg⟩ := List.mem_filterMap.mp (List.mem_dedup.mp isCtrl)
  exact Module.mem_registers_iff.mpr (of_registerOf isReg).2

section Result

open RegCoverage

variable {choices : Choices} {circuit result : Circuit} (lowForm : circuit.LowForm)
  (executed : execute choices circuit = some result)
  (names : ∀ mod' ∈ result.bodies, (mod'.decls.map Prod.fst).Nodup)

include executed names

theorem metaReset_not_declared {mod : Module} (isBody : mod ∈ circuit.bodies) :
    "metaReset" ∉ mod.decls.map Prod.fst := by
  obtain ⟨mod', isResult, instrumented⟩ := exists_execute executed isBody
  obtain ⟨info, added, outcome⟩ := exists_outcome instrumented
  intro isDecl
  apply outcome.fresh (names mod' isResult) isDecl
  apply List.mem_append_left
  apply List.mem_append_left
  decide

/-- No declared signal carries the reset. -/
theorem not_resetSignal_of_declares {mod : Module} (isBody : mod ∈ circuit.bodies)
    {signal : Signal} (declares : circuit.Declares mod signal) :
    ¬ circuit.ResetSignal mod signal := by
  rintro (rfl | ⟨name, sub, found, rfl⟩)
  · exact metaReset_not_declared executed names isBody declares
  · have isPort := declares sub found
    have isDecl : "metaReset" ∈ sub.decls.map Prod.fst := by
      obtain ⟨port, isPort, named⟩ := List.mem_map.mp isPort
      exact named ▸ List.mem_map_of_mem (Module.mem_decls_of_port isPort)
    exact metaReset_not_declared executed names (Circuit.mem_bodies_of_sub? found) isDecl

include lowForm

/-- No statement of the circuit notices the reset. -/
theorem blind_of_stmt {mod : Module} (isBody : mod ∈ circuit.bodies) {stmt : Stmt}
    (isStmt : stmt ∈ mod.stmts) {expr : Expr} (isExpr : expr ∈ stmt.exprs) :
    circuit.Blind mod expr := by
  intro signal isSignal
  apply not_resetSignal_of_declares executed names isBody
  exact lowForm.declared mod isBody stmt isStmt signal (Stmt.signals_of_mem_exprs isExpr isSignal)

/-- No statement of the coverage and of the report notices the reset. -/
theorem blind_of_added {mod mod' : Module} (isBody : mod ∈ circuit.bodies) {info : ModuleInfo}
    {added : List Stmt} (outcome : Outcome choices (extModules circuit) mod mod' info added) :
    ∀ stmt ∈ added ++ InstrAssert.addedStmts mod.instances.dedup mod,
      stmt.Added (circuit.Blind mod) := by
  have closed := @Circuit.closed_blind circuit mod
  have field : ∀ inst ∈ mod.instances, ∀ port, port ≠ "metaReset" →
      circuit.Blind mod (.subField (.ref inst.name .unknown) port .unknown) := by
    intro inst isInst port isPort
    have isDecl : inst.name ∈ mod.decls.map Prod.fst := by
      obtain ⟨stmt, isStmt, declares⟩ := List.mem_filterMap.mp isInst
      cases stmt with
      | defInstance other =>
          cases declares
          exact List.mem_map_of_mem (Module.mem_decls_of_stmt isStmt rfl)
      | _ => cases declares
    have notReset : inst.name ≠ "metaReset" := by
      intro same
      exact metaReset_not_declared executed names isBody (same ▸ isDecl)
    simp only [Circuit.Blind, Expr.signals, List.forall_mem_cons]
    exact ⟨not_resetSignal_field isPort, not_resetSignal_singleton notReset, List.forall_mem_nil _⟩
  obtain ⟨srcs, insts, _⟩ := Module.info_eq outcome.isInfo
  rw [List.forall_mem_append]
  constructor
  · apply InstrCov.added_addedStmts closed outcome.isAdded
    · intro inst isInst _
      rw [insts, List.mem_dedup] at isInst
      exact field inst isInst _ (by decide)
    · intro reg isCtrl
      apply closed.ref
      intro same
      have isReg := Module.mem_registers_of_ctrlRegs outcome.isInfo isCtrl
      have isDecl : reg.name ∈ mod.decls.map Prod.fst :=
        List.mem_map_of_mem (Module.mem_decls_of_register isReg)
      exact metaReset_not_declared executed names isBody (same ▸ isDecl)
    · intro entry isEntry
      obtain ⟨mux, isMux, found⟩ := (mem_mapM_iff srcs entry).mp isEntry
      obtain ⟨list, _, rfl⟩ := Option.map_eq_some_iff.mp found
      obtain ⟨stmt, isStmt, inStmt⟩ := List.mem_flatMap.mp (List.mem_dedup.mp isMux)
      obtain ⟨expr, isExpr, inExpr⟩ := List.mem_flatMap.mp inStmt
      have blind := blind_of_stmt lowForm executed names isBody isStmt isExpr
      exact fun signal isSignal => blind signal (Expr.signals_cond_of_mem_muxes inExpr isSignal)
  · apply InstrAssert.added_addedStmts closed
    · intro inst isInst
      exact field inst (List.mem_dedup.mp isInst) _ (by decide)
    · intro en isStop
      obtain ⟨stmt, isStmt, isEn⟩ := List.mem_filterMap.mp isStop
      apply blind_of_stmt lowForm executed names isBody isStmt
      split at isEn
      · cases isEn
        exact List.mem_cons_of_mem _ (List.mem_singleton_self _)
      · cases isEn

end Result

end Difftest.Firrtl
