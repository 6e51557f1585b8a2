import Difftest.Firrtl.Lowered

/-!
# The reset clears the design

The reset of the top reaches every instance.  At an edge it clears the registers that the
circuit had and those of the report, and the coverage goes on as if it were low.
-/

namespace Difftest.Firrtl

open InstrCov RegCoverage

/-! ## One register -/

theorem Ty.fit_zero (tpe : Ty) : tpe.fit 0 = 0 := by
  cases tpe with
  | sint width => exact Int.zero_bmod
  | unknown => rfl
  | _ => exact Int.zero_emod _

/-- At an edge a register takes the value of its connect unless it is reset. -/
theorem Register.Follows.next_of_tick {reg : Register} {env env' : Env} {expr : Expr}
    (follows : reg.Follows env env' expr)
    (noSync : reg.reset.tpe = .asyncReset ∨ reg.reset = .uintLiteral 0 1)
    (unforced : ¬ reg.Forced env) (unforced' : ¬ reg.Forced env') (tick : Ticks env reg.clock) :
    env' [reg.name] = reg.tpe.fit (expr.eval env) := by
  have noInit : ¬ reg.reset.eval env ≠ 0 := by
    rcases noSync with isAsync | noReset
    · exact fun isReset => unforced ⟨isAsync, isReset⟩
    · rw [noReset]
      exact not_not.mpr rfl
  rw [follows.2 unforced', Register.next, if_neg (not_or.mpr ⟨unforced, not_not.mpr tick⟩),
    if_neg noInit]

section Instance

variable {choices : Choices} {circuit result : Circuit} (lowForm : circuit.LowForm)
  {mod mod' : Module} (isBody : mod ∈ circuit.bodies) {info : ModuleInfo} {added : List Stmt}
  (outcome : Outcome choices (extModules circuit) mod mod' info added)
  (nodup : (mod'.decls.map Prod.fst).Nodup) {env env' low low' : Env}

include lowForm isBody outcome nodup

/-- At an edge the reset clears a register. -/
theorem reset_clears (obeys : mod'.Obeys env env') (high : env ["metaReset"] = 1)
    {reg : Register} (isReg : reg ∈ mod.resetRegs) (tick : Ticks env reg.clock)
    (unforced : reg ∈ mod.registers → ¬ reg.Forced env ∧ ¬ reg.Forced env') :
    env' [reg.name] = 0 := by
  obtain ⟨tpe, driver, isDriver, _⟩ := outcome.exists_driver nodup lowForm isBody isReg
  have follows := outcome.follows nodup obeys isReg isDriver
  have quiet : (reg.reset.tpe = .asyncReset ∨ reg.reset = .uintLiteral 0 1) ∧
      ¬ reg.Forced env ∧ ¬ reg.Forced env' := by
    rcases List.mem_append.mp isReg with old | assert
    · have isOld := List.mem_dedup.mp old
      exact ⟨lowForm.noSync mod isBody reg isOld, unforced isOld⟩
    · obtain ⟨clock, _, _, _, rfl⟩ :=
        InstrAssert.moduleAssertReg_eq_some_iff.mp (Option.mem_toList.mp assert)
      have never : ∀ env, ¬ (InstrAssert.assertReg mod.name clock).Forced env := by
        rintro env ⟨isAsync, _⟩
        cases isAsync
      exact ⟨Or.inr rfl, never env, never env'⟩
  rw [follows.next_of_tick quiet.1 quiet.2.1 quiet.2.2 tick, Expr.eval, uref, Expr.eval, high,
    if_pos one_ne_zero, Expr.eval, Nat.cast_zero, Ty.fit_zero]
  exact Ty.fit_zero _

variable (executed : execute choices circuit = some result)
  (names : ∀ mod' ∈ result.bodies, (mod'.decls.map Prod.fst).Nodup)
  (agree : ∀ signal, ¬ circuit.ResetSignal mod signal → low signal = env signal)

include executed names agree

/-- A register of the coverage goes on as if the reset were low. -/
theorem cover_next (obeys : mod'.Obeys env env') (obeysLow : mod'.Obeys low low') {reg : Register}
    (isDecl : .defRegister reg ∈ added) {tpe : Ty} {expr : Expr}
    (isConnect : .connect (.ref reg.name tpe) expr ∈ added) :
    low' [reg.name] = env' [reg.name] := by
  have inside : ∀ {stmt}, stmt ∈ added →
      stmt ∈ mod.stmts ++ added ++ InstrAssert.addedStmts mod.instances.dedup mod :=
    fun isStmt => List.mem_append_left _ (List.mem_append_right _ isStmt)
  have isReg : reg ∈ mod'.registers :=
    Module.mem_registers_iff.mpr (outcome.mem_stmts (inside isDecl))
  have others : ∀ other ∈ mod.resetRegs, other.name ≠ reg.name := by
    intro other isOther named
    have isAdded : reg.name ∈ declaredNames added := mem_declaredNames_of_stmt isDecl rfl
    rcases List.mem_append.mp isOther with old | assert
    · have isName : reg.name ∈ mod.decls.map Prod.fst :=
        named ▸ List.mem_map_of_mem (Module.mem_decls_of_register (List.mem_dedup.mp old))
      apply outcome.fresh nodup isName
      rw [List.filterMap_append, List.map_append]
      exact List.mem_append_right _ (List.mem_append_left _ isAdded)
    · apply outcome.disjoint nodup isAdded
      rw [← named]
      obtain ⟨clock, top, clocked, isTop, rfl⟩ :=
        InstrAssert.moduleAssertReg_eq_some_iff.mp (Option.mem_toList.mp assert)
      exact mem_declaredNames_of_stmt (InstrAssert.mem_addedStmts_of_top clocked isTop).1 rfl
  have isStmt : .connect (.ref reg.name tpe) expr ∈ mod'.stmts := by
    rw [← addMetaReset_of_ne lowForm isBody outcome (inside isConnect)]
    · exact outcome.mem_stmts (inside isConnect)
    · intro other isOther same
      exact others other isOther (List.singleton_inj.mp same)
  have notReset : reg ∉ mod.resetRegs := fun isOther => others reg isOther rfl
  obtain ⟨unforced, next⟩ := next_eq_of_not_reset lowForm executed names isBody outcome nodup agree
    obeys isReg notReset isStmt rfl
  exact (((obeysLow.2 _ isStmt).1 reg isReg rfl).2 (unforced low')).trans next

end Instance

/-! ## The circuit -/

/-- The signals of the instances with the reset of the top low; the resets of the instances
may change with it. -/
structure Circuit.ResetLow (circuit : Circuit) (env low : List String → Env) : Prop where
  top : low [] ["metaReset"] = 0
  agree : ∀ {path mod}, circuit.moduleAt path = some mod → ∀ signal,
    ¬ circuit.ResetSignal mod signal → low path signal = env path signal

/-- The coverage of a module has the same next state, sum and words from lowered signals. -/
structure Module.SameCover (mod : Module) (size : Nat) (next : Env) (words words' : Words)
    (low low' : Env) : Prop where
  state : low' [regStateName mod] = next [regStateName mod]
  sum : low' [covSumName mod] = next [covSumName mod]
  memory : ∀ other, (defMemory (covMapName mod) (covMapSize size)).Updates low words other ↔
    ∀ addr < covMapSize size, other (covMapName mod) addr = words' (covMapName mod) addr

section Circuit

variable {choices : Choices} {circuit result : Circuit} (linked : circuit.Linked)
  (executed : execute choices circuit = some result) {v : List String → Nat → Env}
  {words : List String → Nat → Words} (runs : result.Runs v words) {t : Nat}

include linked executed runs

/-- The reset of the top reaches every instance. -/
theorem metaReset_high (high : v [] t ["metaReset"] = 1) {path : List String} {mod : Module}
    (isModule : circuit.moduleAt path = some mod) : v path t ["metaReset"] = 1 := by
  induction path using List.reverseRecOn generalizing mod with
  | nil => exact high
  | append_singleton path name inductionHypothesis =>
      rw [Circuit.moduleAt_concat] at isModule
      obtain ⟨outer, isOuter, found⟩ := Option.bind_eq_some_iff.mp isModule
      obtain ⟨inst, isInst, named, _⟩ := Circuit.exists_instance_of_sub? found
      obtain ⟨_, _, _, outcome, _, _, obeys⟩ := linked.exists_run executed runs isOuter
      have port : v path t [name, "metaReset"] = v (path ++ [name]) t ["metaReset"] :=
        linked.port_eq executed runs isOuter found
          (List.mem_cons_of_mem _ (List.mem_cons_of_mem _ (List.mem_singleton_self _))) t
      have outside : Raised (v path t) (uref "metaReset" 1) := by
        rw [Raised, uref, Expr.eval, inductionHypothesis isOuter]
        rfl
      have raised := (raised_or_iff _ (uref (inst.name ++ "_halt") 1)).mpr (Or.inl outside)
      rw [← port, ← named, outcome.metaReset_eq (obeys t) isInst, ← raised]
      exact (Int.emod_emod_of_dvd _ dvd_rfl).symm

variable (lowForm : circuit.LowForm)
  (internal : ∀ target ∈ circuit.modules, target.isExternal = false)

include lowForm internal

/-- With the reset of the top low the circuit goes on too. -/
theorem exists_low : ∃ low low', circuit.ResetLow (fun path => v path t) low ∧
    result.Steps low low' := by
  have agree : ∀ {path mod}, circuit.moduleAt path = some mod → ∀ signal,
      ¬ circuit.ResetSignal mod signal →
        circuit.lowered (fun path => v path t) path signal = v path t signal :=
    fun isModule signal other => Circuit.lowered_eq isModule other
  have each : ∀ path, ∃ low', ∀ mod', result.moduleAt path = some mod' →
      mod'.Obeys (circuit.lowered (fun path => v path t) path) low' := by
    intro path
    cases isModule : circuit.moduleAt path with
    | none =>
        refine ⟨v path t, fun mod' isModule' => ?_⟩
        obtain ⟨mod, known, _⟩ := (linked.moduleAt_execute_iff executed).mp isModule'
        cases isModule.symm.trans known
    | some mod =>
        obtain ⟨mod', info, added, outcome, isModule', nodup, obeys⟩ :=
          linked.exists_run executed runs isModule
        have isBody := Circuit.mem_bodies_of_moduleAt isModule
        have goesOn := @exists_obeys _ _ _ lowForm executed runs.names _ _ isBody _ _ outcome nodup
          _ _ (circuit.lowered (fun path => v path t) path) (agree isModule) (obeys t)
        have resets : ∀ inst ∈ mod.instances,
            circuit.lowered (fun path => v path t) path [inst.name, "metaReset"] =
              (Expr.doPrim2 .or (uref "metaReset" 1) (uref (inst.name ++ "_halt") 1) []
                (.uint 1)).eval (circuit.lowered (fun path => v path t) path) := by
          intro inst isInst
          obtain ⟨sub, found⟩ := linked.exists_sub internal isBody isInst
          have halt := agree isModule [inst.name ++ "_halt"]
            (not_resetSignal_singleton (halt_ne_metaReset _))
          rw [Circuit.lowered_port isModule found, Circuit.lowered_reset, List.reverse_append,
            List.reverse_singleton, List.singleton_append, Circuit.haltedAt, List.reverse_reverse]
          simp only [Expr.eval, uref, halt, Circuit.lowered_reset]
          rfl
        obtain ⟨low', obeys'⟩ := goesOn (Circuit.inRange_haltedAt _) resets
        refine ⟨low', fun other isOther => ?_⟩
        cases isModule'.symm.trans isOther
        exact obeys'
  choose low' obeys using each
  refine ⟨circuit.lowered fun path => v path t, low', ⟨rfl, agree⟩,
    fun isModule' => obeys _ _ isModule', ?_⟩
  intro path mod' isModule' name sub' found' port isPort
  obtain ⟨mod, isModule, instrumented⟩ := (linked.moduleAt_execute_iff executed).mp isModule'
  obtain ⟨sub, found, _⟩ := (linked.sub?_execute_iff executed instrumented).mp found'
  by_cases isReset : port.name = "metaReset"
  · rw [isReset]
    exact Circuit.lowered_port isModule found
  · rw [agree isModule _ (not_resetSignal_field isReset),
      agree (Circuit.moduleAt_of_sub? isModule found) _ (not_resetSignal_singleton isReset)]
    exact (runs.steps t).ports isModule' found' port isPort

/-- At an edge with the reset of the top high every register that the circuit had and every
register of the report becomes zero.  The circuit could go on with the reset low as well, and
however it did, the coverage of each instance would have the same next values. -/
theorem metaReset_clears (high : v [] t ["metaReset"] = 1)
    (ticks : ∀ {path mod}, circuit.moduleAt path = some mod → ∀ reg ∈ mod.resetRegs,
      Ticks (v path t) reg.clock)
    (unforced : ∀ {path mod}, circuit.moduleAt path = some mod → ∀ reg ∈ mod.registers,
      ¬ reg.Forced (v path t) ∧ ¬ reg.Forced (v path (t + 1))) :
    (∀ path mod, circuit.moduleAt path = some mod → ∀ reg ∈ mod.resetRegs,
      v path (t + 1) [reg.name] = 0) ∧
    (∃ low low', circuit.ResetLow (fun path => v path t) low ∧ result.Steps low low') ∧
    ∀ low low', circuit.ResetLow (fun path => v path t) low → result.Steps low low' →
      ∀ path mod info, circuit.moduleAt path = some mod →
        mod.info (choices.vecRegs mod.name) = some info →
        ¬ Stateless info (choices.draws mod.name) mod →
          mod.SameCover (info.regStateSize (choices.draws mod.name)) (v path (t + 1))
            (words path t) (words path (t + 1)) (low path) (low' path) := by
  refine ⟨?_, exists_low linked executed runs lowForm internal, ?_⟩
  · intro path mod isModule reg isReg
    obtain ⟨_, _, _, outcome, _, nodup, obeys⟩ := linked.exists_run executed runs isModule
    exact reset_clears lowForm (Circuit.mem_bodies_of_moduleAt isModule) outcome nodup (obeys t)
      (metaReset_high linked executed runs high isModule) isReg (ticks isModule reg isReg)
      (unforced isModule reg)
  · intro low low' resetLow steps path mod info isModule isInfo notStateless
    obtain ⟨mod', info', added, outcome, isModule', nodup, obeys⟩ :=
      linked.exists_run executed runs isModule
    obtain rfl := Option.some.inj (isInfo.symm.trans outcome.isInfo)
    rw [Stateless, not_or] at notStateless
    obtain ⟨clock, clocked⟩ := Option.ne_none_iff_exists'.mp notStateless.1
    obtain ⟨covers, top, isTop⟩ := coverStmts_added outcome.isAdded clocked notStateless.2
    have next := fun reg isDecl tpe expr isConnect =>
      @cover_next _ _ _ lowForm _ _ (Circuit.mem_bodies_of_moduleAt isModule) _ _ outcome nodup _ _
        _ _ executed runs.names (resetLow.agree isModule) (obeys t) (steps.obeys isModule') reg
        isDecl tpe expr isConnect
    have inside : ∀ stmt ∈ coverStmts mod clock (info.regStateSize (choices.draws mod.name)),
        stmt ∈ added := fun stmt isStmt => covers isStmt
    simp only [coverStmts, readConnect, List.forall_mem_append, List.forall_mem_cons] at inside
    rcases inside with ⟨⟨isState, isMemory, isSum, _⟩, ⟨_, _, _, isUpdate, _⟩, _⟩
    constructor
    · exact next (defRegister (regStateName mod) _ clock _) isState (.uint _) top isTop
    · exact next (defRegister (covSumName mod) _ clock _) isSum (.uint _) (sumUpdate mod) isUpdate
    · intro other
      have isResult := outcome.mem_stmts (List.mem_append_left _ (List.mem_append_right _ isMemory))
      have isMem : defMemory (covMapName mod)
          (covMapSize (info.regStateSize (choices.draws mod.name))) ∈ mod'.memories :=
        List.mem_filterMap.mpr ⟨_, isResult, rfl⟩
      have updates := (runs.memories isModule' _ isMem).updates rfl t
      have same : ∀ port field, low path [covMapName mod, port, field] =
          v path t [covMapName mod, port, field] :=
        fun port field => resetLow.agree isModule _ not_resetSignal_memory
      have lowUpdates := (Memory.updates_congr same).mpr updates
      exact Memory.updates_iff rfl lowUpdates other

end Circuit

/-! ## A latch that is reset -/

/-- A module around one latch. -/
def latchTop : Module where
  name := "Top"
  ports := latch.ports
  body :=
    [.stmt (.defInstance ⟨"a", "Latch"⟩),
      .stmt (.connect (instPort "a" "clock") (.ref "clock" .clock)),
      .stmt (.connect (instPort "a" "in") (uref "in" 1)),
      .stmt (.connect (uref "out" 1) (instPort "a" "out"))]

def oneLatch : Circuit where
  modules := [.internal latch, .internal latchTop]
  main := "Top"

/-- Signals of the latch in four cycles; the reset is high in the first and clears it. -/
def resetEnv (path : List String) (p : Nat) : Env := fun signal =>
  (List.lookup signal
    (if path = [] then
      [(["clock"], 1), (["in"], 1), (["out"], if p = 1 then 0 else 1),
        (["metaReset"], if p = 0 then 1 else 0), (["a", "clock"], 1), (["a", "in"], 1),
        (["a", "out"], if p = 1 then 0 else 1), (["a", "metaReset"], if p = 0 then 1 else 0),
        (["a", "io_covSum"], min p 2), (["a_sum"], min p 2), (["io_covSum"], min p 2)]
    else
      [(["clock"], 1), (["in"], 1), (["out"], if p = 1 then 0 else 1),
        (["metaReset"], if p = 0 then 1 else 0), (["flag"], if p = 1 then 0 else 1),
        (["flag_shl"], if p = 1 then 0 else 1), (["flag_pad"], if p = 1 then 0 else 1),
        (["Latch_state"], p % 2), (["Latch_cov", "read", "addr"], p % 2),
        (["Latch_cov", "read", "en"], 1), (["Latch_cov", "read", "clk"], 1),
        (["Latch_cov", "read", "data"], if p ≤ 1 then 0 else 1),
        (["Latch_cov", "write", "addr"], p % 2), (["Latch_cov", "write", "en"], 1),
        (["Latch_cov", "write", "clk"], 1), (["Latch_cov", "write", "mask"], 1),
        (["Latch_cov", "write", "data"], 1), (["Latch_covSum"], min p 2),
        (["io_covSum"], min p 2)])).getD 0

/-- Both states are seen in the first two cycles. -/
def resetWords (p : Nat) : Words := fun _ addr => if p ≤ addr then 0 else 1

theorem linked_oneLatch : oneLatch.Linked := by
  constructor <;> decide

theorem lowForm_oneLatch : oneLatch.LowForm := by
  have bodies : oneLatch.bodies = [latch, latchTop] := rfl
  constructor
  · decide
  · decide
  · rw [bodies]
    intro mod isBody reg isReg
    rcases List.mem_pair.mp isBody with rfl | rfl
    · cases List.mem_singleton.mp isReg
      exact ⟨.uint 1, uref "in" 1, by rfl⟩
    · cases isReg
  · decide

theorem sub?_latchTop {name : String} {sub : Module}
    (found : oneLatch.sub? latchTop name = some sub) : (name, sub) ∈ [("a", latch)] := by
  obtain ⟨inst, isInst, rfl, isSub⟩ := Circuit.exists_instance_of_sub? found
  have instances : latchTop.instances = [⟨"a", "Latch"⟩] := rfl
  rw [instances] at isInst
  cases List.mem_singleton.mp isInst
  cases isSub
  exact List.mem_singleton_self _

theorem oneLatch_runs {result : Circuit} (executed : execute noChoices oneLatch = some result) :
    result.Runs (fun path t => resetEnv path (min t 3)) (fun _ t => resetWords (min t 3)) := by
  have top : ∀ mod' ∈ instrument noChoices (extModules oneLatch) latchTop,
      (∀ p < 4, mod'.Obeys (resetEnv [] p) (resetEnv [] (min (p + 1) 3))) ∧
        mod'.memories = [] := by decide
  have leaf : ∀ mod' ∈ instrument noChoices (extModules oneLatch) latch,
      (∀ p < 4, mod'.Obeys (resetEnv ["a"] p) (resetEnv ["a"] (min (p + 1) 3))) ∧
        mod'.memories = [defMemory "Latch_cov" 2] ∧ ∀ port ∈ mod'.ports, ∀ p < 4,
          resetEnv [] p ["a", port.name] = resetEnv ["a"] p [port.name] := by
    decide
  apply linked_oneLatch.runs_of_leaves executed rfl (fun _ _ => sub?_latchTop)
  · decide
  · decide
  · intro mod' instrumented
    obtain ⟨phases, none⟩ := top mod' instrumented
    exact ⟨fun t => @of_phases (fun p p' => mod'.Obeys (resetEnv [] p) (resetEnv [] p')) phases t,
      none ▸ List.forall_mem_nil _⟩
  · intro entry isLeaf mod' instrumented
    cases List.mem_singleton.mp isLeaf
    obtain ⟨phases, one, ports⟩ := leaf mod' instrumented
    refine ⟨⟨fun t => @of_phases
      (fun p p' => mod'.Obeys (resetEnv ["a"] p) (resetEnv ["a"] p')) phases t, ?_⟩,
      fun port isPort t => ports port isPort (min t 3) (by omega)⟩
    rw [one, List.forall_mem_singleton]
    exact latch_memory (by decide) (by decide) (by decide)

/-- The latch is cleared in the first cycle and its sum goes up all the same. -/
theorem metaReset_clears_oneLatch :
    oneLatch.Linked ∧ oneLatch.LowForm ∧ ∃ result, execute noChoices oneLatch = some result ∧
      result.Runs (fun path t => resetEnv path (min t 3)) (fun _ t => resetWords (min t 3)) ∧
      ((∀ path mod, oneLatch.moduleAt path = some mod → ∀ reg ∈ mod.resetRegs,
        resetEnv path 1 [reg.name] = 0) ∧
      (∃ low low', oneLatch.ResetLow (fun path => resetEnv path 0) low ∧ result.Steps low low') ∧
      ∀ low low', oneLatch.ResetLow (fun path => resetEnv path 0) low → result.Steps low low' →
        ∀ path mod info, oneLatch.moduleAt path = some mod → mod.info [] = some info →
          ¬ Stateless info [] mod →
            mod.SameCover (info.regStateSize []) (resetEnv path 1) (resetWords 0) (resetWords 1)
              (low path) (low' path)) := by
  have executes : (execute noChoices oneLatch).isSome = true := by rfl
  obtain ⟨result, executed⟩ := Option.isSome_iff_exists.mp executes
  have runs := oneLatch_runs executed
  have regs : ∀ {path mod}, oneLatch.moduleAt path = some mod → ∀ reg ∈ mod.resetRegs,
      path = ["a"] ∧ reg = flag := by
    intro path mod isModule reg isReg
    rcases Circuit.moduleAt_cases rfl (fun _ _ => sub?_latchTop) (by decide) isModule with
      ⟨rfl, rfl⟩ | ⟨leaf, isLeaf, rfl, rfl⟩
    · have none : latchTop.resetRegs = [] := by rfl
      rw [none] at isReg
      cases isReg
    · cases List.mem_singleton.mp isLeaf
      have one : latch.resetRegs = [flag] := by rfl
      rw [one] at isReg
      exact ⟨rfl, List.mem_singleton.mp isReg⟩
  refine ⟨linked_oneLatch, lowForm_oneLatch, result, executed, runs, ?_⟩
  apply @metaReset_clears _ _ _ linked_oneLatch executed _ _ runs 0 lowForm_oneLatch
    (by decide) rfl
  · intro path mod isModule reg isReg
    obtain ⟨rfl, rfl⟩ := regs isModule reg isReg
    rfl
  · intro path mod isModule reg isReg
    obtain ⟨rfl, rfl⟩ := regs isModule reg (List.mem_append_left _ (List.mem_dedup.mpr isReg))
    have never : ∀ env, ¬ flag.Forced env := by
      rintro env ⟨isAsync, _⟩
      cases isAsync
    exact ⟨never _, never _⟩

end Difftest.Firrtl
