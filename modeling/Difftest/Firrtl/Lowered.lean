import Difftest.Firrtl.Targets

/-!
# The same cycle with the reset low

Given the signals of a cycle, lowering the reset of the top changes the resets of the
instances and nothing else, as no statement reads them but the multiplexers in front of the
registers.  So the lowered signals are obeyed too, and registers without a multiplexer and
memories go to the same next values.
-/

namespace Difftest.Firrtl

/-! ## Memories in one cycle -/

/-- The port writes to a word at the end of the cycle. -/
def MemPort.WritesTo (port : MemPort) (env : Env) (addr : Nat) : Prop :=
  port.Ticks env ∧ port.Enabled env ∧ env port.addr = (addr : Int)

namespace Memory

variable {mem : Memory}

/-- The words after a cycle of a memory whose writes take one edge. -/
def Updates (mem : Memory) (env : Env) (words words' : Words) : Prop :=
  ∀ addr < mem.depth,
    (∃ port ∈ mem.writePorts,
      port.WritesTo env addr ∧ words' mem.name addr = mem.dataType.fit (env port.data)) ∨
      ((∀ port ∈ mem.writePorts, ¬ port.WritesTo env addr) ∧
        words' mem.name addr = words mem.name addr)

/-- A write that takes one edge is one of the cycle. -/
theorem writes_iff (latency : mem.writeLatency = 1) {v : Nat → Env} {t addr : Nat} {word : Int}
    {port : MemPort} :
    mem.Writes v t addr word port ↔
      port.WritesTo (v t) addr ∧ word = mem.dataType.fit (v t port.data) := by
  rw [Writes, latency]
  constructor
  · rintro ⟨tick, s, rfl, enabled, atAddr, wordEq⟩
    exact ⟨⟨tick, enabled, atAddr⟩, wordEq⟩
  · rintro ⟨⟨tick, enabled, atAddr⟩, wordEq⟩
    exact ⟨tick, t, rfl, enabled, atAddr, wordEq⟩

theorem Holds.updates {v : Nat → Env} {words : Nat → Words} (holds : mem.Holds v words)
    (latency : mem.writeLatency = 1) (t : Nat) : mem.Updates (v t) (words t) (words (t + 1)) := by
  intro addr inside
  have written := holds.2 t addr inside
  simp only [writes_iff latency] at written
  rcases written with write | ⟨noWrite, same⟩
  · exact Or.inl write
  · exact Or.inr ⟨fun port isPort writes => noWrite port isPort _ ⟨writes, rfl⟩, same⟩

/-- One port leaves no choice. -/
theorem updates_iff {port : MemPort} (single : mem.writePorts = [port]) {env : Env}
    {words words' : Words} (updates : mem.Updates env words words') (other : Words) :
    mem.Updates env words other ↔
      ∀ addr < mem.depth, other mem.name addr = words' mem.name addr := by
  constructor
  · intro updates' addr inside
    have first := updates addr inside
    have second := updates' addr inside
    simp only [single, List.mem_singleton, exists_eq_left, forall_eq] at first second
    rcases first with ⟨writes, isFirst⟩ | ⟨noWrite, isFirst⟩
    · rcases second with ⟨_, isSecond⟩ | ⟨noWrite, _⟩
      · exact isSecond.trans isFirst.symm
      · exact absurd writes noWrite
    · rcases second with ⟨writes, _⟩ | ⟨_, isSecond⟩
      · exact absurd writes noWrite
      · exact isSecond.trans isFirst.symm
  · intro same addr inside
    rw [same addr inside]
    exact updates addr inside

/-- A cycle of a memory depends on the fields of its ports. -/
theorem updates_congr {env env' : Env}
    (same : ∀ port field, env [mem.name, port, field] = env' [mem.name, port, field])
    {words words' : Words} :
    mem.Updates env words words' ↔ mem.Updates env' words words' := by
  have writes : ∀ port ∈ mem.writePorts, env port.data = env' port.data ∧
      ∀ addr, port.WritesTo env addr ↔ port.WritesTo env' addr := by
    intro port isPort
    rcases List.mem_append.mp isPort with isWrite | isReadWrite
    · obtain ⟨name, _, rfl⟩ := List.mem_map.mp isWrite
      simp [MemPort.WritesTo, MemPort.Ticks, MemPort.Enabled, writePort, same]
    · obtain ⟨name, _, rfl⟩ := List.mem_map.mp isReadWrite
      simp [MemPort.WritesTo, MemPort.Ticks, MemPort.Enabled, readwriteWritePort, same]
  have each : ∀ addr,
      (∃ port ∈ mem.writePorts,
        port.WritesTo env addr ∧ words' mem.name addr = mem.dataType.fit (env port.data)) ↔
      ∃ port ∈ mem.writePorts,
        port.WritesTo env' addr ∧ words' mem.name addr = mem.dataType.fit (env' port.data) := by
    intro addr
    apply exists_congr
    intro port
    apply and_congr_right
    intro isPort
    rw [(writes port isPort).1, (writes port isPort).2]
  have none : ∀ addr, (∀ port ∈ mem.writePorts, ¬ port.WritesTo env addr) ↔
      ∀ port ∈ mem.writePorts, ¬ port.WritesTo env' addr :=
    fun addr => forall₂_congr fun port isPort => not_congr ((writes port isPort).2 addr)
  simp only [Updates, each, none]

end Memory

/-! ## Lowered signals -/

namespace Circuit

/-- The reset of an instance when that of the top is low, given the names of the instances
from the instance to the top. -/
def haltedAt (env : List String → Env) : List String → Int
  | [] => 0
  | name :: outer =>
      (Ty.uint 1).fit
        (PrimOp.or.apply2 1 1 1 (haltedAt env outer) (env outer.reverse [name ++ "_halt"]))

/-- The signals of the instances with the reset of the top low. -/
def lowered (circuit : Circuit) (env : List String → Env) (path : List String) : Env
  | ["metaReset"] => haltedAt env path.reverse
  | [name, "metaReset"] =>
      if (circuit.moduleAt (path ++ [name])).isSome then haltedAt env (name :: path.reverse)
      else env path [name, "metaReset"]
  | signal => env path signal

variable {circuit : Circuit} {env : List String → Env} {path : List String} {mod : Module}

theorem lowered_reset : circuit.lowered env path ["metaReset"] = haltedAt env path.reverse := rfl

/-- The reset of an instance is the same inside and outside. -/
theorem lowered_port (isModule : circuit.moduleAt path = some mod) {name : String} {sub : Module}
    (found : circuit.sub? mod name = some sub) :
    circuit.lowered env path [name, "metaReset"] =
      circuit.lowered env (path ++ [name]) ["metaReset"] := by
  have isSome : (circuit.moduleAt (path ++ [name])).isSome :=
    Option.isSome_iff_exists.mpr ⟨sub, moduleAt_of_sub? isModule found⟩
  rw [lowered_reset, List.reverse_append, lowered, if_pos isSome]
  rfl

/-- No other signal changes. -/
theorem lowered_eq (isModule : circuit.moduleAt path = some mod) {signal : Signal}
    (other : ¬ circuit.ResetSignal mod signal) : circuit.lowered env path signal = env path signal := by
  unfold lowered
  split
  · exact absurd (Or.inl rfl) other
  · rename_i name
    apply if_neg
    intro isSome
    rw [moduleAt_concat, isModule, Option.bind_some] at isSome
    obtain ⟨sub, found⟩ := Option.isSome_iff_exists.mp isSome
    exact other (Or.inr ⟨name, sub, found, rfl⟩)
  · rfl

theorem inRange_haltedAt (names : List String) :
    (Ty.uint 1).fit (haltedAt env names) = haltedAt env names := by
  cases names with
  | nil => rfl
  | cons name outer => exact Int.emod_emod_of_dvd _ dvd_rfl

end Circuit

/-! ## Statements of an instrumented module -/

/-- The place that an expression stands for has the same value too. -/
theorem Circuit.Blind.signal_eq {circuit : Circuit} {mod : Module} {expr : Expr}
    (blind : circuit.Blind mod expr) {env env' : Env}
    (same : ∀ signal, ¬ circuit.ResetSignal mod signal → env signal = env' signal) :
    env expr.signal = env' expr.signal := by
  apply same
  rcases expr.signal_mem_signals with isSignal | empty
  · exact blind _ isSignal
  · rw [empty]
    rintro (same | ⟨_, _, _, same⟩)
    · cases same
    · cases same

theorem Stmt.Added.holds_of_mem_exprs {holds : Expr → Prop} (closed : Expr.Closed holds)
    {stmt : Stmt} (added : stmt.Added holds) {expr : Expr} (isExpr : expr ∈ stmt.exprs) :
    holds expr := by
  cases added with
  | wire name tpe => cases isExpr
  | memory mem => cases isExpr
  | register clock reset init =>
      simp only [Stmt.exprs, List.mem_cons, List.not_mem_nil, or_false] at isExpr
      rcases isExpr with rfl | rfl | rfl
      · exact clock
      · rw [reset]
        exact closed.literal 0 1
      · exact init
  | node allowed => exact List.mem_singleton.mp isExpr ▸ allowed
  | connect other allowed =>
      rcases List.mem_pair.mp isExpr with rfl | rfl
      · exact closed.ref other
      · exact allowed
  | memConnect other notAdded allowed =>
      rcases List.mem_pair.mp isExpr with rfl | rfl
      · exact closed.memField other notAdded
      · exact allowed

section Statements

open RegCoverage

variable {choices : Choices} {circuit result : Circuit} (lowForm : circuit.LowForm)
  (executed : execute choices circuit = some result)
  (names : ∀ mod' ∈ result.bodies, (mod'.decls.map Prod.fst).Nodup)
  {mod mod' : Module} (isBody : mod ∈ circuit.bodies) {info : ModuleInfo} {added : List Stmt}
  (outcome : Outcome choices (extModules circuit) mod mod' info added)

include lowForm isBody outcome

/-- The passes find the connects of a register by its name. -/
theorem signal_of_serialize {loc expr : Expr}
    (isConnect : .connect loc expr ∈
      mod.stmts ++ added ++ InstrAssert.addedStmts mod.instances.dedup mod)
    {reg : Register} (isReg : reg ∈ mod.resetRegs) (named : reg.name = loc.serialize) :
    loc.signal = [reg.name] := by
  have noDot : '.' ∉ reg.name.toList := by
    rcases List.mem_append.mp isReg with old | assert
    · exact lowForm.noDot mod isBody reg.name (List.mem_cons_of_mem _
        (List.mem_map_of_mem (Module.mem_decls_of_register (List.mem_dedup.mp old))))
    · obtain ⟨clock, _, _, _, rfl⟩ :=
        InstrAssert.moduleAssertReg_eq_some_iff.mp (Option.mem_toList.mp assert)
      have noDotName := lowForm.noDot mod isBody mod.name List.mem_cons_self
      simp only [InstrAssert.assertReg, String.toList_append, List.mem_append, not_or]
      exact ⟨noDotName, by decide⟩
  have isLoc : ∀ loc : Expr, loc.signal ≠ [] → reg.name = loc.serialize →
      loc.signal = [reg.name] := by
    intro loc notEmpty named
    cases loc with
    | ref name tpe => rw [Expr.signal, named, Expr.serialize]
    | subField expr field tpe =>
        rw [named, Expr.serialize, String.toList_append, String.toList_append] at noDot
        exact absurd (List.mem_append_left _ (List.mem_append_right _ List.mem_cons_self)) noDot
    | _ => exact absurd rfl notEmpty
  apply isLoc loc _ named
  rw [List.append_assoc] at isConnect
  rcases List.mem_append.mp isConnect with inMod | inAdded
  · intro empty
    have declares := lowForm.declares_of_connect isBody inMod
    rw [empty] at declares
    exact declares
  · cases outcome.forms _ inAdded with
    | connect other allowed => exact List.cons_ne_nil _ _
    | memConnect other notAdded allowed => exact List.cons_ne_nil _ _

/-- A connect of anything but the registers that are reset stays as it was. -/
theorem addMetaReset_of_ne {loc expr : Expr}
    (isConnect : .connect loc expr ∈
      mod.stmts ++ added ++ InstrAssert.addedStmts mod.instances.dedup mod)
    (other : ∀ reg ∈ mod.resetRegs, [reg.name] ≠ loc.signal) :
    InstrReset.addMetaReset mod.resetRegs (.connect loc expr) = .connect loc expr := by
  have none : mod.resetRegs.find? (fun reg => reg.name = loc.serialize) = none := by
    rw [List.find?_eq_none]
    intro reg isReg
    rw [decide_eq_true_eq]
    intro named
    exact other reg isReg (signal_of_serialize lowForm isBody outcome isConnect isReg named).symm
  simp only [InstrReset.addMetaReset, none]

include executed names

/-- No expression of the statements notices the reset. -/
theorem blind_of_mem {stmt : Stmt}
    (isStmt : stmt ∈ mod.stmts ++ added ++ InstrAssert.addedStmts mod.instances.dedup mod)
    {expr : Expr} (isExpr : expr ∈ stmt.exprs) : circuit.Blind mod expr := by
  rw [List.append_assoc] at isStmt
  rcases List.mem_append.mp isStmt with inMod | inAdded
  · exact blind_of_stmt lowForm executed names isBody inMod isExpr
  · have form := blind_of_added lowForm executed names isBody outcome stmt inAdded
    exact form.holds_of_mem_exprs (Circuit.closed_blind mod) isExpr

variable (nodup : (mod'.decls.map Prod.fst).Nodup) {env env' low : Env}
  (agree : ∀ signal, ¬ circuit.ResetSignal mod signal → low signal = env signal)

include nodup agree

omit lowForm executed names isBody in
/-- A declared name other than that of the reset has the same value. -/
theorem name_eq {name : String} {decl : Decl} (isDecl : (name, decl) ∈ mod'.decls)
    (other : decl ≠ .port InstrReset.metaResetPort) : low [name] = env [name] := by
  apply agree
  apply not_resetSignal_singleton
  rintro rfl
  have isPort : InstrReset.metaResetPort ∈ mod'.ports := by
    rw [outcome.interface.ports]
    exact List.mem_append_left _ (List.mem_append_right _ (by decide))
  exact other (Module.decl_unique nodup isDecl (Module.mem_decls_of_port isPort))

/-- A register goes to the same value when what it takes does not notice the reset. -/
theorem next_eq {reg : Register} (isReg : reg ∈ mod'.registers) :
    (reg.Forced low ↔ reg.Forced env) ∧
      (reg.tpe.fit (reg.init.eval low) = reg.tpe.fit (reg.init.eval env) ∧
        low [reg.name] = env [reg.name]) ∧
      ∀ expr, circuit.Blind mod expr → reg.next low expr = reg.next env expr := by
  have isStmt := outcome.mem_of_noConnect (Module.mem_registers_iff.mp isReg)
    fun _ _ => Stmt.noConfusion
  have blind := fun expr isExpr =>
    @blind_of_mem _ _ _ lowForm executed names _ _ isBody _ _ outcome _ isStmt expr isExpr
  have clock := (blind reg.clock List.mem_cons_self).eval_eq agree
  have reset := (blind reg.reset (List.mem_cons_of_mem _ List.mem_cons_self)).eval_eq agree
  have init := (blind reg.init (List.mem_cons_of_mem _
    (List.mem_cons_of_mem _ List.mem_cons_self))).eval_eq agree
  have value := name_eq outcome nodup agree (Module.mem_decls_of_register isReg) Decl.noConfusion
  have forced : reg.Forced low ↔ reg.Forced env := by rw [Register.Forced, Register.Forced, reset]
  have ticks : Ticks low reg.clock ↔ Ticks env reg.clock := by rw [Ticks, Ticks, clock]
  refine ⟨forced, ⟨by rw [init], value⟩, ?_⟩
  intro expr isBlind
  rw [Register.next, Register.next, reset, init, value, isBlind.eval_eq agree]
  exact if_congr (or_congr forced (not_congr ticks)) rfl rfl

/-- A register that is not reset goes to the value that it has. -/
theorem next_eq_of_not_reset (obeys : mod'.Obeys env env') {reg : Register}
    (isReg : reg ∈ mod'.registers) (notReset : reg ∉ mod.resetRegs) {loc expr : Expr}
    (isStmt : .connect loc expr ∈ mod'.stmts) (drives : loc.signal = [reg.name]) :
    (∀ env, ¬ reg.Forced env) ∧ reg.next low expr = env' [reg.name] := by
  have unforced : ∀ env, ¬ reg.Forced env := by
    have isDecl := outcome.mem_of_noConnect (Module.mem_registers_iff.mp isReg)
      fun _ _ => Stmt.noConfusion
    rw [List.append_assoc] at isDecl
    rintro env ⟨isAsync, _⟩
    rcases List.mem_append.mp isDecl with inMod | inAdded
    · exact notReset (List.mem_append_left _
        (List.mem_dedup.mpr (Module.mem_registers_iff.mpr inMod)))
    · cases outcome.forms _ inAdded with
      | register clock reset init =>
          rw [reset] at isAsync
          cases isAsync
  have others : ∀ other ∈ mod.resetRegs, [other.name] ≠ loc.signal := by
    intro other isOther same
    have named := List.singleton_inj.mp (same.trans drives)
    have otherDecl := Module.mem_decls_of_register (outcome.mem_registers isOther)
    rw [named] at otherDecl
    cases Module.decl_unique nodup otherDecl (Module.mem_decls_of_register isReg)
    exact notReset isOther
  have isBlind : circuit.Blind mod expr := by
    rcases outcome.exists_connect isStmt with ⟨before, isBefore, turned⟩ | ⟨inst, _, same⟩
    · rw [addMetaReset_of_ne lowForm isBody outcome isBefore others] at turned
      cases turned
      exact blind_of_mem lowForm executed names isBody outcome isBefore
        (List.mem_cons_of_mem _ (List.mem_singleton_self _))
    · cases same
      exact absurd (congrArg List.length drives) (by simp [Expr.signal])
  have follows := (obeys.2 _ isStmt).1 reg isReg drives.symm
  rw [(next_eq lowForm executed names isBody outcome nodup agree isReg).2.2 expr isBlind]
  exact ⟨unforced, (follows.2 (unforced env')).symm⟩

/-- All connects of a register lead to one value. -/
theorem exists_next (obeys : mod'.Obeys env env') {reg : Register} (isReg : reg ∈ mod'.registers) :
    ∃ value, ∀ loc expr, .connect loc expr ∈ mod'.stmts → loc.signal = [reg.name] →
      reg.next low expr = value := by
  by_cases isReset : reg ∈ mod.resetRegs
  · obtain ⟨tpe, driver, _, only⟩ := outcome.exists_driver nodup lowForm isBody isReset
    have turned : ∀ loc expr, .connect loc expr ∈ mod'.stmts → loc.signal = [reg.name] →
        InstrReset.addMetaReset mod.resetRegs (.connect (.ref reg.name tpe) driver) =
          .connect loc expr := by
      intro loc expr isStmt drives
      rcases outcome.exists_connect isStmt with ⟨before, isBefore, same⟩ | ⟨inst, _, same⟩
      · obtain ⟨rfl, rfl⟩ := only loc before isBefore drives
        exact same
      · cases same
        exact absurd (congrArg List.length drives) (by simp [Expr.signal])
    rcases addMetaReset_cases mod.resetRegs (.connect (.ref reg.name tpe) driver) with
      kept | ⟨_, _, after, _, isAfter⟩
    · refine ⟨reg.next low driver, fun loc expr isStmt drives => ?_⟩
      cases kept.symm.trans (turned loc expr isStmt drives)
      rfl
    · refine ⟨reg.next low after, fun loc expr isStmt drives => ?_⟩
      cases isAfter.symm.trans (turned loc expr isStmt drives)
      rfl
  · refine ⟨env' [reg.name], fun loc expr isStmt drives => ?_⟩
    exact (next_eq_of_not_reset lowForm executed names isBody outcome nodup agree obeys isReg
      isReset isStmt drives).2

/-- The module goes on from the lowered signals. -/
theorem exists_obeys (obeys : mod'.Obeys env env') (range : InRange low "metaReset" (.uint 1))
    (resets : ∀ inst ∈ mod.instances, low [inst.name, "metaReset"] =
      (Expr.doPrim2 .or (uref "metaReset" 1) (uref (inst.name ++ "_halt") 1) [] (.uint 1)).eval
        low) :
    ∃ low', mod'.Obeys low low' := by
  have next : ∀ signal, ∃ value, ∀ reg ∈ mod'.registers, [reg.name] = signal → ∀ loc expr,
      .connect loc expr ∈ mod'.stmts → loc.signal = signal → value = reg.next low expr := by
    intro signal
    by_cases isReg : ∃ reg ∈ mod'.registers, [reg.name] = signal
    · obtain ⟨reg, isReg, rfl⟩ := isReg
      obtain ⟨value, same⟩ :=
        exists_next lowForm executed names isBody outcome nodup agree obeys isReg
      refine ⟨value, ?_⟩
      intro other isOther named loc expr isStmt drives
      have otherDecl := Module.mem_decls_of_register isOther
      rw [List.singleton_inj.mp named] at otherDecl
      cases Module.decl_unique nodup otherDecl (Module.mem_decls_of_register isReg)
      exact (same loc expr isStmt drives).symm
    · exact ⟨0, fun reg isReg' named => absurd ⟨reg, isReg', named⟩ isReg⟩
  choose low' isNext using next
  refine ⟨low', ?_, ?_⟩
  · intro port isPort
    by_cases isReset : port.name = "metaReset"
    · have isMeta : InstrReset.metaResetPort ∈ mod'.ports := by
        rw [outcome.interface.ports]
        exact List.mem_append_left _ (List.mem_append_right _ (by decide))
      have isDecl := Module.mem_decls_of_port isPort
      rw [isReset] at isDecl
      cases Module.decl_unique nodup isDecl (Module.mem_decls_of_port isMeta)
      exact range
    · have same : low [port.name] = env [port.name] :=
        agree _ (not_resetSignal_singleton isReset)
      rw [InRange, same]
      exact obeys.1 port isPort
  · intro stmt isStmt
    have before := obeys.2 stmt isStmt
    have blind : (∀ loc expr, stmt ≠ .connect loc expr) → ∀ expr ∈ stmt.exprs,
        circuit.Blind mod expr := fun noConnect expr isExpr =>
      blind_of_mem lowForm executed names isBody outcome
        (outcome.mem_of_noConnect isStmt noConnect) isExpr
    cases stmt with
    | connect loc expr =>
        constructor
        · intro reg isReg named
          obtain ⟨forced, ⟨init, value⟩, _⟩ :=
            next_eq lowForm executed names isBody outcome nodup agree isReg
          constructor
          · intro isForced
            rw [value, init]
            exact (before.1 reg isReg named).1 (forced.mp isForced)
          · intro _
            rw [named]
            exact isNext loc.signal reg isReg named loc expr isStmt rfl
        · intro noReg
          rcases outcome.exists_connect isStmt with
            ⟨driver, isDriver, turned⟩ | ⟨inst, isInst, same⟩
          · have others : ∀ reg ∈ mod.resetRegs, [reg.name] ≠ loc.signal :=
              fun reg isReg => noReg reg (outcome.mem_registers isReg)
            rw [addMetaReset_of_ne lowForm isBody outcome isDriver others] at turned
            cases turned
            have blind := fun expr isExpr => @blind_of_mem _ _ _ lowForm executed names _ _ isBody
              _ _ outcome _ isDriver expr isExpr
            have place := (blind loc List.mem_cons_self).signal_eq agree
            have taken := (blind expr (List.mem_cons_of_mem _ (List.mem_singleton_self _))).eval_eq
              agree
            rw [place, taken]
            exact before.2 noReg
          · cases same
            exact resets inst isInst
    | defWire name tpe =>
        have value := name_eq outcome nodup agree (Module.mem_decls_of_stmt isStmt rfl)
          Decl.noConfusion
        rw [Stmt.Holds, InRange, value]
        exact before
    | defRegister reg =>
        have value := name_eq outcome nodup agree (Module.mem_decls_of_stmt isStmt rfl)
          Decl.noConfusion
        rw [Stmt.Holds, InRange, value]
        exact before
    | defNode name expr =>
        have value := name_eq outcome nodup agree (Module.mem_decls_of_stmt isStmt rfl)
          Decl.noConfusion
        have taken := (blind (fun _ _ => Stmt.noConfusion) expr (List.mem_singleton_self _)).eval_eq
          agree
        rw [Stmt.Holds, value, taken]
        exact before
    | «attach» exprs =>
        intro first isFirst second isSecond
        have noConnect : ∀ loc expr, Stmt.attach exprs ≠ .connect loc expr :=
          fun _ _ => Stmt.noConfusion
        rw [(blind noConnect first isFirst).signal_eq agree,
          (blind noConnect second isSecond).signal_eq agree]
        exact before first isFirst second isSecond
    | _ => trivial

end Statements

end Difftest.Firrtl
