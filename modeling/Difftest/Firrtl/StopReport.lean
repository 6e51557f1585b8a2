import Difftest.Firrtl.CovSum
import Difftest.Firrtl.Outcome

/-!
# Stops are reported at the top

A module reports that one of its stops is enabled or that one of its instances reports.
A module with a clock and a reset keeps the report in a register, so it arrives one cycle
later and stays.  At the top a report arrives after as many cycles as there are such
registers on the way.
-/

namespace Difftest.Firrtl

/-! ## Bits -/

/-- The bit that the report takes from an expression is one. -/
def Raised (env : Env) (expr : Expr) : Prop := (Ty.uint 1).fit (expr.eval env) = 1

instance (env : Env) (expr : Expr) : Decidable (Raised env expr) :=
  inferInstanceAs (Decidable (_ = _))

theorem lowBits_or_iff (first second : Int) :
    (((lowBits 1 first ||| lowBits 1 second : Nat) : Int) % 2 = 1) ↔
      first % 2 = 1 ∨ second % 2 = 1 := by
  rcases Int.emod_two_eq_zero_or_one first with isFirst | isFirst <;>
    rcases Int.emod_two_eq_zero_or_one second with isSecond | isSecond <;>
      simp [lowBits, isFirst, isSecond]

theorem raised_or_iff {env : Env} (first second : Expr) :
    Raised env (.doPrim2 .or first second [] (.uint 1)) ↔
      Raised env first ∨ Raised env second := by
  have twice : ∀ value : Int, value % 2 ^ 1 % 2 ^ 1 = value % 2 :=
    fun value => Int.emod_emod_of_dvd _ dvd_rfl
  rw [Raised, Expr.eval, Ty.fit, Ty.fit, twice]
  exact lowBits_or_iff _ _

/-- A signal with the value of an expression passes its bit on. -/
theorem raised_ref_iff {env env' : Env} {name : String} {tpe : Ty} {expr : Expr}
    (value : env' [name] = (Ty.uint 1).fit (expr.eval env)) :
    Raised env' (.ref name tpe) ↔ Raised env expr := by
  have twice : ∀ value : Int, value % 2 ^ 1 % 2 ^ 1 = value % 2 ^ 1 :=
    fun value => Int.emod_emod_of_dvd _ dvd_rfl
  rw [Raised, Raised, Expr.eval, value, Ty.fit, Ty.fit, twice]

/-- The bit of a tree is one when one of its leaves is. -/
theorem GateTree.raised_iff {stem : String} {id : Nat} {exprs : List Expr} {top : Expr}
    {stmts : List Stmt} (tree : GateTree .or stem 1 id exprs top stmts) {env : Env}
    (equations : ∀ name tpe expr, .connect (.ref name tpe) expr ∈ stmts →
      env [name] = tpe.fit (expr.eval env)) :
    Raised env top ↔ ∃ expr ∈ exprs, Raised env expr := by
  induction tree with
  | leaf id expr => simp
  | node _ _ ihLeft ihRight =>
      have left := ihLeft fun name tpe expr mem => equations name tpe expr
        (List.mem_append_left _ (List.mem_append_left _ mem))
      have right := ihRight fun name tpe expr mem => equations name tpe expr
        (List.mem_append_left _ (List.mem_append_right _ mem))
      have wire := equations _ _ _ (List.mem_append_right _
        (List.mem_cons_of_mem _ (List.mem_singleton_self _)))
      rw [uref, raised_ref_iff wire, raised_or_iff, left, right, ← exists_or]
      apply exists_congr
      intro expr
      rw [← or_and_right, List.mem_append]

/-! ## One module -/

namespace InstrAssert

/-- A stop of the module is enabled or an instance reports. -/
def Stopped (mod : Module) (env : Env) : Prop :=
  (∃ en ∈ findStop mod, Raised env en) ∨
    ∃ inst ∈ mod.instances, Raised env (instPort inst.name "metaAssert")

/-- The expressions that the tree of a module joins. -/
def stopRefs (insts : List Instance) (mod : Module) : List Expr :=
  (stopEns mod).map (fun node => Expr.ref node.1 node.2.tpe) ++
    insts.map fun inst => uref (assertWire inst) 1

/-- The tree of a module, unless nothing can stop it. -/
theorem allOr_cases (insts : List Instance) (mod : Module) :
    (stopRefs insts mod = [] ∧ (allOr insts mod).1 = none) ∨
      ∃ top, (allOr insts mod).1 = some top ∧
        GateTree .or (mod.name ++ "_or") 1 0 (stopRefs insts mod) top (allOr insts mod).2 := by
  by_cases empty : stopRefs insts mod = []
  · left
    refine ⟨empty, ?_⟩
    rw [stopRefs] at empty
    rw [allOr, empty]
    rfl
  · right
    obtain ⟨top, stmts, made, tree, _⟩ := @exists_orTree mod.name _ 0 _ empty le_rfl
    have same : allOr insts mod = (some top, stmts) := made
    rw [same]
    exact ⟨top, rfl, tree⟩

end InstrAssert

open InstrAssert RegCoverage

/-- A register without a reset takes the value of its connect at an edge. -/
theorem Register.Follows.eq_of_tick {reg : Register} {env env' : Env} {expr : Expr}
    (follows : reg.Follows env env' expr) (noReset : reg.reset = .uintLiteral 0 1)
    (tick : Ticks env reg.clock) : env' [reg.name] = reg.tpe.fit (expr.eval env) := by
  have notForced : ∀ env, ¬ reg.Forced env := by
    rintro env ⟨isAsync, _⟩
    rw [noReset] at isAsync
    cases isAsync
  have noInit : ¬ reg.reset.eval env ≠ 0 := by
    rw [noReset]
    exact not_not.mpr rfl
  rw [follows.2 (notForced env'), Register.next,
    if_neg (not_or.mpr ⟨notForced env, not_not.mpr tick⟩), if_neg noInit]

namespace Outcome

variable {choices : Choices} {extModules : List String} {mod result : Module} {info : ModuleInfo}
  {added : List Stmt} {env env' : Env}
  (outcome : Outcome choices extModules mod result info added)
  (names : (result.decls.map Prod.fst).Nodup) (obeys : result.Obeys env env')

include outcome names obeys

/-- The tree joins the stops and the reports of the instances. -/
theorem stopped_iff :
    Stopped mod env ↔ ∃ expr ∈ stopRefs mod.instances.dedup mod, Raised env expr := by
  have inside : ∀ {stmt}, stmt ∈ addedStmts mod.instances.dedup mod →
      stmt ∈ mod.stmts ++ added ++ addedStmts mod.instances.dedup mod :=
    fun isStmt => List.mem_append_right _ isStmt
  have stops : (∃ en ∈ findStop mod, Raised env en) ↔
      ∃ expr ∈ (stopEns mod).map (fun node => Expr.ref node.1 node.2.tpe), Raised env expr := by
    have value : ∀ node ∈ stopEns mod,
        (Raised env (.ref node.1 node.2.tpe) ↔ Raised env node.2) := by
      intro node isNode
      have isStmt : Stmt.defNode node.1 node.2 ∈ addedStmts mod.instances.dedup mod := by
        simp only [addedStmts, List.mem_append]
        exact Or.inl (Or.inl (Or.inl (Or.inl (List.mem_map_of_mem isNode))))
      rw [Raised, Raised, Expr.eval, outcome.node_eq obeys (inside isStmt)]
    constructor
    · rintro ⟨en, isStop, raised⟩
      obtain ⟨i, below, isEn⟩ := List.getElem_of_mem isStop
      have isNode : ("stopEn" ++ toString i, en) ∈ stopEns mod := by
        rw [stopEns, List.mem_map]
        refine ⟨(en, i), ?_, rfl⟩
        rw [List.mk_mem_zipIdx_iff_getElem?, List.getElem?_eq_getElem below, isEn]
      exact ⟨_, List.mem_map_of_mem isNode, (value _ isNode).mpr raised⟩
    · rintro ⟨expr, isRef, raised⟩
      obtain ⟨node, isNode, rfl⟩ := List.mem_map.mp isRef
      have both := (value node isNode).mp raised
      obtain ⟨⟨en, i⟩, isStop, rfl⟩ := List.mem_map.mp isNode
      exact ⟨en, List.fst_mem_of_mem_zipIdx isStop, both⟩
  have insts : (∃ inst ∈ mod.instances, Raised env (instPort inst.name "metaAssert")) ↔
      ∃ expr ∈ mod.instances.dedup.map (fun inst => uref (assertWire inst) 1),
        Raised env expr := by
    have value : ∀ inst ∈ mod.instances.dedup, (Raised env (uref (assertWire inst) 1) ↔
        Raised env (instPort inst.name "metaAssert")) := by
      intro inst isInst
      have isWire : Stmt.defWire (assertWire inst) (.uint 1) ∈
          addedStmts mod.instances.dedup mod := by
        simp only [addedStmts, List.mem_append]
        exact Or.inl (Or.inl (Or.inl (Or.inr (List.mem_map.mpr ⟨inst, isInst, rfl⟩))))
      apply raised_ref_iff
      exact outcome.connect_eq names obeys (outcome.combinational_of_wire (inside isWire))
        (inside (instAssertCon_mem isInst mod))
    constructor
    · rintro ⟨inst, isInst, raised⟩
      have isDedup := List.mem_dedup.mpr isInst
      exact ⟨_, List.mem_map.mpr ⟨inst, isDedup, rfl⟩, (value inst isDedup).mpr raised⟩
    · rintro ⟨expr, isRef, raised⟩
      obtain ⟨inst, isInst, rfl⟩ := List.mem_map.mp isRef
      exact ⟨inst, List.mem_dedup.mp isInst, (value inst isInst).mp raised⟩
  rw [Stopped, stops, insts, ← exists_or]
  apply exists_congr
  intro expr
  rw [stopRefs, List.mem_append, or_and_right]

/-- The bit of the tree says whether the module is stopped. -/
theorem raised_top_iff {top : Expr} (isTop : (allOr mod.instances.dedup mod).1 = some top) :
    Raised env top ↔ Stopped mod env := by
  rcases allOr_cases mod.instances.dedup mod with ⟨_, none⟩ | ⟨other, isOther, tree⟩
  · rw [isTop] at none
    cases none
  · rw [isTop] at isOther
    cases isOther
    rw [outcome.stopped_iff names obeys]
    apply tree.raised_iff
    intro name tpe expr isConnect
    have inside : ∀ {stmt}, stmt ∈ (allOr mod.instances.dedup mod).2 →
        stmt ∈ mod.stmts ++ added ++ addedStmts mod.instances.dedup mod := by
      intro stmt isStmt
      apply List.mem_append_right
      rw [addedStmts]
      exact List.mem_append_left _ (List.mem_append_right _ isStmt)
    obtain ⟨wire, isWire⟩ := tree.target isConnect
    exact outcome.connect_eq names obeys (outcome.combinational_of_wire (inside isWire))
      (inside isConnect)

/-- A module without a register reports in the same cycle. -/
theorem metaAssert_iff_of_none (noReg : moduleAssertReg mod.instances.dedup mod = none) :
    Raised env (uref "metaAssert" 1) ↔ Stopped mod env := by
  have port : result.Combinational "metaAssert" := outcome.combinational_of_port
    (List.mem_cons_of_mem _ List.mem_cons_self : assertPort ∈ _)
  have inside : ∀ {stmt}, stmt ∈ conStmts mod.instances.dedup mod →
      stmt ∈ mod.stmts ++ added ++ addedStmts mod.instances.dedup mod :=
    fun isStmt => List.mem_append_right _ (List.mem_append_right _ isStmt)
  rcases allOr_cases mod.instances.dedup mod with ⟨empty, none⟩ | ⟨top, isTop, _⟩
  · have isConnect : Stmt.connect (uref "metaAssert" 1) (.uintLiteral 0 1) ∈
        conStmts mod.instances.dedup mod := by
      rw [conStmts, none]
      exact List.mem_singleton_self _
    rw [uref, raised_ref_iff (outcome.connect_eq names obeys port (inside isConnect)),
      outcome.stopped_iff names obeys, empty]
    simp [Raised, Expr.eval, Ty.fit]
  · have noClock : clockName mod = none := by
      rw [moduleAssertReg, isTop] at noReg
      cases clocked : clockName mod with
      | none => rfl
      | some clock =>
          rw [clocked] at noReg
          cases noReg
    have isConnect : Stmt.connect (uref "metaAssert" 1) top ∈
        conStmts mod.instances.dedup mod := by
      rw [conStmts, isTop, noClock]
      exact List.mem_singleton_self _
    rw [uref, raised_ref_iff (outcome.connect_eq names obeys port (inside isConnect)),
      outcome.raised_top_iff names obeys isTop]

/-- A module with a register reports what the register holds. -/
theorem metaAssert_iff_of_some {reg : Register}
    (isReg : moduleAssertReg mod.instances.dedup mod = some reg) :
    Raised env (uref "metaAssert" 1) ↔ Raised env (uref reg.name 1) := by
  have port : result.Combinational "metaAssert" := outcome.combinational_of_port
    (List.mem_cons_of_mem _ List.mem_cons_self : assertPort ∈ _)
  obtain ⟨clock, clocked, chosen⟩ := Option.bind_eq_some_iff.mp isReg
  obtain ⟨top, isTop, rfl⟩ := Option.map_eq_some_iff.mp chosen
  have isConnect : Stmt.connect (uref "metaAssert" 1) (uref (assertReg mod.name clock).name 1) ∈
      conStmts mod.instances.dedup mod := by
    rw [conStmts, isTop]
    simp only [clocked]
    exact List.mem_cons_of_mem _ (List.mem_cons_of_mem _ (List.mem_singleton_self _))
  rw [uref, raised_ref_iff (outcome.connect_eq names obeys port
    (List.mem_append_right _ (List.mem_append_right _ isConnect)))]

/-- The register of the report joins the report at every edge without a reset. -/
theorem assertReg_succ_iff {reg : Register}
    (isReg : moduleAssertReg mod.instances.dedup mod = some reg) (tick : Ticks env reg.clock)
    (low : env ["metaReset"] = 0) :
    Raised env' (uref reg.name 1) ↔ Raised env (uref reg.name 1) ∨ Stopped mod env := by
  have isReset : reg ∈ mod.resetRegs := by
    rw [Module.resetRegs, isReg]
    exact List.mem_append_right _ (List.mem_singleton_self _)
  obtain ⟨clock, clocked, chosen⟩ := Option.bind_eq_some_iff.mp isReg
  obtain ⟨top, isTop, rfl⟩ := Option.map_eq_some_iff.mp chosen
  have isConnect : Stmt.connect (uref (assertReg mod.name clock).name 1)
      (.doPrim2 .or (uref (assertReg mod.name clock).name 1) top [] (.uint 1)) ∈
        conStmts mod.instances.dedup mod := by
    rw [conStmts, isTop]
    simp only [clocked]
    exact List.mem_cons_of_mem _ List.mem_cons_self
  have follows := outcome.follows names obeys isReset
    (List.mem_append_right _ (List.mem_append_right _ isConnect))
  have next := follows.eq_of_tick rfl tick
  have notReset : ¬ (uref "metaReset" 1).eval env ≠ 0 := not_not.mpr low
  rw [Expr.eval, if_neg notReset, Ty.fit] at next
  rw [← outcome.raised_top_iff names obeys isTop, ← raised_or_iff]
  exact raised_ref_iff next

end Outcome

/-! ## Delays -/

/-- What is raised arrives after a number of cycles and then stays; without a delay it is
there in the same cycle only. -/
def Arrives (delay : Nat) (raised : Nat → Prop) (t : Nat) : Prop :=
  if delay = 0 then raised t else ∃ u, u + delay ≤ t ∧ raised u

theorem arrives_zero {raised : Nat → Prop} {t : Nat} : Arrives 0 raised t ↔ raised t := by
  rw [Arrives, if_pos rfl]

/-- One register more is one cycle more. -/
theorem arrives_succ {delay : Nat} {raised : Nat → Prop} {t : Nat} :
    Arrives (delay + 1) raised t ↔ ∃ s < t, Arrives delay raised s := by
  rw [Arrives, if_neg (Nat.succ_ne_zero delay)]
  cases delay with
  | zero =>
      apply exists_congr
      intro u
      rw [arrives_zero]
      exact Iff.rfl
  | succ delay =>
      simp only [Arrives, if_neg (Nat.succ_ne_zero delay)]
      constructor
      · rintro ⟨u, before, holds⟩
        exact ⟨u + (delay + 1), before, u, le_rfl, holds⟩
      · rintro ⟨s, below, u, before, holds⟩
        exact ⟨u, (Nat.succ_le_succ before).trans below, holds⟩

/-- A bit that joins another bit in every cycle. -/
theorem iff_exists_lt {kept joined : Nat → Prop} (zero : ¬ kept 0)
    (step : ∀ t, kept (t + 1) ↔ kept t ∨ joined t) (t : Nat) :
    kept t ↔ ∃ s < t, joined s := by
  induction t with
  | zero => simpa using zero
  | succ t inductionHypothesis =>
      rw [step, inductionHypothesis]
      constructor
      · rintro (⟨s, below, holds⟩ | holds)
        · exact ⟨s, Nat.lt_succ_of_lt below, holds⟩
        · exact ⟨t, Nat.lt_succ_self t, holds⟩
      · rintro ⟨s, below, holds⟩
        rcases Nat.lt_succ_iff_lt_or_eq.mp below with earlier | rfl
        · exact Or.inl ⟨s, earlier, holds⟩
        · exact Or.inr holds

namespace Circuit

variable (circuit : Circuit)

/-- The module of the instance at a path gets a register for its report. -/
def keepsReport (path : List String) : Bool :=
  (circuit.moduleAt path).any fun mod =>
    (moduleAssertReg mod.instances.dedup mod).isSome

/-- The number of modules with a register on the way to an instance, the instance
included. -/
def reportDelay (path : List String) : Nat := path.inits.countP circuit.keepsReport

/-- The registers on the way from one instance to another inside it. -/
def delayFrom (path rest : List String) : Nat :=
  rest.inits.countP fun first => circuit.keepsReport (path ++ first)

/-- The registers on the way without that of the first instance. -/
def delayAfter (path rest : List String) : Nat :=
  rest.inits.tail.countP fun first => circuit.keepsReport (path ++ first)

variable {circuit}

theorem delayFrom_nil (rest : List String) : circuit.delayFrom [] rest = circuit.reportDelay rest :=
  rfl

theorem delayFrom_eq (path rest : List String) :
    circuit.delayFrom path rest =
      if circuit.keepsReport path then circuit.delayAfter path rest + 1
      else circuit.delayAfter path rest := by
  have split : rest.inits = [] :: rest.inits.tail := by
    cases rest with
    | nil => rfl
    | cons name rest => rw [List.inits_cons, List.tail_cons]
  rw [delayFrom, delayAfter, split, List.countP_cons, List.append_nil, List.tail_cons]
  split
  · rfl
  · rfl

theorem delayAfter_nil (path : List String) : circuit.delayAfter path [] = 0 := rfl

theorem delayAfter_cons (path : List String) (name : String) (rest : List String) :
    circuit.delayAfter path (name :: rest) = circuit.delayFrom (path ++ [name]) rest := by
  rw [delayAfter, List.inits_cons, List.tail_cons, List.countP_map, delayFrom]
  apply List.countP_congr
  intro first _
  rw [Function.comp_apply, List.append_assoc, List.singleton_append]

/-- No instance is reset or halted, the registers of the reports start at zero and have an
edge in every cycle. -/
structure Watching (circuit : Circuit) (v : List String → Nat → Env) : Prop where
  reset : ∀ t, v [] t ["metaReset"] = 0
  halts : ∀ {path mod}, circuit.moduleAt path = some mod → ∀ inst ∈ mod.instances, ∀ t,
    v path t [inst.name ++ "_halt"] = 0
  ticks : ∀ {path mod reg}, circuit.moduleAt path = some mod →
    moduleAssertReg mod.instances.dedup mod = some reg → ∀ t, Ticks (v path t) reg.clock
  zero : ∀ {path mod reg}, circuit.moduleAt path = some mod →
    moduleAssertReg mod.instances.dedup mod = some reg → v path 0 [reg.name] = 0

/-- A stop inside the instance at a path is enabled early enough. -/
def StopArrives (circuit : Circuit) (v : List String → Nat → Env)
    (delay : List String → List String → Nat) (path : List String) (t : Nat) : Prop :=
  ∃ rest mod, circuit.moduleAt (path ++ rest) = some mod ∧ ∃ en ∈ findStop mod,
    Arrives (delay path rest) (fun u => Raised (v (path ++ rest) u) en) t

/-- With one register more a stop arrives a cycle later and stays. -/
theorem stopArrives_succ {v : List String → Nat → Env}
    {delay delay' : List String → List String → Nat} {path : List String}
    (succ : ∀ rest, delay' path rest = delay path rest + 1) (t : Nat) :
    circuit.StopArrives v delay' path t ↔ ∃ s < t, circuit.StopArrives v delay path s := by
  simp only [StopArrives, succ, arrives_succ]
  constructor
  · rintro ⟨rest, mod, isModule, en, isStop, s, below, arrives⟩
    exact ⟨s, below, rest, mod, isModule, en, isStop, arrives⟩
  · rintro ⟨s, below, rest, mod, isModule, en, isStop, arrives⟩
    exact ⟨rest, mod, isModule, en, isStop, s, below, arrives⟩

end Circuit

/-! ## All instances -/

section Report

variable {choices : Choices} {circuit result : Circuit} {v : List String → Nat → Env}
  {words : List String → Nat → Words} (linked : circuit.Linked)
  (executed : execute choices circuit = some result) (runs : result.Runs v words)
  (watching : circuit.Watching v)

include linked executed runs watching

/-- No instance is reset. -/
theorem metaReset_low {path : List String} {mod : Module}
    (isModule : circuit.moduleAt path = some mod) (t : Nat) : v path t ["metaReset"] = 0 := by
  induction path using List.reverseRecOn generalizing mod with
  | nil => exact watching.reset t
  | append_singleton path name inductionHypothesis =>
      rw [Circuit.moduleAt_concat] at isModule
      obtain ⟨outer, isOuter, found⟩ := Option.bind_eq_some_iff.mp isModule
      obtain ⟨inst, isInst, named, _⟩ := Circuit.exists_instance_of_sub? found
      obtain ⟨_, _, _, outcome, _, _, obeys⟩ := linked.exists_run executed runs isOuter
      have port : v path t [name, "metaReset"] = v (path ++ [name]) t ["metaReset"] :=
        linked.port_eq executed runs isOuter found
          (List.mem_cons_of_mem _ (List.mem_cons_of_mem _ (List.mem_singleton_self _))) t
      have value := outcome.metaReset_eq (obeys t) isInst
      have low := inductionHypothesis isOuter
      have halt := watching.halts isOuter inst isInst t
      rw [← port, ← named, value]
      simp [Expr.eval, uref, low, halt, PrimOp.apply2, lowBits, Ty.fit, Ty.bits]

variable (internal : ∀ target ∈ circuit.modules, target.isExternal = false)

include internal

omit watching in
/-- A module is stopped by its own stops and by those that arrive from inside. -/
theorem stopped_iff_arrives {path : List String} {mod : Module}
    (isModule : circuit.moduleAt path = some mod)
    (inside : ∀ name sub, circuit.sub? mod name = some sub → ∀ t,
      Raised (v (path ++ [name]) t) (uref "metaAssert" 1) ↔
        circuit.StopArrives v circuit.delayFrom (path ++ [name]) t) (t : Nat) :
    Stopped mod (v path t) ↔ circuit.StopArrives v circuit.delayAfter path t := by
  have port : ∀ {name sub}, circuit.sub? mod name = some sub →
      (Raised (v path t) (instPort name "metaAssert") ↔
        Raised (v (path ++ [name]) t) (uref "metaAssert" 1)) := by
    intro name sub found
    have same := linked.port_eq executed runs isModule found
      (List.mem_cons_of_mem _ List.mem_cons_self) t
    rw [Raised, Raised, uref, instPort, Expr.eval, Expr.eval]
    exact (congrArg (fun value => (Ty.uint 1).fit value = 1) same).to_iff
  constructor
  · rintro (⟨en, isStop, raised⟩ | ⟨inst, isInst, raised⟩)
    · refine ⟨[], mod, ?_, en, isStop, ?_⟩
      · rw [List.append_nil]
        exact isModule
      · rw [Circuit.delayAfter_nil, arrives_zero, List.append_nil]
        exact raised
    · obtain ⟨sub, found⟩ := linked.exists_sub internal
        (Circuit.mem_bodies_of_moduleAt isModule) isInst
      obtain ⟨rest, mod', isModule', en, isStop, arrives⟩ :=
        (inside inst.name sub found t).mp ((port found).mp raised)
      rw [List.append_assoc, List.singleton_append] at isModule' arrives
      refine ⟨inst.name :: rest, mod', isModule', en, isStop, ?_⟩
      rw [Circuit.delayAfter_cons]
      exact arrives
  · rintro ⟨rest, mod', isModule', en, isStop, arrives⟩
    cases rest with
    | nil =>
        rw [List.append_nil] at isModule' arrives
        rw [Circuit.delayAfter_nil, arrives_zero] at arrives
        have same : mod = mod' := Option.some.inj (isModule.symm.trans isModule')
        exact Or.inl ⟨en, same ▸ isStop, arrives⟩
    | cons name rest =>
        rw [Circuit.delayAfter_cons] at arrives
        rw [List.append_cons path name rest] at isModule'
        have split := List.append_cons path name rest
        simp only [split] at arrives
        have isSub := Circuit.isSome_of_append (Option.isSome_iff_exists.mpr ⟨mod', isModule'⟩)
        obtain ⟨sub, found⟩ := Option.isSome_iff_exists.mp isSub
        rw [Circuit.moduleAt_concat, isModule, Option.bind_some] at found
        obtain ⟨inst, isInst, rfl, _⟩ := Circuit.exists_instance_of_sub? found
        have raised := (inside inst.name sub found t).mpr ⟨rest, mod', isModule', en, isStop, arrives⟩
        exact Or.inr ⟨inst, isInst, (port found).mpr raised⟩

/-- An instance reports the stops that arrive at it. -/
theorem report_iff (acyclic : circuit.Acyclic) {path : List String} {mod : Module}
    (isModule : circuit.moduleAt path = some mod) (t : Nat) :
    Raised (v path t) (uref "metaAssert" 1) ↔
      circuit.StopArrives v circuit.delayFrom path t := by
  revert t
  apply acyclic.induction _ isModule
  intro path mod isModule inductionHypothesis
  obtain ⟨_, _, _, outcome, _, names, obeys⟩ := linked.exists_run executed runs isModule
  have stopped := stopped_iff_arrives linked executed runs internal isModule
    inductionHypothesis
  have keeps : circuit.keepsReport path = (moduleAssertReg mod.instances.dedup mod).isSome := by
    rw [Circuit.keepsReport, isModule, Option.any_some]
  intro t
  cases isReg : moduleAssertReg mod.instances.dedup mod with
  | none =>
      have same : ∀ rest, circuit.delayFrom path rest = circuit.delayAfter path rest := by
        intro rest
        rw [Circuit.delayFrom_eq, keeps, isReg]
        rfl
      rw [outcome.metaAssert_iff_of_none names (obeys t) isReg, stopped]
      simp only [Circuit.StopArrives, same]
  | some reg =>
      have succ : ∀ rest, circuit.delayFrom path rest = circuit.delayAfter path rest + 1 := by
        intro rest
        rw [Circuit.delayFrom_eq, keeps, isReg]
        rfl
      have zero : ¬ Raised (v path 0) (uref reg.name 1) := by
        rw [Raised, uref, Expr.eval, watching.zero isModule isReg]
        exact zero_ne_one
      have kept := @iff_exists_lt (fun s => Raised (v path s) (uref reg.name 1))
        (fun s => Stopped mod (v path s)) zero (fun s => outcome.assertReg_succ_iff names (obeys s) isReg
        (watching.ticks isModule isReg s)
        (metaReset_low linked executed runs watching isModule s)) t
      rw [outcome.metaAssert_iff_of_some names (obeys t) isReg, kept,
        Circuit.stopArrives_succ succ]
      simp only [stopped]

/-- The top reports exactly the stops that were enabled as many cycles ago as there are
registers on the way, and without a register those of the same cycle; a register at the top
keeps the report. -/
theorem metaAssert_iff (acyclic : circuit.Acyclic) (isTop : (circuit.moduleAt []).isSome)
    (t : Nat) :
    (v [] t ["metaAssert"] = 1 ↔ ∃ path mod, circuit.moduleAt path = some mod ∧
      ∃ en ∈ findStop mod,
        Arrives (circuit.reportDelay path) (fun u => Raised (v path u) en) t) ∧
      (circuit.keepsReport [] = true → v [] t ["metaAssert"] = 1 →
        ∀ s, t ≤ s → v [] s ["metaAssert"] = 1) := by
  obtain ⟨top, isTop⟩ := Option.isSome_iff_exists.mp isTop
  obtain ⟨top', _, _, outcome, _, _, obeys⟩ := linked.exists_run executed runs isTop
  have bit : ∀ s, v [] s ["metaAssert"] = 1 ↔ Raised (v [] s) (uref "metaAssert" 1) := by
    intro s
    have isPort : assertPort ∈ top'.ports := by
      rw [outcome.interface.ports]
      apply List.mem_append_left
      exact List.mem_append_right _ (List.mem_cons_of_mem _ List.mem_cons_self)
    have range := (obeys s).1 assertPort isPort
    rw [Raised, uref, Expr.eval]
    exact (congrArg (fun value => value = 1) range).to_iff.symm
  have report : ∀ s, v [] s ["metaAssert"] = 1 ↔
      circuit.StopArrives v circuit.delayFrom [] s := by
    intro s
    rw [bit]
    exact report_iff linked executed runs watching internal acyclic isTop s
  constructor
  · exact report t
  · intro keeps one s later
    have succ : ∀ rest, circuit.delayFrom [] rest = circuit.delayAfter [] rest + 1 := by
      intro rest
      rw [Circuit.delayFrom_eq, if_pos keeps]
    rw [report, Circuit.stopArrives_succ succ] at one ⊢
    obtain ⟨u, below, arrives⟩ := one
    exact ⟨u, below.trans_le later, arrives⟩

end Report

/-! ## A stop inside an instance -/

/-- A module that stops while its input is high. -/
def stopper : Module where
  name := "Leaf"
  ports := [clockPort, ⟨"reset", .input, .uint 1⟩, ⟨"en", .input, .uint 1⟩]
  body := [.stmt (.stop 0 (.ref "clock" .clock) (uref "en" 1))]

/-- A module around one that stops. -/
def stopWrapper : Module where
  name := "Top"
  ports := stopper.ports
  body :=
    [.stmt (.defInstance ⟨"inner", "Leaf"⟩),
      .stmt (.connect (instPort "inner" "clock") (.ref "clock" .clock)),
      .stmt (.connect (instPort "inner" "reset") (uref "reset" 1)),
      .stmt (.connect (instPort "inner" "en") (uref "en" 1))]

def stopCircuit : Circuit where
  modules := [.internal stopper, .internal stopWrapper]
  main := "Top"

/-- Signals while the input is high.  The report passes one register in each cycle, unless
the inner instance is halted. -/
def stopEnv (halt : Int) (path : List String) (p : Nat) : Env := fun signal =>
  (List.lookup signal
    (if path = [] then
      [(["clock"], 1), (["en"], 1), (["inner", "clock"], 1), (["inner", "en"], 1),
        (["inner", "metaAssert"], if p = 0 then 0 else 1 - halt),
        (["inner_metaAssert_wire"], if p = 0 then 0 else 1 - halt),
        (["Top_metaAssert"], if p ≤ 1 then 0 else 1 - halt),
        (["metaAssert"], if p ≤ 1 then 0 else 1 - halt), (["inner_halt"], halt),
        (["inner", "metaReset"], halt)]
    else
      [(["clock"], 1), (["en"], 1), (["stopEn0"], 1),
        (["Leaf_metaAssert"], if p = 0 then 0 else 1 - halt),
        (["metaAssert"], if p = 0 then 0 else 1 - halt), (["metaReset"], halt)])).getD 0

theorem linked_stopCircuit : stopCircuit.Linked := by
  constructor <;> decide

theorem acyclic_stopCircuit : stopCircuit.Acyclic := by
  apply Circuit.acyclic_of_rank fun mod => mod.instances.length
  decide

theorem sub?_stopWrapper {name : String} {sub : Module}
    (found : stopCircuit.sub? stopWrapper name = some sub) : (name, sub) ∈ [("inner", stopper)] := by
  obtain ⟨inst, isInst, rfl, isSub⟩ := Circuit.exists_instance_of_sub? found
  have instances : stopWrapper.instances = [⟨"inner", "Leaf"⟩] := rfl
  rw [instances] at isInst
  cases List.mem_singleton.mp isInst
  cases isSub
  exact List.mem_singleton_self _

theorem moduleAt_stopCircuit {path : List String} {mod : Module}
    (isModule : stopCircuit.moduleAt path = some mod) :
    (path = [] ∧ mod = stopWrapper) ∨ (path = ["inner"] ∧ mod = stopper) := by
  rcases Circuit.moduleAt_cases rfl (fun _ _ => sub?_stopWrapper) (by decide) isModule with
    top | ⟨leaf, isLeaf, rfl, rfl⟩
  · exact Or.inl top
  · cases List.mem_singleton.mp isLeaf
    exact Or.inr ⟨rfl, rfl⟩

theorem stopCircuit_runs {result : Circuit}
    (executed : execute noChoices stopCircuit = some result) {halt : Int} (bit : halt ∈ [0, 1]) :
    result.Runs (fun path t => stopEnv halt path (min t 3)) (fun _ _ _ _ => 0) := by
  have pair : ∀ halt ∈ ([0, 1] : List Int),
      ∀ mod' ∈ instrument noChoices (extModules stopCircuit) stopWrapper,
      (∀ p < 4, mod'.Obeys (stopEnv halt [] p) (stopEnv halt [] (min (p + 1) 3))) ∧
        mod'.memories = [] := by decide
  have leaf : ∀ halt ∈ ([0, 1] : List Int),
      ∀ mod' ∈ instrument noChoices (extModules stopCircuit) stopper,
      (∀ p < 4, mod'.Obeys (stopEnv halt ["inner"] p) (stopEnv halt ["inner"] (min (p + 1) 3))) ∧
        mod'.memories = [] ∧ ∀ port ∈ mod'.ports, ∀ p < 4,
          stopEnv halt [] p ["inner", port.name] = stopEnv halt ["inner"] p [port.name] := by
    decide
  apply linked_stopCircuit.runs_of_leaves executed rfl (fun _ _ => sub?_stopWrapper)
  · decide
  · decide
  · intro mod' instrumented
    obtain ⟨phases, none⟩ := pair halt bit mod' instrumented
    exact ⟨fun t => @of_phases (fun p p' => mod'.Obeys (stopEnv halt [] p) (stopEnv halt [] p'))
      phases t, none ▸ List.forall_mem_nil _⟩
  · intro entry isLeaf mod' instrumented
    cases List.mem_singleton.mp isLeaf
    obtain ⟨phases, none, ports⟩ := leaf halt bit mod' instrumented
    refine ⟨⟨fun t => @of_phases
      (fun p p' => mod'.Obeys (stopEnv halt ["inner"] p) (stopEnv halt ["inner"] p')) phases t,
      none ▸ List.forall_mem_nil _⟩, fun port isPort t => ?_⟩
    exact ports port isPort (min t 3) (by omega)

/-- The registers of both reports have the clock of the circuit and start at zero. -/
theorem stopCircuit_reg (halt : Int) {path : List String} {mod : Module} {reg : Register}
    (isModule : stopCircuit.moduleAt path = some mod)
    (isReg : moduleAssertReg mod.instances.dedup mod = some reg) (t : Nat) :
    Ticks (stopEnv halt path (min t 3)) reg.clock ∧ stopEnv halt path 0 [reg.name] = 0 := by
  rcases moduleAt_stopCircuit isModule with ⟨rfl, rfl⟩ | ⟨rfl, rfl⟩
  · have known : moduleAssertReg stopWrapper.instances.dedup stopWrapper =
        some (assertReg "Top" "clock") := by rfl
    cases known.symm.trans isReg
    exact ⟨rfl, rfl⟩
  · have known : moduleAssertReg stopper.instances.dedup stopper =
        some (assertReg "Leaf" "clock") := by rfl
    cases known.symm.trans isReg
    exact ⟨rfl, rfl⟩

/-- The stop of the inner instance arrives at the top after two cycles. -/
theorem metaAssert_iff_of_stopCircuit :
    stopCircuit.Linked ∧ stopCircuit.Acyclic ∧ stopCircuit.reportDelay ["inner"] = 2 ∧
      ∃ result, execute noChoices stopCircuit = some result ∧
        result.Runs (fun path t => stopEnv 0 path (min t 3)) (fun _ _ _ _ => 0) ∧
        stopCircuit.Watching (fun path t => stopEnv 0 path (min t 3)) ∧
        ((1 : Int) = 1 ↔ ∃ path mod, stopCircuit.moduleAt path = some mod ∧
          ∃ en ∈ findStop mod, Arrives (stopCircuit.reportDelay path)
            (fun u => Raised (stopEnv 0 path (min u 3)) en) 2) ∧
          (stopCircuit.keepsReport [] = true → (1 : Int) = 1 →
            ∀ s, 2 ≤ s → stopEnv 0 [] (min s 3) ["metaAssert"] = 1) := by
  have executes : (execute noChoices stopCircuit).isSome = true := by rfl
  obtain ⟨result, executed⟩ := Option.isSome_iff_exists.mp executes
  have runs := stopCircuit_runs executed (List.mem_cons_self : (0 : Int) ∈ [0, 1])
  have watching : stopCircuit.Watching (fun path t => stopEnv 0 path (min t 3)) := by
    constructor
    · exact fun _ => rfl
    · intro path mod isModule inst isInst t
      rcases moduleAt_stopCircuit isModule with ⟨rfl, rfl⟩ | ⟨rfl, rfl⟩
      · cases List.mem_singleton.mp isInst
        rfl
      · cases isInst
    · exact fun isModule isReg t => (stopCircuit_reg 0 isModule isReg t).1
    · exact fun isModule isReg => (stopCircuit_reg 0 isModule isReg 0).2
  refine ⟨linked_stopCircuit, acyclic_stopCircuit, by rfl, result, executed, runs,
    watching, ?_⟩
  exact metaAssert_iff linked_stopCircuit executed runs watching (by decide)
    acyclic_stopCircuit rfl 2

/-- A halted instance loses its report although the reset of the top is low. -/
theorem not_metaAssert_iff_halted :
    stopCircuit.Linked ∧ stopCircuit.Acyclic ∧
      (∀ target ∈ stopCircuit.modules, target.isExternal = false) ∧
      ∃ result, execute noChoices stopCircuit = some result ∧
        result.Runs (fun path t => stopEnv 1 path (min t 3)) (fun _ _ _ _ => 0) ∧
        (∀ t, stopEnv 1 [] (min t 3) ["metaReset"] = 0) ∧
        (∀ path mod reg, stopCircuit.moduleAt path = some mod →
          moduleAssertReg mod.instances.dedup mod = some reg →
            ∀ t, Ticks (stopEnv 1 path (min t 3)) reg.clock ∧ stopEnv 1 path 0 [reg.name] = 0) ∧
        ¬ (stopEnv 1 [] (min 2 3) ["metaAssert"] = 1 ↔
          ∃ path mod, stopCircuit.moduleAt path = some mod ∧
            ∃ en ∈ findStop mod, Arrives (stopCircuit.reportDelay path)
              (fun u => Raised (stopEnv 1 path (min u 3)) en) 2) := by
  have executes : (execute noChoices stopCircuit).isSome = true := by rfl
  obtain ⟨result, executed⟩ := Option.isSome_iff_exists.mp executes
  have runs := stopCircuit_runs executed
    (List.mem_cons_of_mem _ (List.mem_singleton_self _) : (1 : Int) ∈ [0, 1])
  refine ⟨linked_stopCircuit, acyclic_stopCircuit, by decide, result, executed, runs,
    fun _ => rfl, fun _ _ _ isModule isReg t => stopCircuit_reg 1 isModule isReg t, ?_⟩
  intro same
  have delay : stopCircuit.reportDelay ["inner"] = 2 := by rfl
  have arrives : Arrives (stopCircuit.reportDelay ["inner"])
      (fun u => Raised (stopEnv 1 ["inner"] (min u 3)) (uref "en" 1)) 2 := by
    rw [delay]
    exact ⟨0, le_rfl, rfl⟩
  have one := same.mpr ⟨["inner"], stopper, rfl, uref "en" 1, List.mem_singleton_self _, arrives⟩
  exact zero_ne_one one

end Difftest.Firrtl
