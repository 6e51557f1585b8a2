import Difftest.Firrtl.CovSum
import Difftest.Firrtl.Outcome

/-!
# The sum of the hierarchy

Each module adds the sums of its instances to its own, one after the other, and hands the
result to the instance around it.  What arrives at the top is the sum of all instances,
each counted once, up to the width of the port.
-/

namespace Difftest.Firrtl

namespace InstrCov

/-- The chain of adders takes the sums of the instances in turn. -/
theorem sum_of_makeSum {env : Env} {port : String} {insts : List Instance} {sum : Expr}
    (equations : ∀ name tpe expr, .connect (.ref name tpe) expr ∈ makeSum port insts sum →
      env [name] = tpe.fit (expr.eval env)) :
    env [port] = (sum.eval env + (insts.map fun inst => env [inst.name, "io_covSum"]).sum) %
      2 ^ covSumSize := by
  induction insts generalizing sum with
  | nil =>
      rw [List.map_nil, List.sum_nil, add_zero]
      exact equations _ _ _ (List.mem_singleton_self _)
  | cons inst insts inductionHypothesis =>
      have wire : env [inst.name ++ "_sum"] =
          (sum.eval env + env [inst.name, "io_covSum"]) % 2 ^ covSumSize := by
        have first := equations (inst.name ++ "_sum") (.uint covSumSize) _
          (List.mem_cons_of_mem _ List.mem_cons_self)
        exact first.trans (Int.emod_emod_of_dvd _ dvd_rfl)
      have rest := @inductionHypothesis (uref (inst.name ++ "_sum") covSumSize)
        fun name tpe expr mem => equations name tpe expr (List.mem_append_right _ mem)
      rw [rest, List.map_cons, List.sum_cons, ← add_assoc]
      calc
        (env [inst.name ++ "_sum"] + _) % 2 ^ covSumSize =
            ((sum.eval env + env [inst.name, "io_covSum"]) % 2 ^ covSumSize + _) %
              2 ^ covSumSize := by rw [wire]
        _ = _ := Int.emod_add_emod _ _ _

/-- The adders drive wires of their own and the port. -/
theorem target_makeSum {port : String} {insts : List Instance} {sum : Expr} {name : String}
    {tpe : Ty} {expr : Expr} (isConnect : .connect (.ref name tpe) expr ∈ makeSum port insts sum) :
    name = port ∨ ∃ tpe, .defWire name tpe ∈ makeSum port insts sum := by
  induction insts generalizing sum with
  | nil =>
      cases List.mem_singleton.mp isConnect
      exact Or.inl rfl
  | cons inst insts inductionHypothesis =>
      rcases List.mem_append.mp isConnect with first | rest
      · right
        have named : name = inst.name ++ "_sum" := by
          simp only [List.mem_cons, reduceCtorEq, Stmt.connect.injEq, List.not_mem_nil, or_false,
            false_or] at first
          exact congrArg (fun loc => loc.serialize) first.1
        rw [named]
        exact ⟨_, List.mem_append_left _ List.mem_cons_self⟩
      · rcases inductionHypothesis rest with isPort | ⟨wire, isWire⟩
        · exact Or.inl isPort
        · exact Or.inr ⟨wire, List.mem_append_right _ isWire⟩

section Added

variable {info : ModuleInfo} {draws : List Nat} {extModules : List String} {mod : Module}
  {added : List Stmt}

/-- A module without a clock or without a state. -/
def Stateless (info : ModuleInfo) (draws : List Nat) (mod : Module) : Prop :=
  clockName mod = none ∨ info.regStateSize draws = 0

theorem makeSum_subset (isAdded : addedStmts info draws extModules mod = some added) :
    makeSum covSumPort.name (info.insts.filter fun inst => inst.module ∉ extModules)
      (uref (covSumName mod) covSumSize) ⊆ added := by
  obtain ⟨offsets, _, chosen⟩ := Option.bind_eq_some_iff.mp isAdded
  split at chosen
  · split at chosen
    · obtain ⟨stConnections, _, rfl⟩ := Option.map_eq_some_iff.mp chosen
      exact List.subset_append_right _ _
    · cases chosen
      exact List.subset_append_right _ _
  · cases chosen
    exact List.subset_append_right _ _

theorem added_of_stateless (isAdded : addedStmts info draws extModules mod = some added)
    (stateless : Stateless info draws mod) :
    added = zeroStmts mod.name (info.insts.filter fun inst => inst.module ∉ extModules) := by
  obtain ⟨offsets, _, chosen⟩ := Option.bind_eq_some_iff.mp isAdded
  split at chosen
  · rename_i clock clocked
    rcases stateless with noClock | noState
    · rw [clocked] at noClock
      cases noClock
    · rw [if_neg (not_not.mpr noState)] at chosen
      exact (Option.some.inj chosen).symm
  · exact (Option.some.inj chosen).symm

end Added

end InstrCov

open InstrCov RegCoverage

/-! ## One instance -/

namespace Outcome

variable {choices : Choices} {extModules : List String} {mod result : Module} {info : ModuleInfo}
  {added : List Stmt} {env env' : Env}

/-- The port has the sum of the module and of its instances. -/
theorem covSum_eq (outcome : Outcome choices extModules mod result info added)
    (names : (result.decls.map Prod.fst).Nodup) (obeys : result.Obeys env env') :
    env ["io_covSum"] = (env [covSumName mod] +
      ((mod.instances.dedup.filter fun inst => inst.module ∉ extModules).map
        fun inst => env [inst.name, "io_covSum"]).sum) % 2 ^ covSumSize := by
  have subset := makeSum_subset outcome.isAdded
  rw [(Module.info_eq outcome.isInfo).2.1] at subset
  have inside : ∀ {stmt}, stmt ∈ makeSum covSumPort.name
      (mod.instances.dedup.filter fun inst => inst.module ∉ extModules)
      (uref (covSumName mod) covSumSize) →
        stmt ∈ mod.stmts ++ added ++ InstrAssert.addedStmts mod.instances.dedup mod :=
    fun isStmt => List.mem_append_left _ (List.mem_append_right _ (subset isStmt))
  apply @sum_of_makeSum env covSumPort.name _ (uref (covSumName mod) covSumSize)
  intro name tpe expr isConnect
  apply outcome.connect_eq names obeys _ (inside isConnect)
  rcases target_makeSum isConnect with rfl | ⟨wire, isWire⟩
  · exact outcome.combinational_of_port List.mem_cons_self
  · exact outcome.combinational_of_wire (inside isWire)

/-- The sum of a module without a clock or a state is zero. -/
theorem covSum_eq_zero (outcome : Outcome choices extModules mod result info added)
    (names : (result.decls.map Prod.fst).Nodup) (obeys : result.Obeys env env')
    (stateless : Stateless info (choices.draws mod.name) mod) : env [covSumName mod] = 0 := by
  have subset : zeroStmts mod.name (info.insts.filter fun inst => inst.module ∉ extModules) ⊆
      mod.stmts ++ added ++ InstrAssert.addedStmts mod.instances.dedup mod := by
    rw [← added_of_stateless outcome.isAdded stateless]
    exact List.Subset.trans (List.subset_append_right _ _) (List.subset_append_left _ _)
  have isWire := subset (List.mem_append_left _ List.mem_cons_self)
  have isConnect := subset (List.mem_append_left _ (List.mem_cons_of_mem _ List.mem_cons_self))
  exact outcome.connect_eq names obeys (outcome.combinational_of_wire isWire) isConnect

end Outcome

/-! ## All instances -/

/-- The sum of the instance at a path in one cycle. -/
def Circuit.covSum (circuit : Circuit) (env : List String → Env) (path : List String) : Int :=
  match circuit.moduleAt path with
  | some mod => env path [covSumName mod]
  | none => 0

section Circuit

variable {choices : Choices} {circuit result : Circuit} {v : List String → Nat → Env}
  {words : List String → Nat → Words}

/-- The instances of modules with a body are those whose module is not external. -/
theorem Circuit.Linked.subNames_eq (linked : circuit.Linked) {mod : Module}
    (isBody : mod ∈ circuit.bodies) :
    circuit.subNames mod = (mod.instances.dedup.filter fun inst =>
      inst.module ∉ extModules circuit).map Instance.name := by
  have unique := linked.instances mod isBody
  rw [Circuit.subNames, List.filter_map, List.Nodup.dedup (List.Nodup.of_map _ unique)]
  congr 1
  apply List.filter_congr
  intro inst isInst
  obtain ⟨target, isTarget, named⟩ := linked.found mod isBody inst isInst
  rw [Function.comp_apply, Circuit.sub?_eq unique isInst, Bool.eq_iff_iff, decide_eq_true_iff]
  cases target with
  | internal sub =>
      have found : circuit.body? inst.module = some sub :=
        (Circuit.body?_eq_some_iff linked.modules).mpr ⟨mem_bodies_iff.mpr isTarget, named⟩
      rw [found]
      constructor
      · intro _ isExternal
        obtain ⟨other, isOther, same⟩ := List.mem_map.mp isExternal
        obtain ⟨isModule, external⟩ := List.mem_filter.mp isOther
        rw [linked.target_unique isModule isTarget (same.trans named.symm)] at external
        cases external
      · exact fun _ => rfl
  | external name ports =>
      have isExternal : inst.module ∈ extModules circuit :=
        List.mem_map.mpr ⟨_, List.mem_filter.mpr ⟨isTarget, rfl⟩, named⟩
      constructor
      · intro isSome
        obtain ⟨sub, found⟩ := Option.isSome_iff_exists.mp isSome
        obtain ⟨isSub, subNamed⟩ := Circuit.mem_bodies_of_body? found
        cases linked.target_unique (mem_bodies_iff.mp isSub) isTarget (subNamed.trans named.symm)
      · exact fun notExternal => absurd isExternal notExternal

/-- The port of an instance has its sum and the sums of the instances it contains. -/
theorem io_covSum_eq (linked : circuit.Linked) (executed : execute choices circuit = some result)
    (runs : result.Runs v words) {path : List String} {mod : Module}
    (isModule : circuit.moduleAt path = some mod) (t : Nat) :
    v path t ["io_covSum"] = (circuit.covSum (fun path => v path t) path +
      ((circuit.subNames mod).map fun name => v (path ++ [name]) t ["io_covSum"]).sum) %
        2 ^ covSumSize := by
  obtain ⟨mod', info, added, outcome, _, names, obeys⟩ := linked.exists_run executed runs isModule
  have own : circuit.covSum (fun path => v path t) path = v path t [covSumName mod] := by
    rw [Circuit.covSum, isModule]
  have ports : ∀ name ∈ circuit.subNames mod,
      v path t [name, "io_covSum"] = v (path ++ [name]) t ["io_covSum"] := by
    intro name isName
    obtain ⟨sub, found⟩ := Circuit.mem_subNames_iff.mp isName
    exact linked.port_eq executed runs isModule found List.mem_cons_self t
  rw [outcome.covSum_eq names (obeys t), own,
    List.map_congr_left (fun name isName => (ports name isName).symm),
    linked.subNames_eq (Circuit.mem_bodies_of_moduleAt isModule), List.map_map]
  rfl

/-- The sum of the top is the sum over all instances of modules with a body, each counted
once; an instance of a module without a clock or a state counts nothing. -/
theorem covSum_of_hierarchy (linked : circuit.Linked) (acyclic : circuit.Acyclic)
    (executed : execute choices circuit = some result) (runs : result.Runs v words)
    (isTop : (circuit.moduleAt []).isSome) (t : Nat) :
    (∃ paths : Finset (List String),
      (∀ path, path ∈ paths ↔ (circuit.moduleAt path).isSome) ∧
        v [] t ["io_covSum"] =
          (∑ path ∈ paths, circuit.covSum (fun path => v path t) path) % 2 ^ covSumSize) ∧
      ∀ path mod info, circuit.moduleAt path = some mod →
        mod.info (choices.vecRegs mod.name) = some info →
          Stateless info (choices.draws mod.name) mod →
            circuit.covSum (fun path => v path t) path = 0 := by
  constructor
  · obtain ⟨top, isTop⟩ := Option.isSome_iff_exists.mp isTop
    obtain ⟨paths, inside, sum⟩ := acyclic.exists_sum linked.instances
      (fun path mod isModule => io_covSum_eq linked executed runs isModule t) isTop
    refine ⟨paths, ?_, sum⟩
    intro path
    rw [inside path]
    exact and_iff_right List.nil_prefix
  · intro path mod info isModule isInfo stateless
    obtain ⟨mod', info', added, outcome, _, names, obeys⟩ :=
      linked.exists_run executed runs isModule
    have same : info' = info := Option.some.inj (outcome.isInfo.symm.trans isInfo)
    rw [Circuit.covSum, isModule]
    exact outcome.covSum_eq_zero names (obeys t) (same ▸ stateless)

end Circuit

/-! ## Two latches -/

/-- Two latches one after the other. -/
def latchPair : Module where
  name := "Top"
  ports := latch.ports
  body :=
    [.stmt (.defInstance ⟨"a", "Latch"⟩), .stmt (.defInstance ⟨"b", "Latch"⟩),
      .stmt (.connect (instPort "a" "clock") (.ref "clock" .clock)),
      .stmt (.connect (instPort "b" "clock") (.ref "clock" .clock)),
      .stmt (.connect (instPort "a" "in") (uref "in" 1)),
      .stmt (.connect (instPort "b" "in") (instPort "a" "out")),
      .stmt (.connect (uref "out" 1) (instPort "b" "out"))]

def twoLatches : Circuit where
  modules := [.internal latch, .internal latchPair]
  main := "Top"

/-- The signals of two latches that have counted 5 and 7 states, without a clock. -/
def stillEnv (path : List String) : Env := fun signal =>
  (List.lookup signal
    (if path = [] then
      [(["a", "io_covSum"], 5), (["b", "io_covSum"], 7), (["a_sum"], 5), (["b_sum"], 12),
        (["io_covSum"], 12)]
    else
      [(["Latch_covSum"], if path = ["a"] then 5 else 7),
        (["io_covSum"], if path = ["a"] then 5 else 7), (["Latch_cov", "read", "en"], 1),
        (["Latch_cov", "write", "en"], 1), (["Latch_cov", "write", "mask"], 1),
        (["Latch_cov", "write", "data"], 1)])).getD 0

theorem linked_twoLatches : twoLatches.Linked := by
  constructor <;> decide

/-- A memory without an edge of the clock holds its words. -/
theorem still_memory (path : List String) :
    (defMemory "Latch_cov" 2).Holds (fun _ => stillEnv path) (fun _ _ _ => 0) := by
  have zero : ∀ signal, signal ∈ [["Latch_cov", "read", "data"], ["Latch_cov", "write", "clk"]] →
      stillEnv path signal = 0 := by
    intro signal isSignal
    rw [stillEnv]
    split
    · rcases List.mem_pair.mp isSignal with rfl | rfl <;> rfl
    · rcases List.mem_pair.mp isSignal with rfl | rfl <;> rfl
  constructor
  · intro port isPort t s _ _ addr _ _
    obtain rfl : port = (defMemory "Latch_cov" 2).readPort "read" := List.mem_singleton.mp isPort
    exact zero _ List.mem_cons_self
  · intro t addr _
    right
    refine ⟨?_, rfl⟩
    intro port isPort word
    obtain rfl : port = (defMemory "Latch_cov" 2).writePort "write" := List.mem_singleton.mp isPort
    rintro ⟨ticks, _⟩
    have noTick := zero _ (List.mem_cons_of_mem _ (List.mem_singleton_self _))
    exact absurd (noTick ▸ ticks : (0 : Int) % 2 = 1) (by decide)

theorem sub?_latchPair {name : String} {sub : Module}
    (found : twoLatches.sub? latchPair name = some sub) :
    (name, sub) ∈ [("a", latch), ("b", latch)] := by
  obtain ⟨inst, isInst, rfl, isSub⟩ := Circuit.exists_instance_of_sub? found
  have instances : latchPair.instances = [⟨"a", "Latch"⟩, ⟨"b", "Latch"⟩] := rfl
  rw [instances] at isInst
  rcases List.mem_pair.mp isInst with rfl | rfl
  · cases isSub
    exact List.mem_cons_self
  · cases isSub
    exact List.mem_cons_of_mem _ (List.mem_singleton_self _)

/-- The two latches run without a clock. -/
theorem twoLatches_runs {result : Circuit} (executed : execute noChoices twoLatches = some result) :
    result.Runs (fun path _ => stillEnv path) (fun _ _ _ _ => 0) := by
  have pair : ∀ mod' ∈ instrument noChoices (extModules twoLatches) latchPair,
      mod'.Obeys (stillEnv []) (stillEnv []) ∧ mod'.memories = [] := by decide
  have leaf : ∀ leaf ∈ [("a", latch), ("b", latch)],
      ∀ mod' ∈ instrument noChoices (extModules twoLatches) leaf.2,
        mod'.Obeys (stillEnv [leaf.1]) (stillEnv [leaf.1]) ∧
          mod'.memories = [defMemory "Latch_cov" 2] ∧
          ∀ port ∈ mod'.ports, stillEnv [] [leaf.1, port.name] = stillEnv [leaf.1] [port.name] := by
    decide
  apply linked_twoLatches.runs_of_leaves executed rfl (fun _ _ => sub?_latchPair)
  · decide
  · decide
  · intro mod' instrumented
    obtain ⟨obeys, none⟩ := pair mod' instrumented
    exact ⟨fun _ => obeys, none ▸ List.forall_mem_nil _⟩
  · intro entry isLeaf mod' instrumented
    obtain ⟨obeys, one, ports⟩ := leaf entry isLeaf mod' instrumented
    refine ⟨⟨fun _ => obeys, ?_⟩, fun port isPort _ => ports port isPort⟩
    rw [one, List.forall_mem_singleton]
    exact still_memory [entry.1]

/-- The sums of the two latches arrive at the top. -/
theorem covSum_of_twoLatches :
    twoLatches.Linked ∧ twoLatches.Acyclic ∧ ∃ result,
      execute noChoices twoLatches = some result ∧
        result.Runs (fun path _ => stillEnv path) (fun _ _ _ _ => 0) ∧
          (∃ paths : Finset (List String),
            (∀ path, path ∈ paths ↔ (twoLatches.moduleAt path).isSome) ∧
              (12 : Int) = (∑ path ∈ paths, twoLatches.covSum stillEnv path) % 2 ^ covSumSize) ∧
            ∀ path mod info, twoLatches.moduleAt path = some mod → mod.info [] = some info →
              Stateless info [] mod → twoLatches.covSum stillEnv path = 0 := by
  have acyclic : twoLatches.Acyclic := by
    apply Circuit.acyclic_of_rank fun mod => mod.instances.length
    decide
  have executes : (execute noChoices twoLatches).isSome = true := by rfl
  obtain ⟨result, executed⟩ := Option.isSome_iff_exists.mp executes
  have runs := twoLatches_runs executed
  exact ⟨linked_twoLatches, acyclic, result, executed, runs,
    covSum_of_hierarchy linked_twoLatches acyclic executed runs rfl 0⟩

end Difftest.Firrtl
