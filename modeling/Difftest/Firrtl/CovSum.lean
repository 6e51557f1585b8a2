import Difftest.Data.Visited
import Difftest.Firrtl.InstrCov
import Difftest.Firrtl.Semantics

/-!
# The coverage sum counts the states

In every run of an instrumented module the coverage memory has a one for each state that
was there at an edge of the clock, and the sum is the number of ones.  Both are updated
from the memory of the same cycle: the word read at the state says whether the state is
new, and at the edge that word is written.
-/

namespace Difftest.Firrtl

open Difftest

/-- The largest state has `maxStateSize` bits. -/
theorem getRegState_le (draws : List Nat) (elems : List Elem) :
    (getRegState draws elems).1 ≤ maxStateSize := by
  rw [getRegState]
  split
  · exact Nat.zero_le _
  · split
    · assumption
    · exact le_rfl

namespace InstrCov

/-- `regStateName`. -/
def regStateName (mod : Module) : String := mod.name ++ "_state"

/-- `covMapName`. -/
def covMapName (mod : Module) : String := mod.name ++ "_cov"

/-- `covSumName`. -/
def covSumName (mod : Module) : String := mod.name ++ "_covSum"

/-- The declarations and connects of the state, the memory and the sum. -/
def coverStmts (mod : Module) (clock : String) (size : Nat) : List Stmt :=
  [.defRegister (defRegister (regStateName mod) ("Register tracking " ++ mod.name ++ " state")
      clock size),
    .defMemory (defMemory (covMapName mod) (covMapSize size)),
    .defRegister (defRegister (covSumName mod) "Sum of coverage map" clock covSumSize)] ++
    (readConnect (covMapName mod) (regStateName mod) (covSumName mod) clock size ++
      writeConnect (covMapName mod) (regStateName mod) clock size)

section Added

variable {info : ModuleInfo} {draws : List Nat} {extModules : List String} {mod result : Module}
  {added : List Stmt} {clock : String}

/-- A module with a clock and a state gets the state, the memory and the sum, and a connect
of the state. -/
theorem coverStmts_added (isAdded : addedStmts info draws extModules mod = some added)
    (clocked : clockName mod = some clock) (tracked : info.regStateSize draws ≠ 0) :
    coverStmts mod clock (info.regStateSize draws) ⊆ added ∧
      ∃ top, .connect (uref (regStateName mod) (info.regStateSize draws)) top ∈ added := by
  obtain ⟨offsets, _, chosen⟩ := Option.bind_eq_some_iff.mp isAdded
  simp only [clocked, if_pos tracked] at chosen
  obtain ⟨stConnections, connected, rfl⟩ := Option.map_eq_some_iff.mp chosen
  constructor
  · intro stmt mem
    rcases List.mem_append.mp mem with declared | connected
    · simp only [List.append_assoc]
      exact List.mem_append_left _ declared
    · rcases List.mem_append.mp connected with read | write
      · exact List.mem_append_left _ (List.mem_append_left _ (List.mem_append_right _ read))
      · exact List.mem_append_left _ (List.mem_append_right _ write)
  · obtain ⟨offset, _, made⟩ := Option.bind_eq_some_iff.mp connected
    obtain ⟨⟨top, xorStmts⟩, _, rfl⟩ := Option.map_eq_some_iff.mp made
    refine ⟨top, ?_⟩
    apply List.mem_append_left
    apply List.mem_append_left
    apply List.mem_append_left
    apply List.mem_append_right
    exact List.mem_append_right _ (List.mem_singleton_self _)

theorem coverStmts_subset (instrumented : instrument info draws extModules mod = some result)
    (clocked : clockName mod = some clock) (tracked : info.regStateSize draws ≠ 0) :
    coverStmts mod clock (info.regStateSize draws) ⊆ result.stmts := by
  obtain ⟨added, isAdded, stmts⟩ := stmts_instrument instrumented
  rw [stmts]
  exact List.Subset.trans (coverStmts_added isAdded clocked tracked).1
    (List.subset_append_right _ _)

end Added

/-! ## One cycle -/

/-- The update of the sum. -/
def sumUpdate (mod : Module) : Expr :=
  .mux (memField (covMapName mod) "read" "data" (.uint 1)) (uref (covSumName mod) covSumSize)
    (.doPrim2 .add (uref (covSumName mod) covSumSize) (.uintLiteral 1 1) [] (.uint covSumSize))
    .unknown

/-- What the added statements say of a run. -/
structure Wired (mod : Module) (clock : String) (size : Nat) (v : Nat → Env)
    (words : Nat → Words) : Prop where
  state : ∀ t, InRange (v t) (regStateName mod) (.uint size)
  memory : (defMemory (covMapName mod) (covMapSize size)).Holds v words
  sum : ∀ t, (defRegister (covSumName mod) "Sum of coverage map" clock covSumSize).Follows (v t)
    (v (t + 1)) (sumUpdate mod)
  sumRange : ∀ t, InRange (v t) (covSumName mod) (.uint covSumSize)
  readAddr : ∀ t, v t [covMapName mod, "read", "addr"] = v t [regStateName mod]
  readEn : ∀ t, v t [covMapName mod, "read", "en"] = 1
  writeAddr : ∀ t, v t [covMapName mod, "write", "addr"] = v t [regStateName mod]
  writeMask : ∀ t, v t [covMapName mod, "write", "mask"] = 1
  writeEn : ∀ t, v t [covMapName mod, "write", "en"] = 1
  writeClk : ∀ t, v t [covMapName mod, "write", "clk"] = v t [clock] % 2
  writeData : ∀ t, v t [covMapName mod, "write", "data"] = 1

/-- A connected field of a memory has the value of the expression. -/
theorem memField_eq {regs : List Register} {env env' : Env} {mem port field : String} {tpe : Ty}
    {expr : Expr} (holds : (Stmt.connect (memField mem port field tpe) expr).Holds regs env env') :
    env [mem, port, field] = tpe.fit (expr.eval env) :=
  holds.2 fun _ _ same => by simp [memField, Expr.signal] at same

/-- A register of the instrumentation has no reset. -/
theorem not_forced_defRegister {name info clock : String} {width : Nat} (env : Env) :
    ¬ (defRegister name info clock width).Forced env := by
  rintro ⟨async, _⟩
  cases async

theorem next_defRegister {name info clock : String} {width : Nat} (env : Env) (expr : Expr) :
    (defRegister name info clock width).next env expr =
      if Ticks env (.ref clock .clock) then expr.eval env % 2 ^ width else env [name] := by
  rw [Register.next]
  by_cases tick : Ticks env (.ref clock .clock)
  · rw [if_pos tick]
    apply (if_neg (not_or.mpr ⟨not_forced_defRegister env, not_not.mpr tick⟩)).trans
    exact if_neg fun reset => reset rfl
  · rw [if_neg tick]
    exact if_pos (Or.inr tick)

theorem eval_sumUpdate (mod : Module) (env : Env) :
    (sumUpdate mod).eval env =
      if env [covMapName mod, "read", "data"] ≠ 0 then env [covSumName mod]
      else (env [covSumName mod] + 1) % 2 ^ covSumSize :=
  rfl

section Cycle

variable {mod result : Module} {clock : String} {size : Nat} {v : Nat → Env}
  {words : Nat → Words}

theorem wired (covers : coverStmts mod clock size ⊆ result.stmts) (runs : result.Runs v words) :
    Wired mod clock size v words := by
  have sumReg : defRegister (covSumName mod) "Sum of coverage map" clock covSumSize ∈
      result.registers := by
    rw [Module.registers, List.mem_filterMap]
    exact ⟨.defRegister _, covers (by simp [coverStmts]), rfl⟩
  have covMem : defMemory (covMapName mod) (covMapSize size) ∈ result.memories := by
    rw [Module.memories, List.mem_filterMap]
    exact ⟨.defMemory _, covers (by simp [coverStmts]), rfl⟩
  have holds : ∀ t, ∀ stmt ∈ coverStmts mod clock size,
      stmt.Holds result.registers (v t) (v (t + 1)) :=
    fun t stmt mem => (runs.step t).2 stmt (covers mem)
  simp only [coverStmts, readConnect, writeConnect, List.forall_mem_append,
    List.forall_mem_cons, forall_and] at holds
  rcases holds with
    ⟨⟨state, _, sumRange, _⟩, ⟨readAddr, readEn, _, sum, _⟩,
      writeAddr, writeMask, writeEn, writeClk, writeData, _⟩
  constructor
  · exact state
  · exact runs.memory _ covMem
  · intro t
    exact (sum t).1 _ sumReg rfl
  · exact sumRange
  · intro t
    exact (memField_eq (readAddr t)).trans (state t)
  · intro t
    exact memField_eq (readEn t)
  · intro t
    exact (memField_eq (writeAddr t)).trans (state t)
  · intro t
    exact memField_eq (writeMask t)
  · intro t
    exact memField_eq (writeEn t)
  · intro t
    exact memField_eq (writeClk t)
  · intro t
    exact memField_eq (writeData t)

namespace Wired

theorem state_bounds (wires : Wired mod clock size v words) (t : Nat) :
    0 ≤ v t [regStateName mod] ∧ v t [regStateName mod] < 2 ^ size := by
  have positive : (0 : Int) < 2 ^ size := by positivity
  rw [← wires.state t]
  exact ⟨Int.emod_nonneg _ positive.ne', Int.emod_lt_of_pos _ positive⟩

theorem toNat_lt (wires : Wired mod clock size v words) (t : Nat) :
    (v t [regStateName mod]).toNat < 2 ^ size := by
  have bounds := wires.state_bounds t
  rw [Int.toNat_lt bounds.1]
  exact_mod_cast bounds.2

theorem toNat_state (wires : Wired mod clock size v words) (t : Nat) :
    ((v t [regStateName mod]).toNat : Int) = v t [regStateName mod] :=
  Int.toNat_of_nonneg (wires.state_bounds t).1

/-- The word at the state is read in the same cycle. -/
theorem readData (wires : Wired mod clock size v words) (sized : size ≠ 0) (t : Nat) :
    v t [covMapName mod, "read", "data"] =
      words t (covMapName mod) (v t [regStateName mod]).toNat := by
  have reads := wires.memory.1 ((defMemory (covMapName mod) (covMapSize size)).readPort "read")
    (by simp [Memory.readPorts, defMemory])
  have enabled : ((defMemory (covMapName mod) (covMapSize size)).readPort "read").Enabled
      (v t) := by
    constructor
    · intro signal mem
      rw [List.mem_singleton.mp mem]
      exact (wires.readEn t).trans_ne one_ne_zero
    · intro signal mem
      cases mem
  refine reads t t rfl enabled _ ?_ ((wires.readAddr t).trans (wires.toNat_state t).symm)
  rw [defMemory, covMapSize, if_neg sized]
  exact wires.toNat_lt t

/-- The port writes a one at the state. -/
theorem writes_iff (wires : Wired mod clock size v words) {t addr : Nat} {word : Int} :
    (defMemory (covMapName mod) (covMapSize size)).Writes v t addr word
        ((defMemory (covMapName mod) (covMapSize size)).writePort "write") ↔
      Ticks (v t) (.ref clock .clock) ∧ v t [regStateName mod] = (addr : Int) ∧ word = 1 := by
  have ticks : ((defMemory (covMapName mod) (covMapSize size)).writePort "write").Ticks (v t) ↔
      Ticks (v t) (.ref clock .clock) := by
    change v t [covMapName mod, "write", "clk"] % 2 = 1 ↔ v t [clock] % 2 = 1
    rw [wires.writeClk, Int.emod_emod_of_dvd _ (dvd_refl 2)]
  have data : Ty.fit (.uint 1) (v t [covMapName mod, "write", "data"]) = 1 := by
    rw [wires.writeData]
    rfl
  constructor
  · rintro ⟨tick, s, rfl, _, addrEq, wordEq⟩
    exact ⟨ticks.mp tick, (wires.writeAddr s).symm.trans addrEq, wordEq.trans data⟩
  · rintro ⟨tick, addrEq, wordEq⟩
    refine ⟨ticks.mpr tick, t, rfl, ?_, (wires.writeAddr t).trans addrEq, wordEq.trans data.symm⟩
    constructor
    · intro signal mem
      rcases List.mem_pair.mp mem with rfl | rfl
      · exact (wires.writeEn t).trans_ne one_ne_zero
      · exact (wires.writeMask t).trans_ne one_ne_zero
    · intro signal mem
      cases mem

/-- At an edge the word at the state becomes a one; no other word changes. -/
theorem words_succ (wires : Wired mod clock size v words) (sized : size ≠ 0) (t : Nat)
    {addr : Nat} (inside : addr < 2 ^ size) :
    words (t + 1) (covMapName mod) addr =
      if Ticks (v t) (.ref clock .clock) ∧ v t [regStateName mod] = (addr : Int) then 1
      else words t (covMapName mod) addr := by
  have ports : (defMemory (covMapName mod) (covMapSize size)).writePorts =
      [(defMemory (covMapName mod) (covMapSize size)).writePort "write"] :=
    rfl
  have depth : addr < (defMemory (covMapName mod) (covMapSize size)).depth := by
    rw [defMemory, covMapSize, if_neg sized]
    exact inside
  rcases wires.memory.2 t addr depth with ⟨port, isPort, writes⟩ | ⟨noWrite, same⟩
  · rw [ports, List.mem_singleton] at isPort
    obtain ⟨tick, atState, one⟩ := wires.writes_iff.mp (isPort ▸ writes)
    rw [if_pos ⟨tick, atState⟩]
    exact one
  · rw [if_neg]
    · exact same
    · rintro ⟨tick, atState⟩
      exact noWrite _ (ports ▸ List.mem_singleton_self _) 1
        (wires.writes_iff.mpr ⟨tick, atState, rfl⟩)

/-- At an edge the sum goes up by one unless the word read is a one. -/
theorem sum_succ (wires : Wired mod clock size v words) (t : Nat) :
    v (t + 1) [covSumName mod] =
      if Ticks (v t) (.ref clock .clock) then
        (if v t [covMapName mod, "read", "data"] ≠ 0 then v t [covSumName mod]
          else (v t [covSumName mod] + 1) % 2 ^ covSumSize) % 2 ^ covSumSize
      else v t [covSumName mod] := by
  rw [← eval_sumUpdate]
  exact ((wires.sum t).2 (not_forced_defRegister _)).trans (next_defRegister _ _)

end Wired

end Cycle

/-! ## Runs -/

/-- Places of the memory that hold a one. -/
def ones (mod : Module) (size : Nat) (words : Words) : Finset Nat :=
  (Finset.range (covMapSize size)).filter fun addr => words (covMapName mod) addr = 1

/-- The states seen at an edge before a cycle. -/
def statesSeen (mod : Module) (clock : String) (v : Nat → Env) (t : Nat) : Finset Int :=
  visited (fun s => v s [regStateName mod]) (fun s => Ticks (v s) (.ref clock .clock)) t

section Run

variable {mod : Module} {clock : String} {size : Nat} {v : Nat → Env} {words : Nat → Words}

namespace Wired

theorem word_eq (wires : Wired mod clock size v words) (sized : size ≠ 0)
    (cleared : ∀ addr, words 0 (covMapName mod) addr = 0) (t : Nat) {addr : Nat}
    (inside : addr < 2 ^ size) :
    words t (covMapName mod) addr = 0 ∨ words t (covMapName mod) addr = 1 := by
  induction t with
  | zero => exact Or.inl (cleared addr)
  | succ t ih =>
      rw [wires.words_succ sized t inside]
      split
      · exact Or.inr rfl
      · exact ih

/-- The state has a one in the memory. -/
def Marked (mod : Module) (size : Nat) (words : Words) (state : Int) : Prop :=
  ∃ addr : Nat, addr < 2 ^ size ∧ state = (addr : Int) ∧ words (covMapName mod) addr = 1

/-- The word read says whether the state has a one. -/
theorem marked_iff_readData (wires : Wired mod clock size v words) (sized : size ≠ 0) (t : Nat) :
    Marked mod size (words t) (v t [regStateName mod]) ↔
      v t [covMapName mod, "read", "data"] = 1 := by
  rw [wires.readData sized]
  constructor
  · rintro ⟨addr, _, same, one⟩
    rw [same]
    exact one
  · intro one
    exact ⟨_, wires.toNat_lt t, (wires.toNat_state t).symm, one⟩

theorem marked_succ_of_hold (wires : Wired mod clock size v words) (sized : size ≠ 0) {t : Nat}
    (noTick : ¬ Ticks (v t) (.ref clock .clock)) (state : Int) :
    Marked mod size (words (t + 1)) state ↔ Marked mod size (words t) state := by
  apply exists_congr
  intro addr
  apply and_congr_right
  intro inside
  rw [wires.words_succ sized t inside, if_neg fun both => noTick both.1]

theorem marked_succ_of_tick (wires : Wired mod clock size v words) (sized : size ≠ 0) {t : Nat}
    (tick : Ticks (v t) (.ref clock .clock)) (state : Int) :
    Marked mod size (words (t + 1)) state ↔
      state = v t [regStateName mod] ∨ Marked mod size (words t) state := by
  constructor
  · rintro ⟨addr, inside, rfl, one⟩
    rw [wires.words_succ sized t inside] at one
    split at one
    · rename_i both
      exact Or.inl both.2.symm
    · exact Or.inr ⟨addr, inside, rfl, one⟩
  · rintro (rfl | ⟨addr, inside, rfl, one⟩)
    · refine ⟨_, wires.toNat_lt t, (wires.toNat_state t).symm, ?_⟩
      rw [wires.words_succ sized t (wires.toNat_lt t),
        if_pos ⟨tick, (wires.toNat_state t).symm⟩]
    · refine ⟨addr, inside, rfl, ?_⟩
      rw [wires.words_succ sized t inside, one]
      exact ite_self 1

/-- The memory marks the states and the sum counts them. -/
theorem marking (wires : Wired mod clock size v words) (sized : size ≠ 0)
    (cleared : ∀ addr, words 0 (covMapName mod) addr = 0) (zero : v 0 [covSumName mod] = 0) :
    Marking (fun s => v s [regStateName mod]) (fun s => Ticks (v s) (.ref clock .clock))
      (fun t => Marked mod size (words t)) (fun t => v t [covSumName mod])
      (2 ^ covSumSize) where
  noMark := by
    rintro state ⟨addr, _, _, one⟩
    rw [cleared] at one
    exact zero_ne_one one
  zero := zero
  hold := by
    intro t noTick
    constructor
    · exact wires.marked_succ_of_hold sized noTick
    · exact (wires.sum_succ t).trans (if_neg noTick)
  mark := by
    intro t tick state
    exact wires.marked_succ_of_tick sized tick state
  again := by
    intro t tick marked
    have one := (wires.marked_iff_readData sized t).mp marked
    rw [wires.sum_succ, if_pos tick, if_pos (one.trans_ne one_ne_zero)]
    exact wires.sumRange t
  first := by
    intro t tick unmarked
    have notOne := mt (wires.marked_iff_readData sized t).mpr unmarked
    have isZero : v t [covMapName mod, "read", "data"] = 0 := by
      rw [wires.readData sized] at notOne ⊢
      exact (wires.word_eq sized cleared t (wires.toNat_lt t)).resolve_right notOne
    rw [wires.sum_succ, if_pos tick, if_neg (not_not.mpr isZero), Int.emod_emod_of_dvd _ dvd_rfl]

/-- The ones of the memory are at the states seen. -/
theorem image_ones (wires : Wired mod clock size v words) (sized : size ≠ 0)
    (cleared : ∀ addr, words 0 (covMapName mod) addr = 0) (zero : v 0 [covSumName mod] = 0)
    (t : Nat) :
    (ones mod size (words t)).image (fun addr : Nat => (addr : Int)) =
      statesSeen mod clock v t := by
  ext state
  rw [statesSeen, ← (wires.marking sized cleared zero).marked_iff, ones, covMapSize, if_neg sized]
  simp only [Finset.mem_image, Finset.mem_filter, Finset.mem_range, Marked, and_assoc]
  apply exists_congr
  intro addr
  rw [@eq_comm _ state]
  tauto

theorem card_ones (wires : Wired mod clock size v words) (sized : size ≠ 0)
    (cleared : ∀ addr, words 0 (covMapName mod) addr = 0) (zero : v 0 [covSumName mod] = 0)
    (t : Nat) :
    (ones mod size (words t)).card = (statesSeen mod clock v t).card := by
  rw [← wires.image_ones sized cleared zero t]
  exact (Finset.card_image_of_injective _ Int.ofNat_injective).symm

theorem card_statesSeen_le (wires : Wired mod clock size v words) (sized : size ≠ 0)
    (cleared : ∀ addr, words 0 (covMapName mod) addr = 0) (zero : v 0 [covSumName mod] = 0)
    (t : Nat) :
    (statesSeen mod clock v t).card ≤ covMapSize size := by
  rw [← wires.card_ones sized cleared zero t]
  calc
    (ones mod size (words t)).card ≤ (Finset.range (covMapSize size)).card :=
      Finset.card_filter_le _ _
    _ = covMapSize size := Finset.card_range _

/-- The sum is the number of states seen. -/
theorem sum_eq (wires : Wired mod clock size v words) (sized : size ≠ 0)
    (small : size ≤ maxStateSize)
    (cleared : ∀ addr, words 0 (covMapName mod) addr = 0) (zero : v 0 [covSumName mod] = 0)
    (t : Nat) :
    v t [covSumName mod] = ((statesSeen mod clock v t).card : Int) := by
  apply (wires.marking sized cleared zero).count_eq
  intro s
  have bound := wires.card_statesSeen_le sized cleared zero s
  rw [covMapSize, if_neg sized] at bound
  have places : (2 : Nat) ^ size ≤ 2 ^ maxStateSize := Nat.pow_le_pow_right two_pos small
  have fits : (2 : Nat) ^ maxStateSize < 2 ^ covSumSize :=
    Nat.pow_lt_pow_right one_lt_two (by decide)
  exact_mod_cast (bound.trans places).trans_lt fits

end Wired

end Run

end InstrCov

open InstrCov

variable {info : ModuleInfo} {draws : List Nat} {extModules : List String} {mod result : Module}
  {clock : String} {v : Nat → Env} {words : Nat → Words}

/-- In every run of an instrumented module that starts with an empty memory and a sum of
zero, the sum is the number of ones in the memory and the number of states seen. -/
theorem covSum_counts_states
    (instrumented : instrument info draws extModules mod = some result)
    (clocked : clockName mod = some clock) (tracked : info.regStateSize draws ≠ 0)
    (runs : result.Runs v words) (cleared : ∀ addr, words 0 (covMapName mod) addr = 0)
    (zero : v 0 [covSumName mod] = 0) (t : Nat) :
    v t [covSumName mod] = ((ones mod (info.regStateSize draws) (words t)).card : Int) ∧
      (ones mod (info.regStateSize draws) (words t)).card = (statesSeen mod clock v t).card ∧
      v t [covSumName mod] ≤ v (t + 1) [covSumName mod] ∧
      v (t + 1) [covSumName mod] ≤ v t [covSumName mod] + 1 ∧
      v t [covSumName mod] ≤ (covMapSize (info.regStateSize draws) : Int) := by
  have wires := wired (coverStmts_subset instrumented clocked tracked) runs
  have sum := wires.sum_eq tracked (getRegState_le draws info.elements) cleared zero
  have ones := wires.card_ones tracked cleared zero t
  have step : (statesSeen mod clock v t).card ≤ (statesSeen mod clock v (t + 1)).card ∧
      (statesSeen mod clock v (t + 1)).card ≤ (statesSeen mod clock v t).card + 1 :=
    card_visited_succ t
  have bound := wires.card_statesSeen_le tracked cleared zero t
  rw [sum t, sum (t + 1), ones]
  exact ⟨rfl, rfl, Int.ofNat_le.mpr step.1, by exact_mod_cast step.2, Int.ofNat_le.mpr bound⟩

/-! ## A run -/

/-- The register of `latch`. -/
def flag : Register where
  info := []
  name := "flag"
  tpe := .uint 1
  clock := .ref "clock" .clock
  reset := .uintLiteral 0 1
  init := uref "flag" 1

/-- A bit that is kept for one cycle and selects the output. -/
def latch : Module where
  name := "Latch"
  ports := [⟨"clock", .input, .clock⟩, ⟨"in", .input, .uint 1⟩, ⟨"out", .output, .uint 1⟩]
  body :=
    [.stmt (.defRegister flag),
      .stmt (.connect (uref "out" 1) (.mux (uref "flag" 1) (uref "in" 1) (uref "flag" 1) (.uint 1))),
      .stmt (.connect (uref "flag" 1) (uref "in" 1))]

/-- What the graph reports on `latch`. -/
def latchInfo : ModuleInfo where
  ctrlRegs := [flag]
  muxSrcs := [(⟨uref "flag" 1, uref "in" 1, uref "flag" 1, .uint 1⟩, ["flag"])]
  insts := []
  regs := [flag]
  vecRegs := []
  dirInRegs := [flag]

/-- `latch` with the statements added to it. -/
def latchResult : Module where
  name := "Latch"
  ports := latch.ports ++ [covSumPort]
  body :=
    latch.body ++
      ((stateStmts "Latch" "clock" [(.register flag, 0)] 1 []).getD []).map Tree.stmt

/-- Signals of `latch` in four cycles; the last of them repeats. -/
def latchEnv (p : Nat) : Env := fun signal =>
  (List.lookup signal
    [(["clock"], 1), (["in"], 1), (["flag"], if p = 0 then 0 else 1),
      (["out"], if p = 0 then 0 else 1), (["flag_shl"], if p = 0 then 0 else 1),
      (["flag_pad"], if p = 0 then 0 else 1), (["Latch_state"], if p ≤ 1 then 0 else 1),
      (["Latch_cov", "read", "addr"], if p ≤ 1 then 0 else 1), (["Latch_cov", "read", "en"], 1),
      (["Latch_cov", "read", "clk"], 1), (["Latch_cov", "read", "data"], p % 2),
      (["Latch_cov", "write", "addr"], if p ≤ 1 then 0 else 1), (["Latch_cov", "write", "en"], 1),
      (["Latch_cov", "write", "clk"], 1), (["Latch_cov", "write", "mask"], 1),
      (["Latch_cov", "write", "data"], 1), (["Latch_covSum"], (p + 1) / 2),
      (["io_covSum"], (p + 1) / 2)]).getD 0

/-- The memory in four cycles: both states are marked in the end. -/
def latchWords (p : Nat) : Words := fun _ addr => if p ≤ 2 * addr then 0 else 1

/-- The last of the four cycles repeats. -/
theorem of_phases {motive : Nat → Nat → Prop} (phases : ∀ p < 4, motive p (min (p + 1) 3))
    (t : Nat) : motive (min t 3) (min (t + 1) 3) := by
  have next : min (t + 1) 3 = min (min t 3 + 1) 3 := by omega
  rw [next]
  exact phases _ (by omega)

/-- The memory of the latch holds its words when each of four cycles does. -/
theorem latch_memory {env : Nat → Env} {words : Nat → Words}
    (reads : ∀ p < 4, ∀ addr : Nat, addr < 2 → env p ["Latch_cov", "read", "addr"] = (addr : Int) →
      env p ["Latch_cov", "read", "data"] = words p "Latch_cov" addr)
    (written : ∀ p < 4, ∀ addr : Nat, addr < 2 →
      if env p ["Latch_cov", "write", "addr"] = (addr : Int) then
        words (min (p + 1) 3) "Latch_cov" addr = 1
      else words (min (p + 1) 3) "Latch_cov" addr = words p "Latch_cov" addr)
    (enabled : ∀ p < 4, env p ["Latch_cov", "write", "clk"] % 2 = 1 ∧
      (∀ signal ∈ [["Latch_cov", "write", "en"], ["Latch_cov", "write", "mask"]],
        env p signal ≠ 0) ∧
      env p ["Latch_cov", "write", "data"] = 1) :
    (defMemory "Latch_cov" 2).Holds (fun t => env (min t 3)) (fun t => words (min t 3)) := by
  constructor
  · intro port isPort t s same _ addr inside atAddr
    obtain rfl : port = (defMemory "Latch_cov" 2).readPort "read" := List.mem_singleton.mp isPort
    obtain rfl : s = t := same
    exact reads _ (by omega) addr inside atAddr
  · intro t addr inside
    have phase := @of_phases
      (fun p p' => if env p ["Latch_cov", "write", "addr"] = (addr : Int)
      then words p' "Latch_cov" addr = 1
      else words p' "Latch_cov" addr = words p "Latch_cov" addr)
      (fun p small => written p small addr inside) t
    have drives := enabled (min t 3) (by omega)
    split at phase
    · rename_i atAddr
      left
      refine ⟨(defMemory "Latch_cov" 2).writePort "write", List.mem_singleton_self _, drives.1, t,
        rfl, ⟨drives.2.1, fun _ none => absurd none List.not_mem_nil⟩, atAddr, ?_⟩
      exact phase.trans (congrArg (Ty.fit (.uint 1)) drives.2.2).symm
    · rename_i elsewhere
      right
      constructor
      · intro port isPort word
        obtain rfl : port = (defMemory "Latch_cov" 2).writePort "write" :=
          List.mem_singleton.mp isPort
        rintro ⟨_, s, same, _, atAddr, _⟩
        obtain rfl : s = t := same
        exact elsewhere atAddr
      · exact phase

theorem latch_runs :
    latchResult.Runs (fun t => latchEnv (min t 3)) (fun t => latchWords (min t 3)) := by
  constructor
  · intro t
    have phases : ∀ p < 4, latchResult.Obeys (latchEnv p) (latchEnv (min (p + 1) 3)) := by
      decide
    exact @of_phases (fun p p' => latchResult.Obeys (latchEnv p) (latchEnv p')) phases t
  · have memories : latchResult.memories = [defMemory "Latch_cov" 2] := by rfl
    intro mem isMem
    rw [memories, List.mem_singleton] at isMem
    rw [isMem]
    exact latch_memory (by decide) (by decide) (by decide)

/-- The latch is 0 in two cycles and then 1, so the sum ends at 2. -/
theorem covSum_counts_latch :
    latch.info [] = some latchInfo ∧
      instrument latchInfo [] [] latch = some latchResult ∧
      latchResult.Runs (fun t => latchEnv (min t 3)) (fun t => latchWords (min t 3)) ∧
      latchEnv 3 ["Latch_covSum"] = 2 ∧
      ((2 : Int) = (ones latch 1 (latchWords 3)).card ∧
        (ones latch 1 (latchWords 3)).card =
          (statesSeen latch "clock" (fun t => latchEnv (min t 3)) 3).card ∧
        (2 : Int) ≤ 2 ∧ (2 : Int) ≤ 2 + 1 ∧ (2 : Int) ≤ (covMapSize 1 : Int)) := by
  have tracked : latchInfo.regStateSize [] ≠ 0 := by decide
  have instrumented : instrument latchInfo [] [] latch = some latchResult := by
    have added : addedStmts latchInfo [] [] latch =
        some ((stateStmts "Latch" "clock" [(.register flag, 0)] 1 []).getD []) := by
      rfl
    rw [instrument, added]
    rfl
  have cleared : ∀ addr, latchWords 0 (covMapName latch) addr = 0 :=
    fun addr => if_pos (Nat.zero_le _)
  refine ⟨by rfl, instrumented, latch_runs, by rfl, ?_⟩
  exact covSum_counts_states instrumented (by rfl) tracked latch_runs cleared
    (by rfl) 3

end Difftest.Firrtl
