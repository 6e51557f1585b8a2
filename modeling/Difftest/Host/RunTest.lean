import Difftest.Host.Lookups
import Difftest.TileLink.Stop
import Difftest.TileLink.Touched

/-!
# The verdict of a simulation

`run_test` loads the program, waits until `tohost` is seen or the cycles are used up, and reads
its verdict off what is left: the keys of the memory, the loop variable and `metaAssert`.  The
keys of the memory are not only those that the core accessed, and the loop variable does not say
how the loop ended.
-/

namespace Difftest.Host

open Difftest.Text Difftest.Signature

/-! ## The verdict -/

/-- `SUCCESS`, `ASSERTION_FAIL`, `TIME_OUT` and `ILL_MEM`. -/
inductive Verdict where
  | success
  | assertionFail
  | timeOut
  | illMem
deriving DecidableEq, Repr

/-- The exceptions of a simulation: one of the setup, the loop variable of a loop without turns,
and a word of the signature that the memory does not have. -/
inductive Aborted where
  | setup (raised : Raised)
  | unbound
  | keyError
deriving DecidableEq, Repr

/-- What the run of the core leaves to the host: the word at `tohost_addr` at each cycle, the
memory after `adapter.stop`, `metaAssert`, and the value of `io_covSum` with its width. -/
structure Simulation where
  tohost : Nat → Nat
  memory : Dict Nat Nat
  metaAssert : Bool
  covSum : Nat
  covSumWidth : Nat

/-- `get_covsum`. -/
def getCovsum (simulation : Simulation) : Nat :=
  simulation.covSum &&& (1 <<< simulation.covSumWidth - 1)

/-- The addresses that `set_bootrom` returns. -/
def bootromAddrs : List Nat := (List.range 8).map fun k => 0x10000 + 8 * k

/-- A key that fails the check of the memory. -/
def Flagged (addr : Nat) : Prop := addr ∉ bootromAddrs ∧ addr < dramBase

instance (addr : Nat) : Decidable (Flagged addr) := inferInstanceAs (Decidable (_ ∧ _))

/-- `mem_check`. -/
def memCheck (memory : Dict Nat Nat) : Bool := memory.keys.all fun addr => !decide (Flagged addr)

/-- `tohost` is polled in this cycle and is not zero. -/
def Seen (tohost : Nat → Nat) (i : Nat) : Prop := i % 100 = 0 ∧ tohost i ≠ 0

instance (tohost : Nat → Nat) (i : Nat) : Decidable (Seen tohost i) :=
  inferInstanceAs (Decidable (_ ∧ _))

/-- The loop over the cycles: the value of the loop variable afterwards. -/
def pollLoop (tohost : Nat → Nat) : List Nat → Option Nat → Option Nat
  | [], i => i
  | i :: cycles, _ => if Seen tohost i then some i else pollLoop tohost cycles (some i)

/-- `run_test`, from what the run of the core leaves. -/
def runTest (input : RtlInput) (maxCycles : Nat) (simulation : Simulation) :
    Except Aborted (Verdict × Nat) :=
  match runTestSetup input with
  | .error raised => .error (.setup raised)
  | .ok (_, dataAddrs) =>
      if memCheck simulation.memory = false then .ok (.illMem, getCovsum simulation)
      else
        match pollLoop simulation.tohost (List.range maxCycles) none with
        | none => .error .unbound
        | some i =>
            if (i : Int) = maxCycles - 1 then .ok (.timeOut, getCovsum simulation)
            else if simulation.metaAssert = true then .ok (.assertionFail, getCovsum simulation)
            else
              match saveSignature simulation.memory ((input.symbols "begin_signature").getD 0)
                ((input.symbols "end_signature").getD 0) dataAddrs with
              | none => .error .keyError
              | some _ => .ok (.success, getCovsum simulation)

/-- `run_test` returns this verdict. -/
def Reports (input : RtlInput) (maxCycles : Nat) (simulation : Simulation) (verdict : Verdict) :
    Prop :=
  runTest input maxCycles simulation = .ok (verdict, getCovsum simulation)

theorem Reports.unique {input : RtlInput} {maxCycles : Nat} {simulation : Simulation}
    {first second : Verdict} (reports : Reports input maxCycles simulation first)
    (again : Reports input maxCycles simulation second) : first = second := by
  have same := reports.symm.trans again
  exact (Prod.mk.inj (Except.ok.inj same)).1

/-! ## The loop over the cycles -/

section Loop

variable {tohost : Nat → Nat}

/-- Cycles in which nothing is seen are passed. -/
theorem pollLoop_append {first : List Nat} (unseen : ∀ i ∈ first, ¬ Seen tohost i)
    (rest : List Nat) (i : Option Nat) :
    pollLoop tohost (first ++ rest) i = pollLoop tohost rest (first.getLast?.or i) := by
  induction first generalizing i with
  | nil => rfl
  | cons next first inductionHypothesis =>
      have now := unseen next List.mem_cons_self
      have later := fun i mem => unseen i (List.mem_cons_of_mem next mem)
      rw [List.cons_append, pollLoop, if_neg now, inductionHypothesis later]
      cases first with
      | nil => rfl
      | cons second first => rw [List.getLast?_cons_cons, List.getLast?_cons]; rfl

/-- Without a cycle in which `tohost` is seen, the loop variable ends at the last cycle. -/
theorem pollLoop_unseen {maxCycles : Nat} (positive : 1 ≤ maxCycles)
    (unseen : ∀ i < maxCycles, ¬ Seen tohost i) :
    pollLoop tohost (List.range maxCycles) none = some (maxCycles - 1) := by
  have passed := pollLoop_append (fun i mem => unseen i (List.mem_range.mp mem)) [] none
  rw [List.append_nil, pollLoop, List.getLast?_range, if_neg (by omega)] at passed
  exact passed

/-- The first cycle in which `tohost` is seen. -/
def FirstSeen (tohost : Nat → Nat) (i : Nat) : Prop :=
  Seen tohost i ∧ ∀ j < i, ¬ Seen tohost j

/-- The loop ends at the first cycle in which `tohost` is seen. -/
theorem pollLoop_seen {maxCycles i : Nat} (first : FirstSeen tohost i) (below : i < maxCycles) :
    pollLoop tohost (List.range maxCycles) none = some i := by
  have split : List.range maxCycles =
      List.range i ++ i :: List.range' (i + 1) (maxCycles - i - 1) := by
    have parts : List.range' 0 i ++ List.range' (0 + i) (maxCycles - i - 1 + 1) =
        List.range' 0 (i + (maxCycles - i - 1 + 1)) := List.range'_append_1
    have length : i + (maxCycles - i - 1 + 1) = maxCycles := by omega
    rw [Nat.zero_add, length, List.range'_succ] at parts
    rw [List.range_eq_range', List.range_eq_range', parts]
  rw [split, pollLoop_append (fun j mem => first.2 j (List.mem_range.mp mem)), pollLoop,
    if_pos first.1]

theorem exists_firstSeen {i : Nat} (seen : Seen tohost i) : ∃ j ≤ i, FirstSeen tohost j := by
  have found : ∃ j, Seen tohost j := ⟨i, seen⟩
  exact ⟨Nat.find found, Nat.find_min' found seen, Nat.find_spec found,
    fun j below => Nat.find_min found below⟩

end Loop

/-! ## Timeouts -/

section TimeOut

variable {input : RtlInput} {maxCycles : Nat} {simulation : Simulation} {memory : Dict Nat Nat}
  {dataAddrs : List (Nat × Nat)}

/-- Every word that `save_signature` looks up is in the memory. -/
def SignatureHeld (input : RtlInput) (dataAddrs : List (Nat × Nat)) (memory : Dict Nat Nat) :
    Prop :=
  ∀ addr ∈ recordStarts (((input.symbols "begin_signature").getD 0,
      (input.symbols "end_signature").getD 0) :: dataAddrs),
    addr ∈ memory.keys ∧ addr + 8 ∈ memory.keys

/-- The verdict of a run without flagged keys whose loop ends at a cycle. -/
theorem runTest_eq (isSetup : runTestSetup input = .ok (memory, dataAddrs))
    (legal : memCheck simulation.memory = true) {i : Nat}
    (ends : pollLoop simulation.tohost (List.range maxCycles) none = some i) :
    runTest input maxCycles simulation =
      if (i : Int) = maxCycles - 1 then .ok (.timeOut, getCovsum simulation)
      else if simulation.metaAssert = true then .ok (.assertionFail, getCovsum simulation)
      else
        match saveSignature simulation.memory ((input.symbols "begin_signature").getD 0)
          ((input.symbols "end_signature").getD 0) dataAddrs with
        | none => .error .keyError
        | some _ => .ok (.success, getCovsum simulation) := by
  have notFlagged : ¬ memCheck simulation.memory = false := by rw [legal]; decide
  rw [runTest, isSetup]
  dsimp only
  rw [if_neg notFlagged, ends]

/-- A loop that ends at the last cycle is a timeout. -/
theorem reports_last (positive : 1 ≤ maxCycles)
    (isSetup : runTestSetup input = .ok (memory, dataAddrs))
    (legal : memCheck simulation.memory = true)
    (ends : pollLoop simulation.tohost (List.range maxCycles) none = some (maxCycles - 1)) :
    Reports input maxCycles simulation .timeOut := by
  have last : ((maxCycles - 1 : Nat) : Int) = maxCycles - 1 := by omega
  rw [Reports, runTest_eq isSetup legal ends, if_pos last]

/-- A loop that ends before the last cycle is no timeout. -/
theorem not_timeOut_early (isSetup : runTestSetup input = .ok (memory, dataAddrs))
    (legal : memCheck simulation.memory = true) {i : Nat} (early : i + 1 < maxCycles)
    (ends : pollLoop simulation.tohost (List.range maxCycles) none = some i) :
    ¬ Reports input maxCycles simulation .timeOut := by
  have notLast : (i : Int) ≠ maxCycles - 1 := by omega
  rw [Reports, runTest_eq isSetup legal ends, if_neg notLast]
  split
  · simp
  · split <;> simp

/-- The verdict of a loop that ends before the last cycle. -/
theorem reports_early_iff (isSetup : runTestSetup input = .ok (memory, dataAddrs))
    (legal : memCheck simulation.memory = true) {i : Nat} (early : i + 1 < maxCycles)
    (ends : pollLoop simulation.tohost (List.range maxCycles) none = some i) :
    Reports input maxCycles simulation
        (if simulation.metaAssert = true then .assertionFail else .success) ↔
      (simulation.metaAssert = false → SignatureHeld input dataAddrs simulation.memory) := by
  have notLast : (i : Int) ≠ maxCycles - 1 := by omega
  rw [Reports, runTest_eq isSetup legal ends, if_neg notLast, SignatureHeld,
    ← saveSignature_isSome_iff]
  cases simulation.metaAssert with
  | true => simp
  | false =>
      cases saveSignature simulation.memory ((input.symbols "begin_signature").getD 0)
        ((input.symbols "end_signature").getD 0) dataAddrs <;> simp

/-- What the verdicts are for: a timeout exactly when `tohost` is zero at every poll, and
otherwise a verdict according to `metaAssert`. -/
structure TimesOutRight (input : RtlInput) (maxCycles : Nat) (simulation : Simulation) : Prop where
  timeOut : Reports input maxCycles simulation .timeOut ↔
    ∀ i < maxCycles, i % 100 = 0 → simulation.tohost i = 0
  seen : (∃ i < maxCycles, i % 100 = 0 ∧ simulation.tohost i ≠ 0) →
    Reports input maxCycles simulation
      (if simulation.metaAssert = true then .assertionFail else .success)

/-- When no illegal access occurred, the verdict tells whether `tohost` was seen exactly when it is
not in the last cycle that `tohost` is seen first, and, if it is seen and `metaAssert` is not set,
the words of the signature are all in the memory. -/
theorem timeOut_iff (positive : 1 ≤ maxCycles)
    (isSetup : runTestSetup input = .ok (memory, dataAddrs))
    (legal : memCheck simulation.memory = true) :
    TimesOutRight input maxCycles simulation ↔
      ¬ FirstSeen simulation.tohost (maxCycles - 1) ∧
        ((∃ i < maxCycles, Seen simulation.tohost i) → simulation.metaAssert = false →
          SignatureHeld input dataAddrs simulation.memory) := by
  by_cases seen : ∃ i < maxCycles, Seen simulation.tohost i
  · rcases seen with ⟨i, below, seenAt⟩
    rcases exists_firstSeen seenAt with ⟨first, atMost, isFirst⟩
    have ends := pollLoop_seen isFirst (Nat.lt_of_le_of_lt atMost below)
    by_cases isLast : first = maxCycles - 1
    · -- The loop variable is the one of a loop that used up its cycles.
      have timesOut := reports_last positive isSetup legal (isLast ▸ ends)
      constructor
      · intro right
        exact absurd (right.timeOut.mp timesOut i below seenAt.1) seenAt.2
      · rintro ⟨notLast, _⟩
        exact absurd (isLast ▸ isFirst) notLast
    · have early : first + 1 < maxCycles := by omega
      have verdict := reports_early_iff isSetup legal early ends
      constructor
      · intro right
        refine ⟨?_, fun _ => verdict.mp (right.seen ⟨i, below, seenAt⟩)⟩
        intro last
        exact last.2 first (by omega) isFirst.1
      · rintro ⟨_, held⟩
        constructor
        · constructor
          · intro timesOut
            exact absurd timesOut (not_timeOut_early isSetup legal early ends)
          · intro never
            exact absurd (never i below seenAt.1) seenAt.2
        · intro _
          exact verdict.mpr (held ⟨i, below, seenAt⟩)
  · have unseen : ∀ i < maxCycles, ¬ Seen simulation.tohost i :=
      fun i below seenAt => seen ⟨i, below, seenAt⟩
    have timesOut := reports_last positive isSetup legal (pollLoop_unseen positive unseen)
    constructor
    · intro _
      refine ⟨?_, fun seenAt => absurd seenAt seen⟩
      intro last
      exact unseen (maxCycles - 1) (by omega) last.1
    · intro _
      constructor
      · constructor
        · intro _ i below polled
          by_contra nonzero
          exact unseen i below ⟨polled, nonzero⟩
        · exact fun _ => timesOut
      · intro seenAt
        exact absurd seenAt seen

end TimeOut

/-! ## Keys of the setup -/

section Keys

variable {input : RtlInput} {memory memory' : Dict Nat Nat} {dataAddrs : List (Nat × Nat)}

/-- The address of a symbol. -/
def addrOf (symbols : Symbols) (name : String) : Nat := (symbols name).getD 0

theorem addrOf_of_lookup {symbols : Symbols} {name : String} {addr : Nat}
    (found : lookup symbols name = .ok addr) : addrOf symbols name = addr := by
  rw [lookup] at found
  rw [addrOf]
  cases isAddr : symbols name with
  | none =>
      rw [isAddr] at found
      cases found
  | some other =>
      rw [isAddr] at found
      cases found
      rfl

/-- The addresses of the words that are loaded for one section of a wrapped program. -/
def sectionWrites (symbols : Symbols) (n : Nat) : List Nat :=
  stepRange (addrOf symbols (dataStartSymbol n) / 8 * 8) (addrOf symbols (dataEndSymbol n) / 8 * 8) 8

/-- The addresses that the host writes itself while it loads the program, `tohost`, the signature
and the data sections. -/
def hostWrites (input : RtlInput) : List Nat :=
  stepRange (addrOf input.symbols "_start") (addrOf input.symbols "_end_main" + 36) 8 ++
    (addrOf input.symbols "tohost" ::
      stepRange (addrOf input.symbols "begin_signature" / 8 * 8)
        (addrOf input.symbols "end_signature") 8) ++
    if input.dataAddrs ≠ [] then (walked input.dataAddrs).take input.data.length
    else (List.range 6).flatMap (sectionWrites input.symbols)

theorem mem_keys_loadHex (loaded : loadHex input.hexfile input.symbols = .ok memory) (addr : Nat) :
    addr ∈ memory.keys ↔ addr ∈ setBootrom.keys ∨
      addr ∈ stepRange (addrOf input.symbols "_start") (addrOf input.symbols "_end_main" + 36) 8 := by
  rw [loadHex] at loaded
  rcases bind_eq_ok_iff.mp loaded with ⟨start, isStart, loaded⟩
  rcases bind_eq_ok_iff.mp loaded with ⟨stop, isStop, loaded⟩
  rw [mem_keys_foldlM_set (loadLine_eq _) loaded, addrOf_of_lookup isStart,
    addrOf_of_lookup isStop, List.zipIdx_map_fst]

theorem mem_keys_clearSignature (cleared : clearSignature input.symbols memory = .ok memory')
    (addr : Nat) :
    addr ∈ memory'.keys ↔ addr ∈ memory.keys ∨ addr ∈ addrOf input.symbols "tohost" ::
      stepRange (addrOf input.symbols "begin_signature" / 8 * 8)
        (addrOf input.symbols "end_signature") 8 := by
  rw [clearSignature] at cleared
  rcases bind_eq_ok_iff.mp cleared with ⟨tohost, isTohost, cleared⟩
  rcases bind_eq_ok_iff.mp cleared with ⟨sigStart, isStart, cleared⟩
  rcases bind_eq_ok_iff.mp cleared with ⟨sigEnd, isEnd, cleared⟩
  rw [addrOf_of_lookup isTohost, addrOf_of_lookup isStart, addrOf_of_lookup isEnd]
  have zeros := Dict.mem_keys_foldl_set
    ((stepRange (sigStart / 8 * 8) sigEnd 8).map fun addr => (addr, 0)) (memory.set tohost 0) addr
  rw [List.foldl_map, List.map_map] at zeros
  rw [← Except.ok.inj cleared, zeros, Dict.mem_keys_set, List.mem_cons]
  have same : (stepRange (sigStart / 8 * 8) sigEnd 8).map (Prod.fst ∘ fun addr => (addr, 0)) =
      stepRange (sigStart / 8 * 8) sigEnd 8 := List.map_id _
  rw [same]
  tauto

theorem mem_keys_restoreSection {data : List Nat} {symbols : Symbols} {n : Nat}
    {state state' : Dict Nat Nat × Int × List (Nat × Nat)}
    (restored : restoreSection data symbols state n = .ok state') (addr : Nat) :
    addr ∈ state'.1.keys ↔ addr ∈ state.1.keys ∨ addr ∈ sectionWrites symbols n := by
  rw [restoreSection] at restored
  rcases bind_eq_ok_iff.mp restored with ⟨dataStart, isStart, restored⟩
  rcases bind_eq_ok_iff.mp restored with ⟨dataEnd, isEnd, restored⟩
  rcases bind_eq_ok_iff.mp restored with ⟨memory, stored, restored⟩
  cases restored
  rw [mem_keys_foldlM_set (restoreIndexed_eq _) stored, sectionWrites, addrOf_of_lookup isStart,
    addrOf_of_lookup isEnd, List.zipIdx_map_fst]

theorem map_fst_zip_take {α β : Type} (first : List α) (second : List β) :
    (first.zip second).map Prod.fst = first.take second.length := by
  induction first generalizing second with
  | nil => simp
  | cons a first inductionHypothesis =>
      cases second with
      | nil => rfl
      | cons b second => simp [inductionHypothesis]

theorem mem_keys_restoreData (restored : restoreData input memory = .ok (memory', dataAddrs))
    (addr : Nat) :
    addr ∈ memory'.keys ↔ addr ∈ memory.keys ∨ addr ∈
      if input.dataAddrs ≠ [] then (walked input.dataAddrs).take input.data.length
      else (List.range 6).flatMap (sectionWrites input.symbols) := by
  rw [restoreData] at restored
  by_cases ordinary : input.dataAddrs ≠ []
  · rw [if_pos ordinary] at restored ⊢
    cases restored
    rw [restoreRanges_eq, Dict.mem_keys_setAll, map_fst_zip_take, or_comm]
  · rw [if_neg ordinary] at restored ⊢
    rcases bind_eq_ok_iff.mp restored with ⟨state, stored, restored⟩
    cases restored
    have keys := fun state n state' => @mem_keys_restoreSection input.data input.symbols n state state'
    exact mem_keys_foldlM (fun s n s' step => keys s n s' step) stored addr

/-- The setup fills the boot ROM and the words that the host writes. -/
theorem mem_keys_runTestSetup (isSetup : runTestSetup input = .ok (memory, dataAddrs))
    (addr : Nat) :
    addr ∈ memory.keys ↔ addr ∈ setBootrom.keys ∨ addr ∈ hostWrites input := by
  rw [runTestSetup] at isSetup
  rcases bind_eq_ok_iff.mp isSetup with ⟨loaded, isLoaded, isSetup⟩
  rcases bind_eq_ok_iff.mp isSetup with ⟨cleared, isCleared, restored⟩
  rw [mem_keys_restoreData restored, mem_keys_clearSignature isCleared, mem_keys_loadHex isLoaded,
    hostWrites, List.mem_append, List.mem_append, or_assoc, or_assoc, or_assoc]

end Keys

/-! ## Illegal accesses -/

section IllMem

open TileLink

variable {config : Config} {input : RtlInput} {memory : Dict Nat Nat}
  {dataAddrs : List (Nat × Nat)}

/-- A word below the DRAM and outside the boot ROM. -/
def Illegal (addr : Nat) : Prop := addr < dramBase ∧ ¬ (0x10000 ≤ addr ∧ addr < 0x10040)

instance (addr : Nat) : Decidable (Illegal addr) := inferInstanceAs (Decidable (_ ∧ _))

theorem mem_bootromAddrs_iff {addr : Nat} :
    addr ∈ bootromAddrs ↔ 8 ∣ addr ∧ 0x10000 ≤ addr ∧ addr < 0x10040 := by
  rw [bootromAddrs, List.mem_map]
  constructor
  · rintro ⟨k, below, rfl⟩
    rw [List.mem_range] at below
    omega
  · rintro ⟨⟨word, rfl⟩, above, below⟩
    refine ⟨word - 0x2000, ?_, ?_⟩
    · rw [List.mem_range]
      omega
    · omega

/-- The check of the memory tells apart the words of the bus. -/
theorem flagged_iff_illegal {addr : Nat} (aligned : 8 ∣ addr) : Flagged addr ↔ Illegal addr := by
  rw [Flagged, Illegal, mem_bootromAddrs_iff, and_comm]
  simp [aligned]

theorem not_flagged_bootrom {addr : Nat} (mem : addr ∈ setBootrom.keys) : ¬ Flagged addr := by
  have keys : ∀ addr ∈ setBootrom.keys, ¬ Flagged addr := by decide +kernel
  exact keys addr mem

theorem memCheck_eq_false_iff {memory : Dict Nat Nat} :
    memCheck memory = false ↔ ∃ addr ∈ memory.keys, Flagged addr := by
  simp [memCheck]

/-- The verdict `ILL_MEM` is the check of the memory. -/
theorem reports_illMem_iff (isSetup : runTestSetup input = .ok (memory, dataAddrs))
    (maxCycles : Nat) (simulation : Simulation) :
    Reports input maxCycles simulation .illMem ↔ ∃ addr ∈ simulation.memory.keys, Flagged addr := by
  rw [← memCheck_eq_false_iff, Reports]
  by_cases failed : memCheck simulation.memory = false
  · simp [runTest, isSetup, failed]
  · have legal : memCheck simulation.memory = true := by simpa using failed
    cases ends : pollLoop simulation.tohost (List.range maxCycles) none with
    | none => simp [runTest, isSetup, legal, ends]
    | some i =>
        rw [runTest_eq isSetup legal ends, legal]
        split
        · simp
        · split
          · simp
          · split <;> simp

/-- The core's accesses decide the verdict `ILL_MEM` exactly when no word that the host writes
fails the check of the memory, unless the core makes an illegal access anyway.  This is about runs
of a 64-bit bus in which accesses to blocks that the core holds and answers to probes touch only
words that are in the memory already. -/
theorem illMem_iff (coherent : config.protocol = tlC) (bus : config.dataBytes = 8)
    (isSetup : runTestSetup input = .ok (memory, dataAddrs)) {before final : State}
    {events : List Event} (ran : run config (before.start config memory) events = some final)
    (resident : Along config (Resident config) (before.start config memory) events)
    (maxCycles : Nat) {simulation : Simulation} (left : simulation.memory = final.memory) :
    (Reports input maxCycles simulation .illMem ↔
        ∃ addr ∈ accessed config (before.start config memory) events, Illegal addr) ↔
      ((∃ addr ∈ hostWrites input, Flagged addr) →
        ∃ addr ∈ accessed config (before.start config memory) events, Illegal addr) := by
  have wide : config.PowerOfTwoBus := ⟨3, bus⟩
  have verdict : Reports input maxCycles simulation .illMem ↔
      (∃ addr ∈ hostWrites input, Flagged addr) ∨
        ∃ addr ∈ accessed config (before.start config memory) events, Illegal addr := by
    rw [reports_illMem_iff isSetup, left]
    have keys := run_enters config coherent ran resident (settled_start config memory before)
    have aligned : ∀ addr ∈ accessed config (before.start config memory) events, 8 ∣ addr :=
      fun addr mem => bus ▸ dvd_accessed wide mem
    constructor
    · rintro ⟨addr, mem, flagged⟩
      rcases (keys addr).mp mem with start | later
      · rcases (mem_keys_runTestSetup isSetup addr).mp start with rom | written
        · exact absurd flagged (not_flagged_bootrom rom)
        · exact Or.inl ⟨addr, written, flagged⟩
      · exact Or.inr ⟨addr, later, (flagged_iff_illegal (aligned addr later)).mp flagged⟩
    · rintro (⟨addr, written, flagged⟩ | ⟨addr, later, illegal⟩)
      · have start := (mem_keys_runTestSetup isSetup addr).mpr (Or.inr written)
        exact ⟨addr, (keys addr).mpr (Or.inl start), flagged⟩
      · exact ⟨addr, (keys addr).mpr (Or.inr later),
          (flagged_iff_illegal (aligned addr later)).mpr illegal⟩
  rw [verdict]
  exact or_iff_right_iff_imp

end IllMem

/-! ## Runs of small programs -/

section Runs

open TileLink

/-- An instrumented program of zeros whose symbol `tohost` has the given address. -/
def zeroProgram (tohost : Nat) : RtlInput where
  hexfile := (List.replicate 37 (line ['0'])).flatten
  data := []
  symbols name :=
    if name = "tohost" then some tohost else instrumentedSymbols (some 0x80000000) name
  dataAddrs := []

/-- A core that reads one word. -/
def readWord (address : Nat) : Event := .aFire ⟨.get, 0, 3, 0, address, 0xff, 0⟩

/-- The word at `tohost` in a run that writes it in cycle 50. -/
def lateTohost (i : Nat) : Nat := if i < 50 then 0 else 1

/-- `tohost` is written before the last cycle, but seen in the last cycle only. -/
theorem timeOut_hides_tohost : ∃ memory dataAddrs,
    runTestSetup (zeroProgram 0x80001000) = .ok (memory, dataAddrs) ∧ memCheck memory = true ∧
      ¬ TimesOutRight (zeroProgram 0x80001000) 101 ⟨lateTohost, memory, false, 0, 30⟩ := by
  have check : (runTestSetup (zeroProgram 0x80001000)).map (fun loaded => memCheck loaded.1) =
      .ok true := by decide +kernel
  have ends : pollLoop lateTohost (List.range 101) none = some (101 - 1) := by decide +kernel
  have written : lateTohost 100 ≠ 0 := by decide
  cases isSetup : runTestSetup (zeroProgram 0x80001000) with
  | error raised =>
      rw [isSetup] at check
      cases check
  | ok loaded =>
      rw [isSetup] at check
      have legal := Except.ok.inj check
      refine ⟨loaded.1, loaded.2, rfl, legal, ?_⟩
      intro right
      have timesOut := right.timeOut.mp (reports_last (by decide) isSetup legal ends)
      exact written (timesOut 100 (by decide) rfl)

/-- The same word is seen when there are cycles left. -/
theorem timeOut_iff_lateTohost : ∃ memory dataAddrs,
    runTestSetup (zeroProgram 0x80001000) = .ok (memory, dataAddrs) ∧ memCheck memory = true ∧
      TimesOutRight (zeroProgram 0x80001000) 500 ⟨lateTohost, memory, true, 0, 30⟩ := by
  have check : (runTestSetup (zeroProgram 0x80001000)).map (fun loaded => memCheck loaded.1) =
      .ok true := by decide +kernel
  have unpolled : ¬ Seen lateTohost (500 - 1) := by decide
  cases isSetup : runTestSetup (zeroProgram 0x80001000) with
  | error raised =>
      rw [isSetup] at check
      cases check
  | ok loaded =>
      rw [isSetup] at check
      have legal := Except.ok.inj check
      refine ⟨loaded.1, loaded.2, rfl, legal, (timeOut_iff (by decide) isSetup legal).mpr ?_⟩
      constructor
      · exact fun last => unpolled last.1
      · intro _ unset
        cases unset

/-- A core reads one word of the boot ROM and one of the DRAM, and the host has cleared `tohost`
at a low address. -/
theorem illMem_without_access : ∃ memory dataAddrs final,
    runTestSetup (zeroProgram 0x1000) = .ok (memory, dataAddrs) ∧
      run tileConfig ((State.init []).start tileConfig memory)
        [readWord 0x10000, readWord 0x80000000] = some final ∧
      Reports (zeroProgram 0x1000) 500 ⟨lateTohost, final.memory, false, 0, 30⟩ .illMem ∧
      ¬ ∃ addr ∈ accessed tileConfig ((State.init []).start tileConfig memory)
        [readWord 0x10000, readWord 0x80000000], Illegal addr := by
  have check : (runTestSetup (zeroProgram 0x1000)).map (fun loaded =>
      ((run tileConfig ((State.init []).start tileConfig loaded.1)
        [readWord 0x10000, readWord 0x80000000]).map fun final =>
          decide (0x1000 ∈ final.memory.keys),
      (accessed tileConfig ((State.init []).start tileConfig loaded.1)
        [readWord 0x10000, readWord 0x80000000]).all fun addr => !decide (Illegal addr))) =
      .ok (some true, true) := by decide +kernel
  cases isSetup : runTestSetup (zeroProgram 0x1000) with
  | error raised =>
      rw [isSetup] at check
      cases check
  | ok loaded =>
      rw [isSetup] at check
      have facts := Except.ok.inj check
      rw [Prod.mk.injEq] at facts
      rcases facts with ⟨ran, legal⟩
      rcases Option.map_eq_some_iff.mp ran with ⟨final, ran, cleared⟩
      have cleared : 0x1000 ∈ final.memory.keys := of_decide_eq_true cleared
      refine ⟨loaded.1, loaded.2, final, rfl, ran, ?_, ?_⟩
      · exact (reports_illMem_iff isSetup _ _).mpr ⟨0x1000, cleared, by decide⟩
      · rintro ⟨addr, mem, illegal⟩
        simpa [illegal] using List.all_eq_true.mp legal addr mem

/-- A core reads a word below the DRAM that the host did not write. -/
theorem illMem_iff_readWord : ∃ memory dataAddrs final,
    runTestSetup (zeroProgram 0x80001000) = .ok (memory, dataAddrs) ∧
      run tileConfig ((State.init []).start tileConfig memory) [readWord 0x2000] = some final ∧
      Reports (zeroProgram 0x80001000) 500 ⟨lateTohost, final.memory, false, 0, 30⟩ .illMem := by
  have check : (runTestSetup (zeroProgram 0x80001000)).map (fun loaded =>
      ((run tileConfig ((State.init []).start tileConfig loaded.1) [readWord 0x2000]).isSome,
        decide (0x2000 ∈ accessed tileConfig ((State.init []).start tileConfig loaded.1)
          [readWord 0x2000]))) = .ok (true, true) := by decide +kernel
  cases isSetup : runTestSetup (zeroProgram 0x80001000) with
  | error raised =>
      rw [isSetup] at check
      cases check
  | ok loaded =>
      rw [isSetup] at check
      have facts := Except.ok.inj check
      rw [Prod.mk.injEq] at facts
      rcases Option.isSome_iff_exists.mp facts.1 with ⟨final, ran⟩
      have illegal : ∃ addr ∈ accessed tileConfig ((State.init []).start tileConfig loaded.1)
          [readWord 0x2000], Illegal addr := ⟨0x2000, of_decide_eq_true facts.2, by decide⟩
      have resident : Along tileConfig (Resident tileConfig)
          ((State.init []).start tileConfig loaded.1) [readWord 0x2000] := by
        refine ⟨⟨fun held => absurd (perm_start loaded.1 _ _) held, nofun⟩, fun _ _ => trivial⟩
      exact ⟨loaded.1, loaded.2, final, rfl, ran,
        (((illMem_iff rfl (by decide) isSetup ran resident 500 rfl).mpr fun _ => illegal)).mpr
          illegal⟩

end Runs

end Difftest.Host
