import Difftest.Data.Semaphore
import Difftest.Data.Struct

/-!
# Counters shared by the fuzzing processes

The manager keeps the next identifier of a mismatch and of a corpus entry in shared memory,
each with a semaphore.  `read_num` takes the semaphore and `write_num` gives it back, so the
section between the two calls spans two methods.  The semaphores are created at zero: the
first call of `write_num`, in the constructor of the manager, raises them to one.
-/

namespace Difftest.Fuzzer

/-! ## Shared memory -/

/-- The counters of the manager. -/
inductive Counter where
  | mNum
  | cNum
deriving DecidableEq, Repr

/-- `num.to_bytes(4, 'little')`, which raises for numbers of more than four bytes. -/
def toBytes (num : Nat) : Option (List UInt8) :=
  if num < 256 ^ 4 then some ((List.range 4).map fun i => UInt8.ofNat (byteAt num i)) else none

/-- A shared memory and its semaphore. -/
structure Shared where
  shm : List UInt8
  sem : Nat
deriving DecidableEq, Repr

namespace Shared

/-- A fresh page of shared memory and a fresh semaphore. -/
def create (value : Nat) : Shared := ⟨List.replicate 4096 0, value⟩

/-- `int.from_bytes(shm.read(4), 'little')`. -/
def num (shared : Shared) : Nat := unpack .little 4 shared.shm 0

/-- `shm.write`. -/
def write (shared : Shared) (bytes : List UInt8) : Shared :=
  { shared with shm := bytes ++ shared.shm.drop bytes.length }

/-- `P` of the semaphore, which waits until it can be lowered. -/
def acquire (shared : Shared) : Option Shared :=
  if 0 < shared.sem then some { shared with sem := shared.sem - 1 } else none

/-- `V` of the semaphore. -/
def release (shared : Shared) : Shared := { shared with sem := shared.sem + 1 }

/-- `write_num`. -/
def writeNum (shared : Shared) (num : Nat) : Option Shared :=
  (toBytes num).map fun bytes => (shared.write bytes).release

end Shared

/-! ## Processes -/

/-- Where a process stands in `read_num(name); write_num(name, num + 1)` and the saving that
follows. -/
inductive Control where
  | outside
  | reading (name : Counter)
  | between (name : Counter) (num : Nat)
  | written (name : Counter) (num : Nat)
  | returned (name : Counter) (num : Nat)
  | raised (name : Counter) (num : Nat)
deriving DecidableEq, Repr

/-- The counter whose semaphore the process holds. -/
def Control.holds : Control → Option Counter
  | .reading name => some name
  | .between name _ => some name
  | .written name _ => some name
  | .raised name _ => some name
  | _ => none

/-- The manager with its processes, and what happened so far to each counter: the numbers
that were read, the sections that were completed and the identifiers of what was saved. -/
structure System (π : Type*) where
  shared : Counter → Shared
  control : π → Control
  obtained : Counter → List Nat
  completed : Counter → Nat
  saved : Counter → List Nat

namespace System

variable {π : Type*} [DecidableEq π]

/-- The manager after its constructor, with no process inside a section. -/
def init (mNum cNum : Nat) : Option (System π) :=
  ((Shared.create 0).writeNum mNum).bind fun mShared =>
    ((Shared.create 0).writeNum cNum).map fun cShared =>
      { shared := fun name => match name with | .mNum => mShared | .cNum => cShared
        control := fun _ => .outside
        obtained := fun _ => []
        completed := fun _ => 0
        saved := fun _ => [] }

/-- The next step of a process, where it goes for the given counter when it is outside of the
sections.  With `record`, what has the number as its identifier is saved. -/
def step (record : Bool) (system : System π) (process : π) (name : Counter) :
    Option (System π) :=
  match system.control process with
  | .outside => (system.shared name).acquire.map fun shared =>
      { system with
        shared := Function.update system.shared name shared
        control := Function.update system.control process (.reading name) }
  | .reading name =>
      let num := (system.shared name).num
      some { system with
        control := Function.update system.control process (.between name num)
        obtained := Function.update system.obtained name (system.obtained name ++ [num]) }
  | .between name num =>
      match toBytes (num + 1) with
      | none => some { system with
          control := Function.update system.control process (.raised name num) }
      | some bytes => some { system with
          shared := Function.update system.shared name ((system.shared name).write bytes)
          control := Function.update system.control process (.written name num) }
  | .written name num => some { system with
      shared := Function.update system.shared name (system.shared name).release
      control := Function.update system.control process (.returned name num)
      completed := Function.update system.completed name (system.completed name + 1) }
  | .returned name num => some { system with
      control := Function.update system.control process .outside
      saved := Function.update system.saved name
        (system.saved name ++ if record = true then [num] else []) }
  | .raised _ _ => none

/-- Any process takes its next step. -/
def Step (record : Bool) (system system' : System π) : Prop :=
  ∃ process name, system.step record process name = some system'

/-- Any interleaving of the processes. -/
def Run (record : Bool) : System π → System π → Prop :=
  Relation.ReflTransGen (Step record)

end System

/-! ## Bytes of a number -/

theorem toBytes_eq_some_iff {num : Nat} {bytes : List UInt8} :
    toBytes num = some bytes ↔
      num < 256 ^ 4 ∧ (List.range 4).map (fun i => UInt8.ofNat (byteAt num i)) = bytes := by
  rw [toBytes]
  split
  · rename_i fits
    rw [Option.some.injEq, and_iff_right fits]
  · rename_i big
    simp only [reduceCtorEq, false_iff, not_and]
    exact fun fits => absurd fits big

/-- A number that was written is read back. -/
theorem Shared.num_write {num : Nat} {bytes : List UInt8} (isBytes : toBytes num = some bytes)
    (shared : Shared) : (shared.write bytes).num = num := by
  rcases toBytes_eq_some_iff.mp isBytes with ⟨fits, rfl⟩
  have read : ∀ i < 4, byteOf ((shared.write ((List.range 4).map fun i =>
      UInt8.ofNat (byteAt num i))).shm) (0 + i) = byteAt num i := by
    intro i inside
    have inBytes : 0 + i < ((List.range 4).map fun i => UInt8.ofNat (byteAt num i)).length := by
      simpa using inside
    rw [Shared.write, byteOf_append, if_pos inBytes, byteOf, List.getD_eq_getElem _ _ inBytes,
      List.getElem_map, List.getElem_range, Nat.zero_add, UInt8.toNat_ofNat']
    exact Nat.mod_eq_of_lt (byteAt_lt num i)
  calc
    _ = ofBytes 4 (byteAt num) := ofBytes_congr read
    _ = num := ofBytes_byteAt_of_lt fits

/-! ## Sections -/

/-- What the semaphore of a counter guards: the stored number and what happened so far. -/
structure Ledger where
  num : Nat
  obtained : List Nat
  completed : Nat

/-- The state of a process inside the section of a counter. -/
def Control.within (name : Counter) (control : Control) : Option Control :=
  if control.holds = some name then some control else none

theorem Control.within_of_holds {name : Counter} {control : Control}
    (holds : control.holds = some name) : control.within name = some control :=
  if_pos holds

theorem Control.within_of_ne {name other : Counter} {control : Control}
    (holds : control.holds = some other) (ne : other ≠ name) : control.within name = none := by
  rw [Control.within, holds, if_neg fun same => ne (Option.some.inj same)]

theorem Control.holds_of_within {name : Counter} {control state : Control}
    (within : control.within name = some state) : control.holds = some name ∧ control = state := by
  rw [Control.within, Option.ite_none_right_eq_some] at within
  exact ⟨within.1, Option.some.inj within.2⟩

/-- The section of a counter as a process goes through it. -/
def counting (name : Counter) : Semaphore.Protocol Ledger Control where
  enter control := control = .reading name
  work control ledger control' ledger' :=
    (control = .reading name ∧ control' = .between name ledger.num ∧
      ledger' = { ledger with obtained := ledger.obtained ++ [ledger.num] }) ∨
    (∃ num, control = .between name num ∧ control' = .written name num ∧
      ledger' = { ledger with num := num + 1 }) ∨
    (∃ num, control = .between name num ∧ control' = .raised name num ∧ ledger' = ledger)
  leave control ledger ledger' :=
    ∃ num, control = .written name num ∧
      ledger' = { ledger with completed := ledger.completed + 1 }

/-- A free counter is the initial number and the completed sections together, and the numbers
that were read are the ones before it. -/
def Balanced (initial : Nat) (ledger : Ledger) : Prop :=
  ledger.num = initial + ledger.completed ∧
    ledger.obtained = List.range' initial ledger.completed

/-- What the process inside a section knows of the counter. -/
def Ahead (initial : Nat) : Control → Ledger → Prop
  | .reading _, ledger => Balanced initial ledger
  | .written _ num, ledger => ledger.num = num + 1 ∧ num = initial + ledger.completed ∧
      ledger.obtained = List.range' initial (ledger.completed + 1)
  | .between _ num, ledger | .raised _ num, ledger => num = initial + ledger.completed ∧
      ledger.obtained = List.range' initial (ledger.completed + 1)
  | _, _ => False

theorem counting_keeps (name : Counter) (initial : Nat) :
    (counting name).Keeps (Balanced initial) (Ahead initial) where
  enter enters balanced := by
    cases enters
    exact balanced
  work ahead works := by
    rcases works with ⟨rfl, rfl, rfl⟩ | ⟨num, rfl, rfl, rfl⟩ | ⟨num, rfl, rfl, rfl⟩
    · refine ⟨ahead.1, ?_⟩
      rw [List.range'_1_concat, ← ahead.1, ← ahead.2]
    · exact ⟨rfl, ahead⟩
    · exact ahead
  leave ahead leaves := by
    rcases leaves with ⟨num, rfl, rfl⟩
    rcases ahead with ⟨stored, isNum, obtained⟩
    exact ⟨by rw [stored, isNum, Nat.add_assoc], obtained⟩

namespace System

variable {π : Type*} [DecidableEq π] {record : Bool}

/-- What the semaphore of a counter guards. -/
def ledger (system : System π) (name : Counter) : Ledger :=
  ⟨(system.shared name).num, system.obtained name, system.completed name⟩

/-- The manager as one semaphore sees it. -/
def guarded (system : System π) (name : Counter) : Semaphore.Guarded π Ledger Control :=
  ⟨(system.shared name).sem, system.ledger name, fun process =>
    (system.control process).within name⟩

omit [DecidableEq π] in
theorem inside_of_control {system : System π} {name : Counter} {process : π} {control : Control}
    (isControl : system.control process = control) (holds : control.holds = some name) :
    (system.guarded name).inside process = some control := by
  rw [← isControl] at holds ⊢
  exact Control.within_of_holds holds

/-- A step of a process changes its own state only. -/
theorem guarded_eq {system system' : System π} {name : Counter} {process : π} {next : Control}
    (control : system'.control = Function.update system.control process next) :
    system'.guarded name = ⟨(system'.shared name).sem, system'.ledger name,
      Function.update (system.guarded name).inside process (next.within name)⟩ := by
  rw [guarded, control]
  congr 1
  exact Function.comp_update (Control.within name) system.control process next

/-- A step outside of a section does not show there. -/
theorem guarded_eq_of_outside {system system' : System π} {name : Counter} {process : π}
    {next : Control} (shared : system'.shared name = system.shared name)
    (obtained : system'.obtained name = system.obtained name)
    (completed : system'.completed name = system.completed name)
    (control : system'.control = Function.update system.control process next)
    (before : (system.control process).within name = none) (after : next.within name = none) :
    system'.guarded name = system.guarded name := by
  have unchanged : Function.update (system.guarded name).inside process none =
      (system.guarded name).inside := Function.update_eq_self_iff.mpr before.symm
  rw [guarded_eq control, ledger, shared, obtained, completed, after, unchanged]
  rfl

/-- Every step is a step in the section of a counter or does not show there. -/
theorem step_guarded {system system' : System π} (stepped : Step record system system')
    (name : Counter) :
    Relation.ReflGen (Semaphore.Step (counting name)) (system.guarded name)
      (system'.guarded name) := by
  rcases stepped with ⟨process, other, isStep⟩
  cases isControl : system.control process with
  | outside =>
      simp only [step, isControl, Option.map_eq_some_iff] at isStep
      rcases isStep with ⟨shared, acquired, made⟩
      rw [Shared.acquire, Option.ite_none_right_eq_some] at acquired
      rcases acquired with ⟨positive, acquired⟩
      have before : (system.control process).within name = none := by rw [isControl]; rfl
      have control := (congrArg System.control made).symm
      by_cases same : other = name
      · subst same
        have sem : (system'.shared other).sem = (system.shared other).sem - 1 := by
          simp [← made, ← Option.some.inj acquired]
        have ledger : system'.ledger other = system.ledger other := by
          simp [← made, ← Option.some.inj acquired, System.ledger, Shared.num]
        rw [guarded_eq control, sem, ledger, Control.within_of_holds rfl]
        exact .single (.acquire before positive rfl)
      · have unchanged : system'.shared name = system.shared name := by
          simp [← made, Ne.symm same]
        rw [guarded_eq_of_outside unchanged (by simp [← made]) (by simp [← made]) control before
          (Control.within_of_ne rfl same)]
  | reading counter =>
      simp only [step, isControl, Option.some.injEq] at isStep
      have control := (congrArg System.control isStep).symm
      by_cases same : counter = name
      · subst same
        have inside : (system.guarded counter).inside process = some (.reading counter) :=
          inside_of_control isControl rfl
        have ledger : system'.ledger counter = { system.ledger counter with
            obtained := system.obtained counter ++ [(system.shared counter).num] } := by
          simp [← isStep, System.ledger]
        rw [guarded_eq control, ledger, Control.within_of_holds rfl, ← isStep]
        exact .single (.work inside (.inl ⟨rfl, rfl, rfl⟩))
      · have unchanged : system'.obtained name = system.obtained name := by
          simp [← isStep, Ne.symm same]
        rw [guarded_eq_of_outside (by simp [← isStep]) unchanged (by simp [← isStep]) control
          (isControl ▸ Control.within_of_ne rfl same) (Control.within_of_ne rfl same)]
  | between counter num =>
      cases isBytes : toBytes (num + 1) with
      | none =>
          simp only [step, isControl, isBytes, Option.some.injEq] at isStep
          have control := (congrArg System.control isStep).symm
          by_cases same : counter = name
          · subst same
            have inside : (system.guarded counter).inside process =
                some (.between counter num) :=
              inside_of_control isControl rfl
            rw [guarded_eq control, Control.within_of_holds rfl, ← isStep]
            exact .single (.work inside (.inr (.inr ⟨num, rfl, rfl, rfl⟩)))
          · rw [guarded_eq_of_outside (by simp [← isStep]) (by simp [← isStep]) (by simp [← isStep])
              control (isControl ▸ Control.within_of_ne rfl same) (Control.within_of_ne rfl same)]
      | some bytes =>
          simp only [step, isControl, isBytes, Option.some.injEq] at isStep
          have control := (congrArg System.control isStep).symm
          by_cases same : counter = name
          · subst same
            have inside : (system.guarded counter).inside process =
                some (.between counter num) :=
              inside_of_control isControl rfl
            have sem : (system'.shared counter).sem = (system.shared counter).sem := by
              simp [← isStep, Shared.write]
            have ledger : system'.ledger counter =
                { system.ledger counter with num := num + 1 } := by
              simp [← isStep, System.ledger, Shared.num_write isBytes]
            rw [guarded_eq control, sem, ledger, Control.within_of_holds rfl]
            exact .single (.work inside (.inr (.inl ⟨num, rfl, rfl, rfl⟩)))
          · have unchanged : system'.shared name = system.shared name := by
              simp [← isStep, Ne.symm same]
            rw [guarded_eq_of_outside unchanged (by simp [← isStep]) (by simp [← isStep]) control
              (isControl ▸ Control.within_of_ne rfl same) (Control.within_of_ne rfl same)]
  | written counter num =>
      simp only [step, isControl, Option.some.injEq] at isStep
      have control := (congrArg System.control isStep).symm
      by_cases same : counter = name
      · subst same
        have inside : (system.guarded counter).inside process = some (.written counter num) :=
          inside_of_control isControl rfl
        have sem : (system'.shared counter).sem = (system.shared counter).sem + 1 := by
          simp [← isStep, Shared.release]
        have ledger : system'.ledger counter = { system.ledger counter with
            completed := system.completed counter + 1 } := by
          simp [← isStep, System.ledger, Shared.release, Shared.num]
        rw [guarded_eq control, sem, ledger]
        exact .single (.release inside ⟨num, rfl, rfl⟩)
      · have unchanged : system'.shared name = system.shared name := by
          simp [← isStep, Ne.symm same]
        have completed : system'.completed name = system.completed name := by
          simp [← isStep, Ne.symm same]
        rw [guarded_eq_of_outside unchanged (by simp [← isStep]) completed control
          (isControl ▸ Control.within_of_ne rfl same) rfl]
  | returned counter num =>
      simp only [step, isControl, Option.some.injEq] at isStep
      have control := (congrArg System.control isStep).symm
      have before : (system.control process).within name = none := by rw [isControl]; rfl
      rw [guarded_eq_of_outside (by simp [← isStep]) (by simp [← isStep]) (by simp [← isStep]) control
        before rfl]
  | raised counter num =>
      simp only [step, isControl, reduceCtorEq] at isStep

/-! ## Runs -/

/-- The initial value of a counter. -/
def initial (mNum cNum : Nat) : Counter → Nat
  | .mNum => mNum
  | .cNum => cNum

/-- The semaphore of a counter works as intended. -/
def Excludes (start : Counter → Nat) (system : System π) (name : Counter) : Prop :=
  Semaphore.Excludes (Balanced (start name)) (Ahead (start name)) (system.guarded name)

omit [DecidableEq π] in
theorem excludes_init {mNum cNum : Nat} {system : System π}
    (made : init mNum cNum = some system) (name : Counter) :
    system.Excludes (initial mNum cNum) name := by
  have written : ∀ {num : Nat} {shared : Shared},
      (Shared.create 0).writeNum num = some shared → shared.sem = 1 ∧ shared.num = num := by
    intro num shared isWritten
    rcases Option.map_eq_some_iff.mp isWritten with ⟨bytes, isBytes, rfl⟩
    exact ⟨rfl, Shared.num_write isBytes _⟩
  rcases Option.bind_eq_some_iff.mp made with ⟨mShared, isM, made⟩
  rcases Option.map_eq_some_iff.mp made with ⟨cShared, isC, rfl⟩
  cases name with
  | mNum => exact .free (written isM).1 (fun _ => rfl) ⟨(written isM).2, rfl⟩
  | cNum => exact .free (written isC).1 (fun _ => rfl) ⟨(written isC).2, rfl⟩

theorem Excludes.step {start : Counter → Nat} {system system' : System π} {name : Counter}
    (excludes : system.Excludes start name) (stepped : Step record system system') :
    system'.Excludes start name := by
  have seen := (step_guarded stepped name).to_reflTransGen
  exact Semaphore.Excludes.run (counting_keeps name (start name)) excludes seen

/-- What is saved and what will be saved under the number of a completed section. -/
structure Saves (start : Counter → Nat) (system : System π) : Prop where
  pending : ∀ process name num, system.control process = .returned name num →
    num < start name + system.completed name ∧ num ∉ system.saved name
  unique : ∀ process other name num, system.control process = .returned name num →
    system.control other = .returned name num → process = other
  past : ∀ name, ∀ num ∈ system.saved name, num < start name + system.completed name
  nodup : ∀ name, (system.saved name).Nodup

/-- A step that completes no section and saves nothing, to a state without anything to save. -/
theorem Saves.of_same {start : Counter → Nat} {system system' : System π} {process : π}
    {next : Control} (saves : Saves start system)
    (control : system'.control = Function.update system.control process next)
    (idle : ∀ name num, next ≠ .returned name num)
    (completed : system'.completed = system.completed) (saved : system'.saved = system.saved) :
    Saves start system' := by
  have earlier : ∀ other name num, system'.control other = .returned name num →
      system.control other = .returned name num := by
    intro other name num returned
    rw [control] at returned
    by_cases same : other = process
    · rw [same, Function.update_self] at returned
      exact absurd returned (idle name num)
    · rwa [Function.update_of_ne same] at returned
  constructor
  · intro other name num returned
    rw [completed, saved]
    exact saves.pending other name num (earlier other name num returned)
  · intro first second name num isFirst isSecond
    exact saves.unique first second name num (earlier _ _ _ isFirst) (earlier _ _ _ isSecond)
  · rw [completed, saved]
    exact saves.past
  · rw [saved]
    exact saves.nodup

/-- The number of a completed section is new. -/
theorem Saves.of_written {start : Counter → Nat} {system : System π} {process : π}
    {counter : Counter} {num : Nat} (saves : Saves start system)
    (isNum : num = start counter + system.completed counter) :
    Saves start { system with
      shared := Function.update system.shared counter (system.shared counter).release
      control := Function.update system.control process (.returned counter num)
      completed := Function.update system.completed counter (system.completed counter + 1) } := by
  have grows : ∀ name, start name + system.completed name ≤ start name +
      Function.update system.completed counter (system.completed counter + 1) name := by
    intro name
    by_cases same : name = counter
    · rw [same, Function.update_self]
      exact Nat.le_succ _
    · rw [Function.update_of_ne same]
  have cases : ∀ other name n,
      Function.update system.control process (.returned counter num) other = .returned name n →
      (other = process ∧ name = counter ∧ n = num) ∨
        (other ≠ process ∧ system.control other = .returned name n) := by
    intro other name n returned
    by_cases same : other = process
    · rw [same, Function.update_self] at returned
      cases returned
      exact Or.inl ⟨same, rfl, rfl⟩
    · rw [Function.update_of_ne same] at returned
      exact Or.inr ⟨same, returned⟩
  have new : ∀ other, system.control other ≠ .returned counter num := by
    intro other returned
    exact absurd (saves.pending other counter num returned).1 (isNum ▸ lt_irrefl _)
  constructor
  · intro other name n returned
    rcases cases other name n returned with ⟨_, rfl, rfl⟩ | ⟨_, before⟩
    · constructor
      · simp [isNum]
      · intro mem
        exact absurd (saves.past name n mem) (isNum ▸ lt_irrefl _)
    · have known := saves.pending other name n before
      exact ⟨known.1.trans_le (grows name), known.2⟩
  · intro first second name n isFirst isSecond
    rcases cases first name n isFirst with ⟨rfl, rfl, rfl⟩ | ⟨_, firstBefore⟩
    · rcases cases second name n isSecond with ⟨rfl, _, _⟩ | ⟨_, secondBefore⟩
      · rfl
      · exact absurd secondBefore (new second)
    · rcases cases second name n isSecond with ⟨rfl, rfl, rfl⟩ | ⟨_, secondBefore⟩
      · exact absurd firstBefore (new first)
      · exact saves.unique first second name n firstBefore secondBefore
  · exact fun name n mem => (saves.past name n mem).trans_le (grows name)
  · exact saves.nodup

/-- A number is saved by the process that completed its section. -/
theorem Saves.of_returned {start : Counter → Nat} {system : System π} {process : π}
    {counter : Counter} {num : Nat} (saves : Saves start system)
    (isControl : system.control process = .returned counter num) :
    Saves start { system with
      control := Function.update system.control process .outside
      saved := Function.update system.saved counter
        (system.saved counter ++ if record = true then [num] else []) } := by
  have known := saves.pending process counter num isControl
  have earlier : ∀ other name n,
      Function.update system.control process .outside other = .returned name n →
      other ≠ process ∧ system.control other = .returned name n := by
    intro other name n returned
    by_cases same : other = process
    · rw [same, Function.update_self] at returned
      cases returned
    · rw [Function.update_of_ne same] at returned
      exact ⟨same, returned⟩
  have more : ∀ name n, n ∈ Function.update system.saved counter
      (system.saved counter ++ if record = true then [num] else []) name →
      n ∈ system.saved name ∨ (name = counter ∧ n = num) := by
    intro name n mem
    by_cases same : name = counter
    · rw [same, Function.update_self, List.mem_append] at mem
      rcases mem with mem | mem
      · exact Or.inl (same ▸ mem)
      · exact Or.inr ⟨same, by simpa using (List.mem_ite_nil_right.mp mem).2⟩
    · rw [Function.update_of_ne same] at mem
      exact Or.inl mem
  constructor
  · intro other name n returned
    rcases earlier other name n returned with ⟨ne, before⟩
    refine ⟨(saves.pending other name n before).1, fun mem => ?_⟩
    rcases more name n mem with mem | ⟨rfl, rfl⟩
    · exact (saves.pending other name n before).2 mem
    · exact ne (saves.unique other process name n before isControl)
  · intro first second name n isFirst isSecond
    exact saves.unique first second name n (earlier _ _ _ isFirst).2 (earlier _ _ _ isSecond).2
  · intro name n mem
    rcases more name n mem with mem | ⟨rfl, rfl⟩
    · exact saves.past name n mem
    · exact known.1
  · intro name
    by_cases same : name = counter
    · rw [same]
      simp only [Function.update_self]
      split
      · rw [← List.concat_eq_append]
        exact (saves.nodup counter).concat known.2
      · rw [List.append_nil]
        exact saves.nodup counter
    · simp only [Function.update_of_ne same]
      exact saves.nodup name

theorem Saves.step {start : Counter → Nat} {system system' : System π}
    (saves : Saves start system) (excludes : ∀ name, system.Excludes start name)
    (stepped : Step record system system') : Saves start system' := by
  rcases stepped with ⟨process, other, isStep⟩
  cases isControl : system.control process with
  | outside =>
      simp only [System.step, isControl, Option.map_eq_some_iff] at isStep
      rcases isStep with ⟨shared, _, rfl⟩
      exact saves.of_same rfl (fun _ _ same => by cases same) rfl rfl
  | reading counter =>
      simp only [System.step, isControl, Option.some.injEq] at isStep
      subst isStep
      exact saves.of_same rfl (fun _ _ same => by cases same) rfl rfl
  | between counter num =>
      cases isBytes : toBytes (num + 1) with
      | none =>
          simp only [System.step, isControl, isBytes, Option.some.injEq] at isStep
          subst isStep
          exact saves.of_same rfl (fun _ _ same => by cases same) rfl rfl
      | some bytes =>
          simp only [System.step, isControl, isBytes, Option.some.injEq] at isStep
          subst isStep
          exact saves.of_same rfl (fun _ _ same => by cases same) rfl rfl
  | written counter num =>
      have known := ((excludes counter).of_inside (inside_of_control isControl rfl)).2
      have isNum : num = start counter + system.completed counter := known.2.1
      simp only [System.step, isControl, Option.some.injEq] at isStep
      subst isStep
      exact saves.of_written isNum
  | returned counter num =>
      simp only [System.step, isControl, Option.some.injEq] at isStep
      subst isStep
      exact saves.of_returned isControl
  | raised counter num =>
      simp only [System.step, isControl, reduceCtorEq] at isStep

/-- What holds in every state that the processes reach. -/
theorem excludes_saves_of_run {mNum cNum : Nat} {system₀ system : System π}
    (made : init mNum cNum = some system₀) (run : Run record system₀ system) :
    (∀ name, system.Excludes (initial mNum cNum) name) ∧
      Saves (initial mNum cNum) system := by
  unfold Run at run
  induction run with
  | refl =>
      have start : (∀ process, system₀.control process = .outside) ∧
          ∀ name, system₀.saved name = [] := by
        rcases Option.bind_eq_some_iff.mp made with ⟨mShared, _, rest⟩
        rcases Option.map_eq_some_iff.mp rest with ⟨cShared, _, rfl⟩
        exact ⟨fun _ => rfl, fun _ => rfl⟩
      refine ⟨excludes_init made, ?_⟩
      constructor <;> simp [start]
  | tail _ stepped inductionHypothesis =>
      rcases inductionHypothesis with ⟨excludes, saves⟩
      exact ⟨fun name => (excludes name).step stepped, saves.step excludes stepped⟩

/-- At any time at most one process is between `read_num` and `write_num` of a counter, the
numbers that were read are distinct, a counter with nobody inside is its initial value plus
the number of completed sections, and nothing is saved twice under one number. -/
theorem counters_exclusive {mNum cNum : Nat} {system₀ system : System π}
    (made : init mNum cNum = some system₀) (run : Run record system₀ system) (name : Counter) :
    (∀ first second, (system.control first).holds = some name →
        (system.control second).holds = some name → first = second) ∧
      (system.obtained name).Nodup ∧
      ((∀ process, (system.control process).holds ≠ some name) →
        (system.shared name).num = initial mNum cNum name + system.completed name) ∧
      (system.saved name).Nodup := by
  rcases excludes_saves_of_run made run with ⟨excludes, saves⟩
  have excludes : Semaphore.Excludes _ _ _ := excludes name
  refine ⟨?_, ?_, ?_, saves.nodup name⟩
  · intro first second isFirst isSecond
    exact excludes.unique (inside_of_control rfl isFirst) (inside_of_control rfl isSecond)
  · cases excludes with
    | free _ _ isFree =>
        have obtained : system.obtained name = _ := isFree.2
        rw [obtained]
        exact List.nodup_range'
    | @held process state _ _ _ isHeld =>
        have obtained : ∃ count, system.obtained name =
            List.range' (initial mNum cNum name) count := by
          cases state with
          | reading _ => exact ⟨_, isHeld.2⟩
          | written _ _ => exact ⟨_, isHeld.2.2⟩
          | between _ _ | raised _ _ => exact ⟨_, isHeld.2⟩
          | outside | returned _ _ => exact isHeld.elim
        rcases obtained with ⟨count, obtained⟩
        rw [obtained]
        exact List.nodup_range'
  · intro allOutside
    refine (excludes.of_outside fun process => ?_).1
    exact if_neg (allOutside process)

/-- Steps that are given one after the other are a run. -/
theorem run_of_steps {moves : List (π × Counter)} {system system' : System π}
    (steps : moves.foldlM (fun system move => system.step record move.1 move.2) system =
      some system') : Run record system system' := by
  induction moves generalizing system with
  | nil =>
      cases steps
      exact .refl
  | cons move moves inductionHypothesis =>
      rw [List.foldlM_cons] at steps
      rcases Option.bind_eq_some_iff.mp steps with ⟨middle, first, rest⟩
      exact .head ⟨move.1, move.2, first⟩ (inductionHypothesis rest)

/-- One process completed a section of `mNum`, and another one read the next number. -/
theorem counters_exclusive_between : ∃ system₀ system : System Bool,
    init 3 5 = some system₀ ∧ Run true system₀ system ∧
      system.control true = .returned .mNum 3 ∧ system.control false = .between .mNum 4 ∧
      (system.obtained .mNum).Nodup := by
  let moves : List (Bool × Counter) :=
    [(true, .mNum), (true, .mNum), (true, .mNum), (true, .mNum), (false, .mNum), (false, .mNum)]
  have states : (((init 3 5 : Option (System Bool)).bind fun system₀ =>
      moves.foldlM (fun system move => system.step true move.1 move.2) system₀).map fun system =>
        (system.control true, system.control false)) =
      some (.returned .mNum 3, .between .mNum 4) := by decide +kernel
  rcases Option.map_eq_some_iff.mp states with ⟨system, steps, isState⟩
  rcases Option.bind_eq_some_iff.mp steps with ⟨system₀, made, steps⟩
  have run := run_of_steps steps
  exact ⟨system₀, system, made, run, congrArg Prod.fst isState, congrArg Prod.snd isState,
    (counters_exclusive made run .mNum).2.1⟩

end System

end Difftest.Fuzzer
