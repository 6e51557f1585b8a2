import Difftest.Text.Number

/-!
# Worker slots

The parent of the fuzzing processes keeps a slot for each core, with the pid of the child that
runs there or zero.  It forks into the first free slot and, when all slots are taken, waits for
any child to end.  What the system promises is that the pid of a new child is positive and that
no child that was not reaped yet has it.
-/

namespace Difftest.Fuzzer

open Difftest.Text

/-! ## What a child has of its own -/

/-- What stands before and behind the slot in the names of the temporary files. -/
def tempFileForms : List (Text × Text) :=
  [("/.input_".toList, ".si".toList), ("/.input_".toList, ".S".toList),
   ("/.input_".toList, ".elf".toList), ("/.input_".toList, ".hex".toList),
   ("/.input_".toList, ".symbols".toList), ("/.input_".toList, ".rtl.intr".toList),
   ("/.input_".toList, ".isa.intr".toList), ("/.isa_sig_".toList, ".txt".toList),
   ("/.rtl_sig_".toList, ".txt".toList)]

/-- The temporary files of the process in a slot. -/
def tempFiles (out : Text) (procNum : Nat) : List Text :=
  tempFileForms.map fun form => out ++ (form.1 ++ (Nat.toDigits 10 procNum ++ form.2))

/-- The coverage map directory of the process in a slot. -/
def covmapDir (out : Text) (procNum : Nat) : Text :=
  out ++ ("/covmap-".toList ++ numeral 10 2 procNum)

theorem filter_tempFile {form : Text × Text} (isForm : form ∈ tempFileForms) (procNum : Nat) :
    (form.1 ++ (Nat.toDigits 10 procNum ++ form.2)).filter Char.isDigit =
      Nat.toDigits 10 procNum := by
  have plain : ∀ form ∈ tempFileForms,
      form.1.filter Char.isDigit = [] ∧ form.2.filter Char.isDigit = [] := by decide
  have digits : (Nat.toDigits 10 procNum).filter Char.isDigit = Nat.toDigits 10 procNum := by
    apply List.filter_eq_self.mpr
    intro c mem
    exact Nat.isDigit_of_mem_toDigits (by decide) (by decide) mem
  rw [List.filter_append, List.filter_append, (plain form isForm).1, (plain form isForm).2, digits,
    List.nil_append, List.append_nil]

/-- Processes in different slots have no temporary file in common. -/
theorem tempFiles_disjoint (out : Text) {first second : Nat} (different : first ≠ second) :
    (tempFiles out first).Disjoint (tempFiles out second) := by
  intro file inFirst inSecond
  rcases List.mem_map.mp inFirst with ⟨form, isForm, rfl⟩
  rcases List.mem_map.mp inSecond with ⟨form', isForm', same⟩
  have sameDigits := congrArg (List.filter Char.isDigit) (List.append_cancel_left same)
  rw [filter_tempFile isForm, filter_tempFile isForm'] at sameDigits
  apply different
  rw [← @Nat.ofDigitChars_ten_toDigits first, ← sameDigits, Nat.ofDigitChars_ten_toDigits]

/-- Processes in different slots have different coverage map directories. -/
theorem covmapDir_injective (out : Text) : Function.Injective (covmapDir out) := by
  intro first second same
  have sameNumeral := List.append_cancel_left (List.append_cancel_left same)
  have readBack := congrArg (parseInt 10) sameNumeral
  rw [parseInt_numeral (by decide) (by decide),
    parseInt_numeral (by decide) (by decide)] at readBack
  exact Int.ofNat.inj (Option.some.inj readBack)

/-! ## The parent -/

/-- A child that was not reaped yet. -/
structure Child where
  /-- The iteration that forked it. -/
  batch : Nat
  pid : Nat
  procNum : Nat
deriving DecidableEq, Repr

/-- Where the parent is. -/
inductive Pc where
  /-- At the head of the loop. -/
  | head (i : Nat)
  /-- Behind the fork of an iteration. -/
  | check (i : Nat)
  /-- In the final loop. -/
  | drain
  | done
  /-- At an exception or an exit. -/
  | raised
deriving DecidableEq, Repr

/-- The parent with the children that it did not reap, and the batches of those that it
did. -/
structure Parent where
  pc : Pc
  procPidArr : List Nat
  numRunning : Nat
  live : List Child
  reaped : List Nat
deriving DecidableEq, Repr

/-- What `wait_check` does: it returns a slot, or kills children and exits. -/
inductive Wait where
  | slot (idx : Nat)
  | exit (killed : List Nat)
deriving DecidableEq, Repr

/-- `proc_state.NORMAL`. -/
def normal : Nat := 0

/-- `wait_check`, given what `waitpid` and `get_state` return; `none` is a `ValueError`. -/
def waitCheck (procPidArr : List Nat) (endPid exitCode : Nat) (getState : Nat → Nat) :
    Option Wait :=
  (procPidArr.idxOf? endPid).map fun idx =>
    if exitCode ≠ 0 then .exit (procPidArr.filter (· ≠ endPid))
    else if getState idx ≠ normal then .exit (procPidArr.filter (· ≠ endPid))
    else .slot idx

namespace Parent

/-- Before the loop. -/
def init (multicore : Nat) : Parent where
  pc := .head 0
  procPidArr := List.replicate multicore 0
  numRunning := 0
  live := []
  reaped := []

variable (parent : Parent)

/-- `proc_num = proc_pid_arr.index(0)` and the fork of an iteration. -/
def fork (i pid : Nat) : Parent :=
  match parent.procPidArr.idxOf? 0 with
  | none => { parent with pc := .raised }
  | some procNum =>
      { parent with
        pc := .check i
        procPidArr := parent.procPidArr.set procNum pid
        numRunning := parent.numRunning + 1
        live := parent.live ++ [⟨i, pid, procNum⟩] }

/-- `wait_check` and the slot that it frees, when a child ended normally. -/
def reap (child : Child) (next : Pc) : Parent :=
  match waitCheck parent.procPidArr child.pid 0 fun _ => normal with
  | some (.slot idx) =>
      { pc := next
        procPidArr := parent.procPidArr.set idx 0
        numRunning := parent.numRunning - 1
        live := parent.live.erase child
        reaped := parent.reaped ++ [child.batch] }
  | _ => { parent with pc := .raised }

/-- One step of the parent.  A wait returns any of the children, because any of them may end
first. -/
inductive Step (multicore total : Nat) : Parent → Parent → Prop where
  | fork {parent : Parent} {i pid : Nat} (atHead : parent.pc = .head i) (more : i < total)
      (positive : pid ≠ 0) (fresh : ∀ child ∈ parent.live, child.pid ≠ pid) :
      Step multicore total parent (parent.fork i pid)
  | next {parent : Parent} {i : Nat} (atCheck : parent.pc = .check i)
      (room : parent.numRunning ≠ multicore) :
      Step multicore total parent { parent with pc := .head (i + 1) }
  | wait {parent : Parent} {i : Nat} {child : Child} (atCheck : parent.pc = .check i)
      (full : parent.numRunning = multicore) (ended : child ∈ parent.live) :
      Step multicore total parent (parent.reap child (.head (i + 1)))
  | leave {parent : Parent} {i : Nat} (atHead : parent.pc = .head i) (last : ¬ i < total) :
      Step multicore total parent { parent with pc := .drain }
  | drain {parent : Parent} {child : Child} (atDrain : parent.pc = .drain)
      (running : parent.numRunning ≠ 0) (ended : child ∈ parent.live) :
      Step multicore total parent (parent.reap child .drain)
  | stop {parent : Parent} (atDrain : parent.pc = .drain) (idle : parent.numRunning = 0) :
      Step multicore total parent { parent with pc := .done }

/-- Any number of steps. -/
def Run (multicore total : Nat) : Parent → Parent → Prop :=
  Relation.ReflTransGen (Step multicore total)

/-! ## The invariant -/

/-- How many children were forked. -/
def forked (total : Nat) : Pc → Nat
  | .head i => i
  | .check i => i + 1
  | _ => total

/-- The slots hold the pids of the live children and nothing else. -/
structure Slots (procPidArr : List Nat) (live : List Child) : Prop where
  taken : ∀ child ∈ live, child.pid ≠ 0 ∧ procPidArr[child.procNum]? = some child.pid
  owned : ∀ procNum pid, procPidArr[procNum]? = some pid → pid ≠ 0 →
    ∃ child ∈ live, child.procNum = procNum
  procNums : (live.map Child.procNum).Nodup
  pids : (live.map Child.pid).Nodup

/-- What holds at every point of the parent. -/
structure Valid (multicore total : Nat) (parent : Parent) : Prop where
  length : parent.procPidArr.length = multicore
  slots : Slots parent.procPidArr parent.live
  running : parent.numRunning = parent.live.length
  few : parent.live.length ≤ multicore
  history : (parent.reaped ++ parent.live.map Child.batch).Perm
    (List.range (forked total parent.pc))
  room : ∀ i, parent.pc = .head i → i ≤ total ∧ parent.live.length < multicore
  inside : ∀ i, parent.pc = .check i → i < total
  idle : parent.pc = .done → parent.live = []
  fine : parent.pc ≠ .raised

/-! ## Slots -/

section Slots

variable {procPidArr : List Nat} {live : List Child}

/-- A free slot is left while fewer children are live than there are slots. -/
theorem Slots.exists_free (slots : Slots procPidArr live) (few : live.length < procPidArr.length) :
    ∃ procNum, procPidArr.idxOf? 0 = some procNum := by
  apply Option.ne_none_iff_exists'.mp
  intro none
  have noFree : 0 ∉ procPidArr := List.idxOf?_eq_none_iff.mp none
  -- every slot would have a child of its own
  have all : List.range procPidArr.length ⊆ live.map Child.procNum := by
    intro procNum mem
    have inside := List.mem_range.mp mem
    have taken : procPidArr[procNum] ≠ 0 := by
      intro free
      exact noFree (free ▸ List.getElem_mem inside)
    rcases slots.owned procNum _ (List.getElem?_eq_getElem inside) taken with ⟨child, isLive, rfl⟩
    exact List.mem_map_of_mem isLive
  have many := (List.nodup_range.subperm all).length_le
  rw [List.length_range, List.length_map] at many
  exact absurd few (Nat.not_lt.mpr many)

theorem free_of_idxOf? {procNum : Nat} (found : procPidArr.idxOf? 0 = some procNum) :
    procPidArr[procNum]? = some 0 := by
  rcases List.idxOf?_eq_some_iff.mp found with ⟨inside, free, _⟩
  rw [List.getElem?_eq_getElem inside, free]

/-- No live child has a free slot. -/
theorem Slots.ne_of_free (slots : Slots procPidArr live) {procNum : Nat}
    (free : procPidArr[procNum]? = some 0) : ∀ child ∈ live, child.procNum ≠ procNum := by
  rintro child isLive rfl
  have taken := slots.taken child isLive
  rw [free] at taken
  exact taken.1 (Option.some.inj taken.2).symm

theorem getElem?_set_of_ne {procNum other pid : Nat} (different : other ≠ procNum) :
    (procPidArr.set procNum pid)[other]? = procPidArr[other]? :=
  List.getElem?_set_ne different.symm

/-- A child takes a free slot. -/
theorem Slots.fork (slots : Slots procPidArr live) {procNum pid i : Nat}
    (free : procPidArr[procNum]? = some 0) (positive : pid ≠ 0)
    (fresh : ∀ child ∈ live, child.pid ≠ pid) :
    Slots (procPidArr.set procNum pid) (live ++ [⟨i, pid, procNum⟩]) := by
  have others := slots.ne_of_free free
  have inside : procNum < procPidArr.length := (List.getElem?_eq_some_iff.mp free).1
  constructor
  case taken =>
    intro child mem
    rcases List.mem_append.mp mem with old | new
    · rw [getElem?_set_of_ne (others child old)]
      exact slots.taken child old
    · rw [List.mem_singleton.mp new]
      exact ⟨positive, List.getElem?_set_self inside⟩
  case owned =>
    intro other otherPid found taken
    by_cases same : other = procNum
    · exact ⟨_, List.mem_append_right _ List.mem_cons_self, same.symm⟩
    · rw [getElem?_set_of_ne same] at found
      rcases slots.owned other otherPid found taken with ⟨child, isLive, isOwner⟩
      exact ⟨child, List.mem_append_left _ isLive, isOwner⟩
  case procNums =>
    rw [List.map_append, List.nodup_append_comm]
    apply List.nodup_cons.mpr
    refine ⟨?_, slots.procNums⟩
    intro mem
    rcases List.mem_map.mp mem with ⟨child, isLive, same⟩
    exact others child isLive same
  case pids =>
    rw [List.map_append, List.nodup_append_comm]
    apply List.nodup_cons.mpr
    refine ⟨?_, slots.pids⟩
    intro mem
    rcases List.mem_map.mp mem with ⟨child, isLive, same⟩
    exact fresh child isLive same

/-- The pid of a live child is found in its slot. -/
theorem Slots.idxOf?_pid (slots : Slots procPidArr live) {child : Child} (isLive : child ∈ live) :
    procPidArr.idxOf? child.pid = some child.procNum := by
  have taken := slots.taken child isLive
  rcases List.getElem?_eq_some_iff.mp taken.2 with ⟨inside, isPid⟩
  rw [List.idxOf?_eq_some_iff]
  refine ⟨inside, isPid, ?_⟩
  intro other before same
  -- an earlier slot with this pid would belong to another child with this pid
  have found : procPidArr[other]? = some child.pid := by
    rw [List.getElem?_eq_getElem (before.trans inside), same]
  rcases slots.owned other _ found taken.1 with ⟨child', isLive', rfl⟩
  have samePid : child'.pid = child.pid := by
    have taken' := (slots.taken child' isLive').2
    rw [found] at taken'
    exact (Option.some.inj taken').symm
  have sameChild := List.inj_on_of_nodup_map slots.pids isLive' isLive samePid
  rw [sameChild] at before
  exact Nat.lt_irrefl _ before

/-- The slot of a child that ended is free again. -/
theorem Slots.reap (slots : Slots procPidArr live) {child : Child} (isLive : child ∈ live) :
    Slots (procPidArr.set child.procNum 0) (live.erase child) := by
  have distinct : live.Nodup := slots.pids.of_map _
  have others : ∀ other ∈ live.erase child, other ∈ live ∧ other.procNum ≠ child.procNum := by
    intro other mem
    rcases (distinct.mem_erase_iff).mp mem with ⟨different, isOther⟩
    refine ⟨isOther, ?_⟩
    intro same
    exact different (List.inj_on_of_nodup_map slots.procNums isOther isLive same)
  have inside : child.procNum < procPidArr.length :=
    (List.getElem?_eq_some_iff.mp (slots.taken child isLive).2).1
  constructor
  case taken =>
    intro other mem
    rw [getElem?_set_of_ne (others other mem).2]
    exact slots.taken other (others other mem).1
  case owned =>
    intro other pid found taken
    by_cases same : other = child.procNum
    · rw [same, List.getElem?_set_self inside] at found
      exact absurd (Option.some.inj found).symm taken
    · rw [getElem?_set_of_ne same] at found
      rcases slots.owned other pid found taken with ⟨owner, isOwner, rfl⟩
      refine ⟨owner, distinct.mem_erase_iff.mpr ⟨?_, isOwner⟩, rfl⟩
      rintro rfl
      exact same rfl
  case procNums => exact slots.procNums.sublist ((List.erase_sublist).map _)
  case pids => exact slots.pids.sublist ((List.erase_sublist).map _)

end Slots

/-! ## Steps -/

section Steps

variable {multicore total : Nat} {parent parent' : Parent}

theorem valid_init (cores : 1 ≤ multicore) : (init multicore).Valid multicore total := by
  constructor
  case length => exact List.length_replicate
  case slots =>
    constructor
    · exact List.forall_mem_nil _
    · intro procNum pid found taken
      exact absurd (List.eq_of_mem_replicate (List.mem_of_getElem? found)) taken
    · exact List.nodup_nil
    · exact List.nodup_nil
  case running => rfl
  case few => exact Nat.zero_le _
  case history => exact List.Perm.refl _
  case room =>
    intro i atHead
    cases atHead
    exact ⟨Nat.zero_le _, cores⟩
  case inside =>
    intro i atCheck
    cases atCheck
  case idle => exact fun _ => rfl
  case fine => exact Pc.noConfusion

/-- A fork finds a free slot. -/
theorem Valid.fork_eq (valid : parent.Valid multicore total) {i : Nat}
    (atHead : parent.pc = .head i) (pid : Nat) :
    ∃ procNum, parent.procPidArr[procNum]? = some 0 ∧ parent.fork i pid =
      { parent with
        pc := .check i
        procPidArr := parent.procPidArr.set procNum pid
        numRunning := parent.numRunning + 1
        live := parent.live ++ [⟨i, pid, procNum⟩] } := by
  have few := (valid.room i atHead).2
  rw [← valid.length] at few
  rcases valid.slots.exists_free few with ⟨procNum, found⟩
  exact ⟨procNum, free_of_idxOf? found, by rw [fork, found]⟩

/-- A wait finds the slot of the child that ended. -/
theorem Valid.reap_eq (valid : parent.Valid multicore total) {child : Child}
    (isLive : child ∈ parent.live) (next : Pc) :
    parent.reap child next =
      { pc := next
        procPidArr := parent.procPidArr.set child.procNum 0
        numRunning := parent.numRunning - 1
        live := parent.live.erase child
        reaped := parent.reaped ++ [child.batch] } := by
  rw [reap, waitCheck, valid.slots.idxOf?_pid isLive]
  rfl

/-- A fork keeps the invariant. -/
theorem Valid.fork (valid : parent.Valid multicore total) {i pid : Nat}
    (atHead : parent.pc = .head i) (more : i < total) (positive : pid ≠ 0)
    (fresh : ∀ child ∈ parent.live, child.pid ≠ pid) :
    (parent.fork i pid).Valid multicore total := by
  rcases valid.fork_eq atHead pid with ⟨procNum, free, same⟩
  have length : (parent.live ++ [(⟨i, pid, procNum⟩ : Child)]).length = parent.live.length + 1 :=
    List.length_append
  rw [same]
  constructor
  case length => exact (List.length_set).trans valid.length
  case slots => exact valid.slots.fork free positive fresh
  case running =>
    rw [length]
    exact congrArg Nat.succ valid.running
  case few =>
    rw [length]
    exact (valid.room i atHead).2
  case history =>
    have history := valid.history
    rw [atHead] at history
    rw [List.map_append, ← List.append_assoc]
    change (_ ++ [i]).Perm (List.range (i + 1))
    rw [List.range_succ]
    exact history.append_right [i]
  case room =>
    intro j atHead'
    cases atHead'
  case inside =>
    intro j atCheck
    cases atCheck
    exact more
  case idle => exact Pc.noConfusion
  case fine => exact Pc.noConfusion

/-- A wait keeps the invariant. -/
theorem Valid.reap (valid : parent.Valid multicore total) {child : Child} {next : Pc}
    (isLive : child ∈ parent.live) (counts : forked total next = forked total parent.pc)
    (later : (∃ i, next = .head (i + 1) ∧ i < total) ∨ next = .drain) :
    (parent.reap child next).Valid multicore total := by
  have positive : 0 < parent.live.length := List.length_pos_of_mem isLive
  have length := List.length_erase_of_mem isLive
  rw [valid.reap_eq isLive]
  constructor
  case length => exact (List.length_set).trans valid.length
  case slots => exact valid.slots.reap isLive
  case running =>
    rw [length]
    exact congrArg Nat.pred valid.running
  case few =>
    rw [length]
    exact (Nat.pred_le _).trans valid.few
  case history =>
    rw [counts]
    have cut : (parent.live.map Child.batch).Perm
        (child.batch :: (parent.live.erase child).map Child.batch) :=
      (List.perm_cons_erase isLive).map _
    calc
      (parent.reaped ++ [child.batch] ++ (parent.live.erase child).map Child.batch).Perm
          (parent.reaped ++ (child.batch :: (parent.live.erase child).map Child.batch)) := by
        rw [List.append_assoc]
        exact List.Perm.refl _
      List.Perm _ (parent.reaped ++ parent.live.map Child.batch) := cut.symm.append_left _
      List.Perm _ (List.range (forked total parent.pc)) := valid.history
  case room =>
    intro j atHead
    rcases later with ⟨i, rfl, more⟩ | rfl
    · cases atHead
      refine ⟨more, ?_⟩
      rw [length]
      exact (Nat.pred_lt positive.ne').trans_le valid.few
    · cases atHead
  case inside =>
    intro j atCheck
    rcases later with ⟨i, rfl, _⟩ | rfl
    · cases atCheck
    · cases atCheck
  case idle =>
    intro atDone
    rcases later with ⟨i, rfl, _⟩ | rfl
    · cases atDone
    · cases atDone
  case fine =>
    rcases later with ⟨i, rfl, _⟩ | rfl
    · exact Pc.noConfusion
    · exact Pc.noConfusion

/-- A move of the parent that forks and reaps nothing. -/
theorem Valid.move (valid : parent.Valid multicore total) {next : Pc}
    (counts : forked total next = forked total parent.pc)
    (room : ∀ i, next = .head i → i ≤ total ∧ parent.live.length < multicore)
    (inside : ∀ i, next = .check i → i < total) (idle : next = .done → parent.live = [])
    (fine : next ≠ .raised) : Valid multicore total { parent with pc := next } := by
  refine ⟨valid.length, valid.slots, valid.running, valid.few, ?_, room, inside, idle, fine⟩
  rw [counts]
  exact valid.history

/-- Every step keeps the invariant. -/
theorem Valid.step (valid : parent.Valid multicore total)
    (step : Step multicore total parent parent') : parent'.Valid multicore total := by
  cases step with
  | fork atHead more positive fresh => exact valid.fork atHead more positive fresh
  | next atCheck notFull =>
      rename_i i
      apply valid.move
      · rw [atCheck]
        rfl
      · intro j isHead
        cases isHead
        refine ⟨valid.inside i atCheck, ?_⟩
        rw [valid.running] at notFull
        exact lt_of_le_of_ne valid.few notFull
      · exact fun _ => Pc.noConfusion
      · exact Pc.noConfusion
      · exact Pc.noConfusion
  | wait atCheck full ended =>
      apply valid.reap ended
      · rw [atCheck]
        rfl
      · exact Or.inl ⟨_, rfl, valid.inside _ atCheck⟩
  | leave atHead last =>
      rename_i i
      apply valid.move
      · rw [atHead]
        exact (le_antisymm (valid.room i atHead).1 (Nat.not_lt.mp last)).symm
      · exact fun _ => Pc.noConfusion
      · exact fun _ => Pc.noConfusion
      · exact Pc.noConfusion
      · exact Pc.noConfusion
  | drain atDrain running ended =>
      apply valid.reap ended
      · rw [atDrain]
      · exact Or.inr rfl
  | stop atDrain idle =>
      apply valid.move
      · rw [atDrain]
        rfl
      · exact fun _ => Pc.noConfusion
      · exact fun _ => Pc.noConfusion
      · intro _
        rw [valid.running] at idle
        exact List.length_eq_zero_iff.mp idle
      · exact Pc.noConfusion

/-- Every run keeps the invariant. -/
theorem Valid.run (valid : parent.Valid multicore total)
    (run : Run multicore total parent parent') : parent'.Valid multicore total := by
  induction run with
  | refl => exact valid
  | tail _ step inductionHypothesis => exact inductionHypothesis.step step

/-! ## Exclusive slots -/

/-- At every point of the parent: at most one child for each core is live, no exception is
raised, live children have different slots and pids and with the slots different files and
directories, every slot has a state byte, a fork finds a free slot that no live child has, a wait
has a child to wait for, and in the end every child was reaped exactly once. -/
theorem slots_exclusive {batches : Nat} (cores : 1 ≤ multicore) (out : Text)
    (run : Run multicore (batches * multicore) (init multicore) parent) :
    parent.live.length ≤ multicore ∧ parent.pc ≠ .raised ∧
      (∀ first ∈ parent.live, ∀ second ∈ parent.live, first ≠ second →
        first.pid ≠ second.pid ∧ first.procNum ≠ second.procNum ∧
        (tempFiles out first.procNum).Disjoint (tempFiles out second.procNum) ∧
        covmapDir out first.procNum ≠ covmapDir out second.procNum) ∧
      (∀ child ∈ parent.live, child.procNum < multicore) ∧
      (∀ i, parent.pc = .head i → ∃ procNum, parent.procPidArr.idxOf? 0 = some procNum ∧
        ∀ child ∈ parent.live, child.procNum ≠ procNum) ∧
      (∀ i, parent.pc = .check i → parent.numRunning = multicore → parent.live ≠ []) ∧
      (parent.pc = .drain → parent.numRunning ≠ 0 → parent.live ≠ []) ∧
      (parent.pc = .done → parent.live = [] ∧
        parent.reaped.Perm (List.range (batches * multicore))) := by
  have valid := (valid_init cores).run run
  refine ⟨valid.few, valid.fine, ?_, ?_, ?_, ?_, ?_, ?_⟩
  · intro first isFirst second isSecond different
    have slotsDiffer : first.procNum ≠ second.procNum := fun same =>
      different (List.inj_on_of_nodup_map valid.slots.procNums isFirst isSecond same)
    have pidsDiffer : first.pid ≠ second.pid := fun same =>
      different (List.inj_on_of_nodup_map valid.slots.pids isFirst isSecond same)
    exact ⟨pidsDiffer, slotsDiffer, tempFiles_disjoint out slotsDiffer,
      (covmapDir_injective out).ne slotsDiffer⟩
  · intro child isLive
    rw [← valid.length]
    exact (List.getElem?_eq_some_iff.mp (valid.slots.taken child isLive).2).1
  · intro i atHead
    have few := (valid.room i atHead).2
    rw [← valid.length] at few
    rcases valid.slots.exists_free few with ⟨procNum, found⟩
    exact ⟨procNum, found, valid.slots.ne_of_free (free_of_idxOf? found)⟩
  · intro i _ full
    apply List.ne_nil_of_length_pos
    rw [← valid.running, full]
    exact cores
  · intro _ running
    apply List.ne_nil_of_length_pos
    rw [← valid.running]
    exact Nat.pos_of_ne_zero running
  · intro atDone
    have idle := valid.idle atDone
    have history := valid.history
    rw [idle, atDone, List.map_nil, List.append_nil] at history
    exact ⟨idle, history⟩

end Steps

/-- Two children in two slots, of which the second ends first. -/
theorem run_two : Run 2 (1 * 2) (init 2) ⟨.done, [0, 0], 0, [], [1, 0]⟩ := by
  have fork0 : Step 2 2 (init 2) ⟨.check 0, [11, 0], 1, [⟨0, 11, 0⟩], []⟩ :=
    @Step.fork 2 2 (init 2) 0 11 rfl (by decide) (by decide) (by decide)
  have next0 : Step 2 2 ⟨.check 0, [11, 0], 1, [⟨0, 11, 0⟩], []⟩
      ⟨.head 1, [11, 0], 1, [⟨0, 11, 0⟩], []⟩ := .next rfl (by decide)
  have fork1 : Step 2 2 ⟨.head 1, [11, 0], 1, [⟨0, 11, 0⟩], []⟩
      ⟨.check 1, [11, 12], 2, [⟨0, 11, 0⟩, ⟨1, 12, 1⟩], []⟩ :=
    @Step.fork 2 2 ⟨.head 1, [11, 0], 1, [⟨0, 11, 0⟩], []⟩ 1 12 rfl (by decide) (by decide)
      (by decide)
  have wait1 : Step 2 2 ⟨.check 1, [11, 12], 2, [⟨0, 11, 0⟩, ⟨1, 12, 1⟩], []⟩
      ⟨.head 2, [11, 0], 1, [⟨0, 11, 0⟩], [1]⟩ :=
    @Step.wait 2 2 ⟨.check 1, [11, 12], 2, [⟨0, 11, 0⟩, ⟨1, 12, 1⟩], []⟩ 1 ⟨1, 12, 1⟩ rfl rfl
      (by decide)
  have leave : Step 2 2 ⟨.head 2, [11, 0], 1, [⟨0, 11, 0⟩], [1]⟩
      ⟨.drain, [11, 0], 1, [⟨0, 11, 0⟩], [1]⟩ := @Step.leave 2 2 _ 2 rfl (by decide)
  have drain0 : Step 2 2 ⟨.drain, [11, 0], 1, [⟨0, 11, 0⟩], [1]⟩
      ⟨.drain, [0, 0], 0, [], [1, 0]⟩ :=
    @Step.drain 2 2 ⟨.drain, [11, 0], 1, [⟨0, 11, 0⟩], [1]⟩ ⟨0, 11, 0⟩ rfl (by decide) (by decide)
  have stop : Step 2 2 ⟨.drain, [0, 0], 0, [], [1, 0]⟩ ⟨.done, [0, 0], 0, [], [1, 0]⟩ :=
    .stop rfl rfl
  exact ((((((Relation.ReflTransGen.single fork0).tail next0).tail fork1).tail wait1).tail
    leave).tail drain0).tail stop

theorem slots_exclusive_two :
    ∃ parent, Run 2 (1 * 2) (init 2) parent ∧ parent.pc = .done ∧ parent.live = [] ∧
      parent.reaped.Perm [0, 1] := by
  have exclusive := @slots_exclusive 2 _ 1 (by decide) "out".toList run_two
  rcases exclusive with ⟨_, _, _, _, _, _, _, atEnd⟩
  exact ⟨_, run_two, rfl, atEnd rfl⟩

end Parent

end Difftest.Fuzzer
