import Difftest.Data.Runs
import Difftest.Wrapper.Spacing

/-!
# The start of the payload

A program without a `main` is copied from the first instruction behind its privileged prologue.
`_find_payload_start` takes for it the start of the first sixteen instructions in a row that are
not privileged, or of the ones at the end of the scan.  A scan that ends with a privileged
instruction forgets what it saw before and falls back to the start.
-/

namespace Difftest.Wrapper

open Difftest.Host

/-! ## The scan -/

/-- `low_2_bits`. -/
def low2Bits (word byteOffset : Nat) : Nat := word >>> (byteOffset * 8) &&& 0x3

/-- `_is_privileged_instruction`. -/
def isPrivilegedInstruction (memory : Dict Nat Nat) (addr : Nat) : Bool :=
  match memory.get? (alignDown addr) with
  | none => false
  | some word =>
      let byteOffset := addr - alignDown addr
      let isCompressed := low2Bits word byteOffset ≠ 0x3
      if isCompressed then false
      else
        let insn := word >>> (byteOffset * 8) &&& 0xFFFFFFFF
        insn &&& 0x7F = 0x73

/-- The address behind an instruction in a word. -/
def nextAddr (addr word : Nat) : Nat :=
  if low2Bits word (addr - alignDown addr) = 0x3 then addr + 4 else addr + 2

def maxScan : Nat := 200

def consecutiveThreshold : Nat := 16

/-- The loop of `_find_payload_start`, with what is left of the scan, the address, the counter
and the first address that is not privileged. -/
def scanLoop (memory : Dict Nat Nat) (startAddr : Nat) : Nat → Nat → Nat → Option Nat → Nat
  | 0, _, _, firstNonPrivAddr => firstNonPrivAddr.getD startAddr
  | scan + 1, addr, consecutiveNonPriv, firstNonPrivAddr =>
      match memory.get? (alignDown addr) with
      | none => firstNonPrivAddr.getD startAddr
      | some word =>
          if isPrivilegedInstruction memory addr then
            scanLoop memory startAddr scan (nextAddr addr word) 0 none
          else if consecutiveThreshold ≤ consecutiveNonPriv + 1 then firstNonPrivAddr.getD addr
          else
            scanLoop memory startAddr scan (nextAddr addr word) (consecutiveNonPriv + 1)
              (some (firstNonPrivAddr.getD addr))

/-- `_find_payload_start`. -/
def findPayloadStart (memory : Dict Nat Nat) (startAddr : Nat) : Nat :=
  scanLoop memory startAddr maxScan startAddr 0 none

/-- The addresses of the instructions that the loop looks at. -/
def scanFrom (memory : Dict Nat Nat) : Nat → Nat → Nat → List Nat
  | 0, _, _ => []
  | scan + 1, addr, consecutiveNonPriv =>
      match memory.get? (alignDown addr) with
      | none => []
      | some word =>
          addr ::
            if isPrivilegedInstruction memory addr then scanFrom memory scan (nextAddr addr word) 0
            else if consecutiveThreshold ≤ consecutiveNonPriv + 1 then []
            else scanFrom memory scan (nextAddr addr word) (consecutiveNonPriv + 1)

/-- The scanned instructions. -/
def scanned (memory : Dict Nat Nat) (startAddr : Nat) : List Nat :=
  scanFrom memory maxScan startAddr 0

/-! ## Instructions of the image -/

/-- The instruction at an address has the opcode `SYSTEM`. -/
def IsSystem (memory : Dict Nat Nat) (addr : Nat) : Prop :=
  ∃ byte, imageByte? memory addr = some byte ∧ byte % 2 ^ 7 = 0x73

/-- The second address is that of the instruction behind the one at the first address, which has
four bytes when its two low bits are set and two otherwise. -/
def StepsTo (memory : Dict Nat Nat) (addr addr' : Nat) : Prop :=
  ∃ byte, imageByte? memory addr = some byte ∧
    addr' = addr + if byte % 2 ^ 2 = 0x3 then 4 else 2

/-- The addresses of the next instructions, so many of them or up to a missing word. -/
def instructions (memory : Dict Nat Nat) : Nat → Nat → List Nat
  | 0, _ => []
  | count + 1, addr =>
      match memory.get? (alignDown addr) with
      | none => []
      | some word => addr :: instructions memory count (nextAddr addr word)

/-- The payload starts on a clean boundary: whole instructions lead to it, and unless the scan met
`SYSTEM` instructions only, none is among the next sixteen that were scanned, or all up to the end
of the scan, and one is right in front of it. -/
structure CleanStart (memory : Dict Nat Nat) (startAddr payloadStart : Nat) : Prop where
  reached : Relation.ReflTransGen (StepsTo memory) startAddr payloadStart
  clean : (∀ addr ∈ scanned memory startAddr, IsSystem memory addr) ∨
    (∀ addr ∈ ((scanned memory startAddr).filter (payloadStart ≤ ·)).take 16,
      ¬ IsSystem memory addr) ∧
    (payloadStart ≠ startAddr → ∃ before ∈ scanned memory startAddr,
      StepsTo memory before payloadStart ∧ IsSystem memory before)

/-- The instructions within the limit of the scan are all `SYSTEM`, or sixteen others follow each
other, or the last one is not. -/
def EndsClean (memory : Dict Nat Nat) (startAddr : Nat) : Prop :=
  (∀ addr ∈ instructions memory maxScan startAddr, IsSystem memory addr) ∨
    (∃ run, run <:+: instructions memory maxScan startAddr ∧ run.length = 16 ∧
      ∀ addr ∈ run, ¬ IsSystem memory addr) ∨
    ∀ last ∈ (instructions memory maxScan startAddr).getLast?, ¬ IsSystem memory last

section Instructions

variable {memory : Dict Nat Nat}

/-- Low bits of a byte of a word. -/
theorem byteAt_mod {word offset bits : Nat} (few : bits ≤ 8) :
    byteAt word offset % 2 ^ bits = (word >>> (offset * 8)) % 2 ^ bits := by
  have divides : 2 ^ bits ∣ 256 := Nat.pow_dvd_pow 2 few
  have power : 256 ^ offset = 2 ^ (offset * 8) := by
    rw [Nat.mul_comm, Nat.pow_mul]
  rw [byteAt, Nat.mod_mod_of_dvd _ divides, power, Nat.shiftRight_eq_div_pow]

theorem sub_alignDown (addr : Nat) : addr - alignDown addr = addr % 8 := by
  rw [alignDown_eq]
  omega

theorem low2Bits_eq (word byteOffset : Nat) :
    low2Bits word byteOffset = byteAt word byteOffset % 2 ^ 2 := by
  rw [byteAt_mod (by decide), low2Bits]
  exact Nat.and_two_pow_sub_one_eq_mod _ 2

theorem imageByte?_of_word {addr word : Nat} (present : memory.get? (alignDown addr) = some word) :
    imageByte? memory addr = some (byteAt word (addr % 8)) := by
  rw [imageByte?, present, Option.map_some]

/-- The test looks at the opcode, which lies in one word also when the instruction does not. -/
theorem isPrivilegedInstruction_iff (addr : Nat) :
    isPrivilegedInstruction memory addr = true ↔ IsSystem memory addr := by
  rw [isPrivilegedInstruction, IsSystem]
  cases present : memory.get? (alignDown addr) with
  | none =>
      rw [imageByte?, present]
      simp
  | some word =>
      have opcode : (word >>> (addr % 8 * 8) &&& 0xFFFFFFFF) &&& 0x7F =
          byteAt word (addr % 8) % 2 ^ 7 := by
        rw [byteAt_mod (by decide), Nat.and_assoc]
        exact Nat.and_two_pow_sub_one_eq_mod _ 7
      rw [imageByte?_of_word present]
      simp only [sub_alignDown, low2Bits_eq, opcode]
      have low : byteAt word (addr % 8) % 2 ^ 7 = 0x73 → byteAt word (addr % 8) % 2 ^ 2 = 0x3 := by
        omega
      constructor
      · intro privileged
        split at privileged
        · cases privileged
        · exact ⟨_, rfl, of_decide_eq_true privileged⟩
      · rintro ⟨byte, isByte, system⟩
        cases isByte
        rw [if_neg (not_not.mpr (low system))]
        exact decide_eq_true system

theorem stepsTo_nextAddr {addr word : Nat} (present : memory.get? (alignDown addr) = some word) :
    StepsTo memory addr (nextAddr addr word) := by
  refine ⟨_, imageByte?_of_word present, ?_⟩
  rw [nextAddr, low2Bits_eq, sub_alignDown]
  split
  · rfl
  · rfl

theorem StepsTo.lt {addr addr' : Nat} (steps : StepsTo memory addr addr') : addr < addr' := by
  rcases steps with ⟨byte, _, rfl⟩
  split
  · omega
  · omega

theorem head_instructions {count addr first : Nat}
    (isHead : first ∈ (instructions memory count addr).head?) : first = addr := by
  cases count with
  | zero => cases isHead
  | succ count =>
      rw [instructions] at isHead
      cases present : memory.get? (alignDown addr) with
      | none =>
          rw [present] at isHead
          cases isHead
      | some word =>
          rw [present] at isHead
          exact (Option.some.inj isHead).symm

/-- The instructions follow each other. -/
theorem isChain_instructions (count addr : Nat) :
    (instructions memory count addr).IsChain (StepsTo memory) := by
  induction count generalizing addr with
  | zero => exact List.isChain_nil
  | succ count inductionHypothesis =>
      rw [instructions]
      cases present : memory.get? (alignDown addr) with
      | none => exact List.isChain_nil
      | some word =>
          apply List.isChain_cons.mpr
          refine ⟨?_, inductionHypothesis (nextAddr addr word)⟩
          intro following isHead
          rw [head_instructions isHead]
          exact stepsTo_nextAddr present

theorem pairwise_instructions (count addr : Nat) :
    (instructions memory count addr).Pairwise (· < ·) :=
  List.isChain_iff_pairwise.mp ((isChain_instructions count addr).imp fun _ _ => StepsTo.lt)

/-- Whole instructions lead to every one of them. -/
theorem reached_of_mem_instructions {count start addr : Nat}
    (mem : addr ∈ instructions memory count start) :
    Relation.ReflTransGen (StepsTo memory) start addr := by
  induction count generalizing start with
  | zero => cases mem
  | succ count inductionHypothesis =>
      rw [instructions] at mem
      cases present : memory.get? (alignDown start) with
      | none =>
          rw [present] at mem
          cases mem
      | some word =>
          rw [present] at mem
          rcases List.mem_cons.mp mem with rfl | later
          · exact Relation.ReflTransGen.refl
          · exact (inductionHypothesis later).head (stepsTo_nextAddr present)

theorem le_of_reached {start addr : Nat}
    (path : Relation.ReflTransGen (StepsTo memory) start addr) : start ≤ addr := by
  induction path with
  | refl => exact le_rfl
  | tail _ steps inductionHypothesis => exact inductionHypothesis.trans steps.lt.le

end Instructions

/-! ## What the scan finds -/

section Scan

variable {memory : Dict Nat Nat}

/-- What the scan counts. -/
def isPlain (memory : Dict Nat Nat) (addr : Nat) : Bool := !isPrivilegedInstruction memory addr

theorem isPlain_iff (addr : Nat) : isPlain memory addr = true ↔ ¬ IsSystem memory addr := by
  rw [isPlain, Bool.not_eq_true', ← isPrivilegedInstruction_iff, Bool.not_eq_true]

/-- The scanned instructions are those up to a run of sixteen. -/
theorem scanFrom_eq (run : Run Nat) (count addr : Nat) :
    scanFrom memory count addr run.count =
      Run.lookedAt (isPlain memory) consecutiveThreshold run (instructions memory count addr) := by
  induction count generalizing run addr with
  | zero => rfl
  | succ count inductionHypothesis =>
      rw [scanFrom, instructions]
      cases memory.get? (alignDown addr) with
      | none => rfl
      | some word =>
          have behind := inductionHypothesis (run.next (isPlain memory) addr) (nextAddr addr word)
          simp only [Run.lookedAt]
          rw [← behind, Run.next, isPlain]
          cases isPrivilegedInstruction memory addr with
          | true => rfl
          | false => rfl

/-- The loop returns the first address of the run at the end of what it looks at. -/
theorem scanLoop_eq (startAddr : Nat) (seen : List Nat) (count addr : Nat) :
    scanLoop memory startAddr count addr (Run.atEnd (isPlain memory) seen).count
        (Run.atEnd (isPlain memory) seen).first =
      (Run.atEnd (isPlain memory) (seen ++ Run.lookedAt (isPlain memory) consecutiveThreshold
        (Run.atEnd (isPlain memory) seen) (instructions memory count addr))).first.getD
          startAddr := by
  induction count generalizing seen addr with
  | zero => rw [scanLoop, instructions, Run.lookedAt, List.append_nil]
  | succ count inductionHypothesis =>
      rw [scanLoop, instructions]
      cases memory.get? (alignDown addr) with
      | none => simp only [Run.lookedAt, List.append_nil]
      | some word =>
          have behind := inductionHypothesis (seen ++ [addr]) (nextAddr addr word)
          rw [List.append_assoc] at behind
          simp only [Run.lookedAt, Run.next_atEnd]
          cases privileged : isPrivilegedInstruction memory addr with
          | true =>
              have forgotten : Run.atEnd (isPlain memory) (seen ++ [addr]) = ⟨0, none⟩ := by
                rw [← Run.next_atEnd, Run.next, isPlain, privileged]
                rfl
              rw [forgotten] at behind ⊢
              exact behind
          | false =>
              have counted : Run.atEnd (isPlain memory) (seen ++ [addr]) =
                  ⟨(Run.atEnd (isPlain memory) seen).count + 1,
                    some ((Run.atEnd (isPlain memory) seen).first.getD addr)⟩ := by
                rw [← Run.next_atEnd, Run.next, isPlain, privileged]
                rfl
              rw [if_neg Bool.false_ne_true]
              by_cases long :
                  consecutiveThreshold ≤ (Run.atEnd (isPlain memory) seen).count + 1
              · rw [if_pos long, if_pos (by rwa [counted]), counted, Option.getD_some]
              · rw [if_neg long, if_neg (by rwa [counted])]
                rw [counted] at behind ⊢
                exact behind

variable (memory) in
/-- The plain instructions at the end of the scan. -/
def plainTail (startAddr : Nat) : List Nat :=
  (scanned memory startAddr).rtakeWhile (isPlain memory)

theorem scanned_eq (startAddr : Nat) :
    scanned memory startAddr =
      Run.lookedAt (isPlain memory) consecutiveThreshold ⟨0, none⟩
        (instructions memory maxScan startAddr) :=
  scanFrom_eq ⟨0, none⟩ maxScan startAddr

theorem findPayloadStart_eq (startAddr : Nat) :
    findPayloadStart memory startAddr = (plainTail memory startAddr).head?.getD startAddr := by
  have final := @scanLoop_eq memory startAddr [] maxScan startAddr
  rw [plainTail, scanned_eq]
  exact final

theorem scanned_isPrefix (startAddr : Nat) :
    scanned memory startAddr <+: instructions memory maxScan startAddr := by
  rw [scanned_eq]
  exact Run.lookedAt_isPrefix _ _

/-- Without plain instructions at its end the scan was not ended by a run of them. -/
theorem scanned_of_plainTail_eq_nil {startAddr : Nat} (noTail : plainTail memory startAddr = []) :
    scanned memory startAddr = instructions memory maxScan startAddr := by
  have ends := @Run.lookedAt_eq_or _ (isPlain memory) consecutiveThreshold []
    (instructions memory maxScan startAddr)
  rw [Run.atEnd_nil, ← scanned_eq, Run.count_atEnd, List.nil_append] at ends
  rcases ends with whole | long
  · exact whole
  · rw [plainTail] at noTail
    rw [noTail] at long
    exact absurd long (by decide)

/-- Sixteen plain instructions in a row are found. -/
theorem plainTail_ne_nil_of_run {startAddr : Nat} {run : List Nat}
    (inside : run <:+: instructions memory maxScan startAddr) (length : run.length = 16)
    (plain : ∀ addr ∈ run, isPlain memory addr = true) : plainTail memory startAddr ≠ [] := by
  intro noTail
  have long := (@Run.threshold_le_count_iff _ (isPlain memory) consecutiveThreshold (by decide)
    (instructions memory maxScan startAddr)).mpr ⟨run, inside, length, plain⟩
  rw [← scanned_eq, Run.count_atEnd] at long
  rw [plainTail] at noTail
  rw [noTail] at long
  exact absurd long (by decide)

/-- The condition asks for plain instructions at the end of the scan. -/
theorem endsClean_iff (startAddr : Nat) :
    EndsClean memory startAddr ↔
      (∀ addr ∈ instructions memory maxScan startAddr, IsSystem memory addr) ∨
        plainTail memory startAddr ≠ [] := by
  rw [EndsClean]
  apply or_congr_right'
  intro notAll
  constructor
  · rintro (⟨run, inside, length, plain⟩ | lastPlain) noTail
    · exact plainTail_ne_nil_of_run inside length
        (fun addr mem => (isPlain_iff addr).mpr (plain addr mem)) noTail
    · have whole := scanned_of_plainTail_eq_nil noTail
      rw [plainTail, whole, List.rtakeWhile_eq_nil_iff] at noTail
      have nonempty : instructions memory maxScan startAddr ≠ [] := by
        intro empty
        apply notAll
        rw [empty]
        exact List.forall_mem_nil _
      apply noTail nonempty
      rw [isPlain_iff]
      exact lastPlain _ (List.getLast?_eq_some_getLast nonempty)
  · intro hasTail
    have ends := @Run.lookedAt_eq_or _ (isPlain memory) consecutiveThreshold []
      (instructions memory maxScan startAddr)
    rw [Run.atEnd_nil, ← scanned_eq, List.nil_append] at ends
    rcases ends with whole | long
    · right
      intro last isLast
      rw [plainTail, whole, Ne, List.rtakeWhile_eq_nil_iff] at hasTail
      rcases not_forall.mp hasTail with ⟨nonempty, lastPlain⟩
      rw [not_not, isPlain_iff] at lastPlain
      rw [List.getLast?_eq_some_getLast nonempty] at isLast
      rwa [← Option.some.inj isLast]
    · left
      rw [scanned_eq] at long
      rcases (Run.threshold_le_count_iff (by decide) _).mp long with ⟨run, inside, length, plain⟩
      exact ⟨run, inside, length, fun addr mem => (isPlain_iff addr).mp (plain addr mem)⟩

/-- A scan that ends with plain instructions returns the first of them. -/
theorem cleanStart_of_plainTail {startAddr : Nat} (hasTail : plainTail memory startAddr ≠ []) :
    CleanStart memory startAddr (findPayloadStart memory startAddr) := by
  rcases List.exists_cons_of_ne_nil hasTail with ⟨first, rest, isTail⟩
  have isStart : findPayloadStart memory startAddr = first := by
    rw [findPayloadStart_eq, isTail]
    rfl
  rcases @Run.exists_front _ (isPlain memory) (scanned memory startAddr) with
    ⟨front, parts, lastSystem⟩
  rw [← plainTail, isTail] at parts
  have inside := @scanned_isPrefix memory startAddr
  rw [isStart]
  constructor
  case reached =>
    apply reached_of_mem_instructions
    apply inside.mem
    rw [parts]
    exact List.mem_append_right _ List.mem_cons_self
  case clean =>
    right
    constructor
    · intro addr mem
      rw [← isPlain_iff]
      have inScan := List.mem_filter.mp (List.mem_of_mem_take mem)
      rw [parts, decide_eq_true_eq] at inScan
      rcases List.mem_append.mp inScan.1 with before | inTail
      · have sorted := (pairwise_instructions maxScan startAddr).sublist inside.sublist
        rw [parts] at sorted
        have less := (List.pairwise_append.mp sorted).2.2 addr before first List.mem_cons_self
        exact absurd inScan.2 (Nat.not_le.mpr less)
      · rw [← isTail] at inTail
        exact List.mem_rtakeWhile_imp inTail
    · intro moved
      have chain := List.IsChain.prefix (isChain_instructions maxScan startAddr) inside
      rcases List.eq_nil_or_concat' front with rfl | ⟨init, before, rfl⟩
      · rcases inside with ⟨more, whole⟩
        rw [parts] at whole
        have isHead : first ∈ (instructions memory maxScan startAddr).head? := by
          rw [← whole]
          rfl
        exact absurd (head_instructions isHead) moved
      · refine ⟨before, ?_, ?_, ?_⟩
        · rw [parts]
          exact List.mem_append_left _ (List.mem_append_right _ (List.mem_singleton_self before))
        · rw [parts, List.append_assoc] at chain
          exact (List.isChain_append_cons_cons.mp chain).2.1
        · have failed := lastSystem before List.getLast?_concat
          rw [isPlain, Bool.not_eq_false', isPrivilegedInstruction_iff] at failed
          exact failed

/-- A scan that ends otherwise returns the start, which is right only when it saw nothing else. -/
theorem cleanStart_iff_of_plainTail {startAddr : Nat} (noTail : plainTail memory startAddr = []) :
    CleanStart memory startAddr (findPayloadStart memory startAddr) ↔
      ∀ addr ∈ instructions memory maxScan startAddr, IsSystem memory addr := by
  have isStart : findPayloadStart memory startAddr = startAddr := by
    rw [findPayloadStart_eq, noTail]
    rfl
  have whole := scanned_of_plainTail_eq_nil noTail
  rw [isStart]
  constructor
  · rintro ⟨_, allSystem | ⟨plain, _⟩⟩
    · rwa [whole] at allSystem
    · have kept : (scanned memory startAddr).filter (startAddr ≤ ·) =
          instructions memory maxScan startAddr := by
        rw [whole, List.filter_eq_self]
        intro addr mem
        exact decide_eq_true (le_of_reached (reached_of_mem_instructions mem))
      rw [kept] at plain
      by_cases short : (instructions memory maxScan startAddr).length ≤ 16
      · rw [List.take_of_length_le short] at plain
        intro addr mem
        have nonempty := List.ne_nil_of_mem mem
        rw [plainTail, whole, List.rtakeWhile_eq_nil_iff] at noTail
        have lastSystem := noTail nonempty
        rw [isPlain_iff] at lastSystem
        exact absurd (plain _ (List.getLast_mem nonempty)) lastSystem
      · have length : ((instructions memory maxScan startAddr).take 16).length = 16 :=
          List.length_take_of_le (Nat.le_of_not_le short)
        exact absurd noTail (plainTail_ne_nil_of_run (List.take_prefix _ _).isInfix length
          fun addr mem => (isPlain_iff addr).mpr (plain addr mem))
  · intro allSystem
    constructor
    · exact Relation.ReflTransGen.refl
    · left
      rwa [whole]

end Scan

/-- The payload starts on a clean boundary exactly when the instructions of the scan are all
`SYSTEM`, or sixteen others follow each other, or the last one is not `SYSTEM`. -/
theorem cleanStart_iff (memory : Dict Nat Nat) (startAddr : Nat) :
    CleanStart memory startAddr (findPayloadStart memory startAddr) ↔
      EndsClean memory startAddr := by
  rw [endsClean_iff]
  by_cases noTail : plainTail memory startAddr = []
  · rw [cleanStart_iff_of_plainTail noTail]
    constructor
    · exact Or.inl
    · intro condition
      exact condition.resolve_right fun hasTail => hasTail noTail
  · constructor
    · exact fun _ => Or.inr noTail
    · exact fun _ => cleanStart_of_plainTail noTail

/-- A `nop` and a write to a control register, with nothing behind them. -/
def forgottenPrologue : Dict Nat Nat := Dict.empty.set 0x80000000 0x3000107300000013

/-- The scan forgets the `nop` and falls back to it, in front of the write. -/
theorem not_cleanStart_forgottenPrologue :
    findPayloadStart forgottenPrologue 0x80000000 = 0x80000000 ∧
      ¬ CleanStart forgottenPrologue 0x80000000 (findPayloadStart forgottenPrologue 0x80000000) := by
  have scans : scanned forgottenPrologue 0x80000000 = [0x80000000, 0x80000004] := by decide +kernel
  have system : isPrivilegedInstruction forgottenPrologue 0x80000000 = false ∧
      isPrivilegedInstruction forgottenPrologue 0x80000004 = true := by decide +kernel
  have isStart : findPayloadStart forgottenPrologue 0x80000000 = 0x80000000 := by decide +kernel
  refine ⟨isStart, ?_⟩
  rw [isStart]
  rintro ⟨_, allSystem | ⟨plain, _⟩⟩
  · rw [scans] at allSystem
    have first := (isPrivilegedInstruction_iff _).mpr (allSystem 0x80000000 List.mem_cons_self)
    rw [system.1] at first
    cases first
  · rw [scans] at plain
    exact plain 0x80000004 (by decide) ((isPrivilegedInstruction_iff _).mp system.2)

end Difftest.Wrapper
