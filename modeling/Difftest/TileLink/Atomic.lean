import Difftest.Data.Lanes
import Difftest.TileLink.Adapter

/-!
# Atomic operations

An atomic message on a block that the adapter owns replaces the selected bytes of one bus word
by the result of the operation on these bytes.  The operands are numbers without a width in the
source; here they are bit vectors of the selected lanes.  The response carries the old bytes,
but shifted down to lane 0, while a `Get` answers with the word as it is.
-/

namespace Difftest.TileLink

/-! ## The operations -/

/-- The atomic operations of the instruction set. -/
inductive AmoOp where
  | min
  | max
  | minu
  | maxu
  | add
  | xor
  | or
  | and
  | swap
deriving DecidableEq, Repr

namespace AmoOp

/-- The message that carries the operation. -/
def opcode : AmoOp → AOpcode
  | min | max | minu | maxu | add => .arithmeticData
  | xor | or | and | swap => .logicalData

/-- Its parameter. -/
def param : AmoOp → Nat
  | min => amoMin
  | max => amoMax
  | minu => amoMinu
  | maxu => amoMaxu
  | add => amoAdd
  | xor => amoXor
  | or => amoOr
  | and => amoAnd
  | swap => amoSwap

/-- What the operation stores, from the old value and the operand. -/
def result {w : Nat} (op : AmoOp) (old operand : BitVec w) : BitVec w :=
  match op with
  | min => if old.slt operand then old else operand
  | max => if old.slt operand then operand else old
  | minu => if old.ult operand then old else operand
  | maxu => if old.ult operand then operand else old
  | add => old + operand
  | xor => old ^^^ operand
  | or => old ||| operand
  | and => old &&& operand
  | swap => operand

/-- The number that the source computes. -/
def compute (op : AmoOp) (operand1 operand2 mask : Nat) : Option Int :=
  match op.opcode with
  | .arithmeticData => arithmeticOp op.param operand1 operand2 mask
  | _ => logicalOp op.param operand1 operand2

end AmoOp

/-! ## Masks of lanes -/

section LaneMask

variable {k n : Nat}

theorem laneMask_eq (k n : Nat) : laneMask k n = (2 ^ n - 1) * 2 ^ k :=
  Nat.shiftLeft_eq _ _

/-- The lowest lane of a run of lanes. -/
theorem lowestBit_laneMask (nonempty : 0 < n) : lowestBit (laneMask k n) = 2 ^ k := by
  rcases Nat.exists_eq_succ_of_ne_zero nonempty.ne' with ⟨n, rfl⟩
  have low : 2 ^ k - 1 < 2 ^ k := Nat.sub_lt (by positivity) (by decide)
  have before : laneMask k (n + 1) - 1 = 2 ^ k * (2 * (2 ^ n - 1)) + (2 ^ k - 1) := by
    have one : 1 ≤ 2 ^ n := Nat.one_le_two_pow
    have one' : 1 ≤ 2 ^ k := Nat.one_le_two_pow
    have mask : laneMask k (n + 1) = 2 ^ k * (2 * (2 ^ n - 1)) + 2 ^ k := by
      have lanes : 2 ^ (n + 1) - 1 = 2 * (2 ^ n - 1) + 1 := by
        rw [Nat.pow_succ]
        omega
      rw [laneMask_eq, lanes]
      ring
    rw [mask]
    omega
  apply Nat.eq_of_testBit_eq
  intro i
  rw [lowestBit, Nat.testBit_ldiff, before, testBit_laneMask, Nat.testBit_two_pow_mul_add _ low,
    Nat.testBit_two_pow_sub_one, Nat.testBit_two_pow]
  rcases lt_trichotomy i k with below | rfl | above
  · simp [below, below.ne', Nat.not_le.mpr below]
  · simp
  · rcases Nat.exists_eq_add_of_lt above with ⟨j, rfl⟩
    have shifted : k + j + 1 - k = j + 1 := by omega
    have inside : k + j + 1 < k + (n + 1) ↔ j < n := by omega
    rw [shifted, Nat.mul_comm 2, Nat.testBit_succ]
    simp [inside, above.ne, Nat.not_lt.mpr above.le]

theorem log2_lowestBit_laneMask (nonempty : 0 < n) :
    8 * Nat.log2 (lowestBit (laneMask k n)) = 8 * k := by
  rw [lowestBit_laneMask nonempty, Nat.log2_two_pow]

/-- The loop over the mask counts its lanes. -/
theorem sizeOpLoop_laneMask {fuel : Nat} (enough : k + n ≤ fuel) :
    sizeOpLoop fuel (laneMask k n) = 8 * n := by
  induction fuel generalizing k n with
  | zero =>
      have none : n = 0 := by omega
      rw [none]
      rfl
  | succ fuel inductionHypothesis =>
      rw [sizeOpLoop]
      cases n with
      | zero => simp [laneMask]
      | succ n =>
          have one : 1 ≤ 2 ^ n := Nat.one_le_two_pow
          have lanes : 2 ^ (n + 1) - 1 = 2 * (2 ^ n - 1) + 1 := by
            rw [Nat.pow_succ]
            omega
          cases k with
          | zero =>
              have mask : laneMask 0 (n + 1) = 2 * laneMask 0 n + 1 := by
                rw [laneMask_eq, laneMask_eq, lanes, Nat.pow_zero, Nat.mul_one, Nat.mul_one]
              have rest := @inductionHypothesis 0 n (by omega)
              have half : (2 * laneMask 0 n + 1) / 2 = laneMask 0 n := by omega
              rw [mask, half, rest, if_pos (Nat.le_add_left 1 _), if_neg (by omega)]
              ring
          | succ k =>
              have mask : laneMask (k + 1) (n + 1) = 2 * laneMask k (n + 1) := by
                rw [laneMask_eq, laneMask_eq, Nat.pow_succ 2 k]
                ring
              have positive : 0 < laneMask k (n + 1) := by
                rw [laneMask_eq, lanes]
                positivity
              have rest := @inductionHypothesis k (n + 1) (by omega)
              have half : 2 * laneMask k (n + 1) / 2 = laneMask k (n + 1) := by omega
              rw [mask, half, rest, if_pos (by omega), if_pos (by omega)]

theorem sizeOp_laneMask (nonempty : 0 < n) : sizeOp (laneMask k n) = 8 * n := by
  apply sizeOpLoop_laneMask
  have lanes : n < 2 ^ n := Nat.lt_two_pow_self
  have shift : k < 2 ^ k := Nat.lt_two_pow_self
  calc
    k + n ≤ n * (k + 1) := by nlinarith
    _ ≤ (2 ^ n - 1) * 2 ^ k := Nat.mul_le_mul (by omega) (by omega)
    _ = laneMask k n := (laneMask_eq k n).symm

/-- The bit mask of a run of lanes selects the bits of these lanes. -/
theorem selects_bitMask (k n : Nat) : Selects (bitMask (laneMask k n)) k n := by
  intro i
  have parts : 8 * (i / 8) + i % 8 = i := Nat.div_add_mod i 8
  have bit := testBit_bitMask (laneMask k n) (i / 8) (Nat.mod_lt i (by decide : 8 > 0))
  rw [parts, testBit_laneMask] at bit
  rw [bit]
  have low : k ≤ i / 8 ↔ 8 * k ≤ i := by omega
  have high : i / 8 < k + n ↔ i < 8 * (k + n) := by omega
  simp only [low, high]

end LaneMask

/-! ## Numbers and bit vectors -/

/-- The signed value that the source computes by hand is the value of the bit vector. -/
theorem signedOp_toNat {w : Nat} (x : BitVec w) :
    signedOp w x.toNat = x.toInt := by
  have msb : x.toNat.testBit (w - 1) = x.msb := by
    rw [BitVec.testBit_toNat, BitVec.msb_eq_getLsbD_last]
  rw [signedOp, msb, BitVec.toInt_eq_msb_cond]
  cases isMsb : x.msb with
  | false => rfl
  | true =>
      rw [if_pos rfl, if_pos rfl]
      have half := BitVec.msb_eq_decide x
      rw [isMsb, eq_comm, decide_eq_true_eq] at half
      have below := x.isLt
      have positive : 0 < 2 ^ (w - 1) := by positivity
      have wrapped : (-(x.toNat : Int)) % 2 ^ w = 2 ^ w - x.toNat := by
        have cast : ((2 ^ w : Nat) : Int) = 2 ^ w := by push_cast; rfl
        rw [← Int.add_emod_right, Int.emod_eq_of_lt]
        · ring
        · omega
        · omega
      rw [wrapped]
      push_cast
      ring

/-- A value of at most 64 bits passes the mask of the unsigned operations. -/
theorem toNat_and_mask {w : Nat} (narrow : w ≤ 64) (x : BitVec w) :
    x.toNat &&& 0xffffffffffffffff = x.toNat := by
  have below : x.toNat < 2 ^ 64 := x.isLt.trans_le (Nat.pow_le_pow_right (by decide) narrow)
  rw [show (0xffffffffffffffff : Nat) = 2 ^ 64 - 1 by norm_num, Nat.and_two_pow_sub_one_eq_mod,
    Nat.mod_eq_of_lt below]

/-- The source computes the result of the operation, up to the bits that are cut off. -/
theorem AmoOp.compute_eq (op : AmoOp) {k n : Nat} (nonempty : 0 < n) (narrow : 8 * n ≤ 64)
    (old operand : BitVec (8 * n)) :
    ∃ value, op.compute operand.toNat old.toNat (laneMask k n) = some value ∧
      BitVec.ofInt (8 * n) value = op.result old operand := by
  have ofNat_toNat : ∀ x : BitVec (8 * n), BitVec.ofInt (8 * n) (x.toNat : Int) = x := by
    intro x
    rw [BitVec.ofInt_natCast, BitVec.ofNat_toNat, BitVec.setWidth_eq]
  have signed : old.slt operand = true ↔ old.toInt < operand.toInt := BitVec.slt_iff_toInt_lt
  have unsigned : old.ult operand = true ↔ old.toNat < operand.toNat := BitVec.ult_iff_lt
  have same : ∀ x : BitVec (8 * n), BitVec.ofInt (8 * n) x.toInt = x := fun x => BitVec.ofInt_toInt
  cases op with
  | min =>
      refine ⟨Min.min operand.toInt old.toInt, ?_, ?_⟩
      · simp [compute, opcode, param, arithmeticOp, sizeOp_laneMask nonempty, signedOp_toNat]
      · rw [result]
        split
        · rename_i less
          rw [min_eq_right (signed.mp less).le, same]
        · rename_i notLess
          rw [min_eq_left (not_lt.mp fun less => notLess (signed.mpr less)), same]
  | max =>
      refine ⟨Max.max operand.toInt old.toInt, ?_, ?_⟩
      · simp [compute, opcode, param, arithmeticOp, sizeOp_laneMask nonempty, signedOp_toNat,
          amoMin, amoMax]
      · rw [result]
        split
        · rename_i less
          rw [max_eq_left (signed.mp less).le, same]
        · rename_i notLess
          rw [max_eq_right (not_lt.mp fun less => notLess (signed.mpr less)), same]
  | minu =>
      refine ⟨(Min.min operand.toNat old.toNat : Nat), ?_, ?_⟩
      · simp only [compute, opcode, param, arithmeticOp, toNat_and_mask narrow]
        rfl
      · rw [result]
        split
        · rename_i less
          rw [min_eq_right (unsigned.mp less).le, ofNat_toNat]
        · rename_i notLess
          rw [min_eq_left (not_lt.mp fun less => notLess (unsigned.mpr less)), ofNat_toNat]
  | maxu =>
      refine ⟨(Max.max operand.toNat old.toNat : Nat), ?_, ?_⟩
      · simp only [compute, opcode, param, arithmeticOp, toNat_and_mask narrow]
        rfl
      · rw [result]
        split
        · rename_i less
          rw [max_eq_left (unsigned.mp less).le, ofNat_toNat]
        · rename_i notLess
          rw [max_eq_right (not_lt.mp fun less => notLess (unsigned.mpr less)), ofNat_toNat]
  | add =>
      refine ⟨operand.toInt + old.toInt, ?_, ?_⟩
      · simp [compute, opcode, param, arithmeticOp, sizeOp_laneMask nonempty, signedOp_toNat,
          amoMin, amoMax, amoMinu, amoMaxu, amoAdd]
      · rw [BitVec.ofInt_add, same, same, BitVec.add_comm]
        rfl
  | xor =>
      refine ⟨(operand.toNat ^^^ old.toNat : Nat), rfl, ?_⟩
      rw [← BitVec.toNat_xor, ofNat_toNat, BitVec.xor_comm]
      rfl
  | or =>
      refine ⟨(operand.toNat ||| old.toNat : Nat), rfl, ?_⟩
      rw [← BitVec.toNat_or, ofNat_toNat, BitVec.or_comm]
      rfl
  | and =>
      refine ⟨(operand.toNat &&& old.toNat : Nat), rfl, ?_⟩
      rw [← BitVec.toNat_and, ofNat_toNat, BitVec.and_comm]
      rfl
  | swap => exact ⟨operand.toNat, rfl, ofNat_toNat operand⟩

/-! ## Messages -/

/-- The address of the bus word that a message is about. -/
def wordAddr (config : Config) (s : State) (msg : AMessage) : Nat :=
  beatAddr config s.aOngoings msg.source msg.address

/-- An atomic message on `n` lanes of a word from lane `k` on that the adapter accepts and
answers itself: the assertions of the source hold, the word has at most 64 bits, and the block
is the adapter's. -/
structure Accepts (config : Config) (s : State) (op : AmoOp) (k n : Nat) (msg : AMessage) :
    Prop where
  drive : s.drive = true
  protocol : tlUH ≤ config.protocol
  narrow : config.dataLen ≤ 64
  opcode : msg.opcode = op.opcode
  param : msg.param = op.param
  assertions : aAssertions config.debug msg = true
  inOrder : notInterleaved s.aOngoings msg.source = true
  oneBeat : config.burstLen msg.size = 1
  isTip : s.perm (config.blockAddr msg.address) = tip
  mask : msg.mask = laneMask k n
  nonempty : 0 < n
  inside : 8 * (k + n) ≤ config.dataLen

section Message

variable {config : Config} {s : State} {op : AmoOp} {k n : Nat} {msg : AMessage}

theorem Accepts.mask_ne_zero (accepts : Accepts config s op k n msg) : msg.mask ≠ 0 := by
  intro zero
  have bit := testBit_laneMask k n k
  rw [← accepts.mask, zero, Nat.zero_testBit] at bit
  simp [accepts.nonempty] at bit

/-- What the branch of an accepted message does, given the value that the operation computes. -/
theorem Accepts.atomicData_eq (accepts : Accepts config s op k n msg)
    {f : Nat → Nat → Option Int}
    {callback : (operand1 burstLen addrAligned bitMask offset size source : Nat) → Callback}
    {value : Int}
    (isValue : f (lanes k n msg.data).toNat (lanes k n (s.word (wordAddr config s msg))).toNat =
      some value) :
    atomicData config f callback msg (s.enterBlock (config.blockAddr msg.address)) =
      some (((s.enterBlock (config.blockAddr msg.address)).store
        (wordAddr config s msg)
        (splice (bitMask msg.mask) (s.word (wordAddr config s msg))
          (placeResult config value (8 * k)))).pushD
        [(some (accessAckData msg.size msg.source
          (lanes k n (s.word (wordAddr config s msg))).toNat), none)]) := by
  have selects := selects_bitMask k n
  have single : ¬ (config.burstLen msg.size ≠ 1 ∨ msg.mask = 0) := by
    rintro (several | empty)
    · exact several accepts.oneBeat
    · exact accepts.mask_ne_zero empty
  have held : ¬ (s.enterBlock (config.blockAddr msg.address)).perm
      (config.blockAddr msg.address) ≠ tip := by
    rw [State.perm_enterBlock]
    exact not_not.mpr accepts.isTip
  rw [atomicData]
  dsimp only
  rw [if_neg single, if_neg held, accepts.mask, log2_lowestBit_laneMask accepts.nonempty,
    selects.shiftRight, selects.shiftRight, State.word_enterBlock]
  change (f (lanes k n msg.data).toNat (lanes k n (s.word (wordAddr config s msg))).toNat).map _ = _
  rw [isValue]
  rfl

/-- The turn of `a_port_monitor` for an atomic message. -/
theorem Accepts.step_eq (accepts : Accepts config s op k n msg) :
    ∃ value : Int,
      BitVec.ofInt (8 * n) value =
        op.result (lanes k n (s.word (wordAddr config s msg)))
          (lanes k n msg.data) ∧
      step config s (.aFire msg) =
        some (((s.enterBlock (config.blockAddr msg.address)).store
          (wordAddr config s msg)
          (splice (bitMask msg.mask) (s.word (wordAddr config s msg))
            (placeResult config value (8 * k)))).pushD
          [(some (accessAckData msg.size msg.source
            (lanes k n (s.word (wordAddr config s msg))).toNat), none)]) := by
  have narrow : 8 * n ≤ 64 := by
    have inside := accepts.inside
    have bus := accepts.narrow
    omega
  rcases @AmoOp.compute_eq op k n accepts.nonempty narrow
    (lanes k n (s.word (wordAddr config s msg)))
    (lanes k n msg.data) with ⟨value, computes, isResult⟩
  refine ⟨value, isResult, ?_⟩
  rw [step, if_pos accepts.drive, aPortMonitor, if_pos ⟨accepts.assertions, accepts.inOrder⟩]
  dsimp only
  rw [AmoOp.compute] at computes
  rw [accepts.opcode]
  cases isOpcode : op.opcode with
  | arithmeticData =>
      rw [isOpcode] at computes
      dsimp only
      rw [if_pos accepts.protocol, arithmeticData]
      apply accepts.atomicData_eq
      rw [accepts.param, accepts.mask]
      exact computes
  | logicalData =>
      rw [isOpcode] at computes
      dsimp only
      rw [if_pos accepts.protocol, logicalData]
      apply accepts.atomicData_eq
      rw [accepts.param]
      exact computes
  | putFullData => cases op <;> cases isOpcode
  | putPartialData => cases op <;> cases isOpcode
  | get => cases op <;> cases isOpcode
  | intent => cases op <;> cases isOpcode
  | acquireBlock => cases op <;> cases isOpcode
  | acquirePerm => cases op <;> cases isOpcode

/-- An accepted atomic message replaces the selected lanes of its word by the result of the
operation and changes nothing else in memory. -/
theorem atomic_updates (accepts : Accepts config s op k n msg) :
    ∃ s', step config s (.aFire msg) = some s' ∧
      lanes k n (s'.word (wordAddr config s msg)) =
        op.result (lanes k n (s.word (wordAddr config s msg))) (lanes k n msg.data) ∧
      (∀ i, ¬ (8 * k ≤ i ∧ i < 8 * (k + n)) →
        (s'.word (wordAddr config s msg)).testBit i =
          (s.word (wordAddr config s msg)).testBit i) ∧
      ∀ other, other ≠ wordAddr config s msg → s'.word other = s.word other := by
  rcases accepts.step_eq with ⟨value, isResult, stepped⟩
  have selects := selects_bitMask k n
  refine ⟨_, stepped, ?_⟩
  rw [State.word_pushD, State.word_store, State.word_enterBlock]
  dsimp only
  rw [if_pos rfl, accepts.mask]
  refine ⟨?_, ?_, ?_⟩
  · rw [selects.lanes_splice, placeResult, lanes_shifted accepts.inside, isResult]
  · intro i outside
    exact selects.testBit_splice _ _ outside
  · intro other apart
    exact if_neg apart

/-- `amoadd.w` on the upper half of a word. -/
def addUpper : AMessage where
  opcode := .arithmeticData
  param := amoAdd
  size := 2
  source := 0
  address := 0x80000004
  mask := 0xf0
  data := 0x100000000

/-- The adapter after it was started on one word. -/
def oneWord : State :=
  (State.init []).start tileConfig (Dict.empty.set 0x80000000 0xffffffff00000001)

theorem accepts_addUpper : Accepts tileConfig oneWord .add 4 4 addUpper where
  drive := rfl
  protocol := by decide
  narrow := by decide
  opcode := rfl
  param := rfl
  assertions := rfl
  inOrder := rfl
  oneBeat := rfl
  isTip := by decide +kernel
  mask := rfl
  nonempty := by decide
  inside := by decide

theorem atomic_updates_addUpper :
    ∃ s', step tileConfig oneWord (.aFire addUpper) = some s' ∧
      lanes 4 4 (s'.word (wordAddr tileConfig oneWord addUpper)) =
        AmoOp.add.result (lanes 4 4 (oneWord.word (wordAddr tileConfig oneWord addUpper)))
          (lanes 4 4 addUpper.data) ∧
      (∀ i, ¬ (8 * 4 ≤ i ∧ i < 8 * (4 + 4)) →
        (s'.word (wordAddr tileConfig oneWord addUpper)).testBit i =
          (oneWord.word (wordAddr tileConfig oneWord addUpper)).testBit i) ∧
      ∀ other, other ≠ wordAddr tileConfig oneWord addUpper → s'.word other = oneWord.word other :=
  atomic_updates accepts_addUpper

/-! ## Responses -/

/-- The `Get` of the same address and size. -/
def AMessage.asGet (msg : AMessage) : AMessage := { msg with opcode := .get, param := 0 }

/-- The `Get` is accepted, too, and answered with the word. -/
theorem Accepts.step_asGet (accepts : Accepts config s op k n msg)
    (between : s.aOngoings.getD msg.source 0 = 0) :
    ∃ read, step config s (.aFire msg.asGet) = some read ∧
      read.dQueue = s.dQueue ++
        [(some (accessAckData msg.size msg.source (s.word (wordAddr config s msg))), none)] := by
  have assertions : aAssertions config.debug msg.asGet = true := by
    have passed := accepts.assertions
    rw [aAssertions] at passed ⊢
    cases isDebug : config.debug with
    | false => rfl
    | true =>
        rw [isDebug, accepts.opcode] at passed
        cases op <;> simp_all [AmoOp.opcode, AMessage.asGet]
  have held : ¬ (s.enterBlock (config.blockAddr msg.address)).perm
      (config.blockAddr msg.address) ≠ tip := by
    rw [State.perm_enterBlock]
    exact not_not.mpr accepts.isTip
  have addr : wordAddr config s msg = config.addrAligned msg.address := by
    rw [wordAddr, beatAddr, between, Nat.zero_mul, Nat.add_zero]
  rcases State.pushWords_eq config (accessAckData msg.size msg.source) none 1
    (config.addrAligned msg.address) (s.enterBlock (config.blockAddr msg.address))
    with ⟨memory, _, pushed⟩
  refine ⟨((s.enterBlock (config.blockAddr msg.address)).setMemory memory).pushD
    (wordEntries config (accessAckData msg.size msg.source) none 1
      (config.addrAligned msg.address) (s.enterBlock (config.blockAddr msg.address)).word), ?_, ?_⟩
  · rw [step, if_pos accepts.drive, aPortMonitor, if_pos ⟨assertions, accepts.inOrder⟩, ← pushed]
    change getData config msg.asGet (s.enterBlock (config.blockAddr msg.address)) = _
    have heldGet : ¬ (s.enterBlock (config.blockAddr msg.address)).perm
        (config.blockAddr msg.asGet.address) ≠ tip := held
    have oneBeat : config.burstLen msg.asGet.size = 1 := accepts.oneBeat
    rw [getData]
    rw [if_neg heldGet, oneBeat]
    rfl
  · rw [wordEntries_eq_map, addr, State.word_enterBlock]
    simp [State.pushD, State.setMemory, State.enterBlock]

/-- The shifted lanes agree with the word in its lanes only when nothing is shifted or nothing
is there. -/
theorem shifted_agrees_iff {word : Nat} :
    (∀ i, (bitMask (laneMask k n)).testBit i = true →
      (lanes k n word).toNat.testBit i = word.testBit i) ↔ k = 0 ∨ lanes k n word = 0#(8 * n) := by
  have shifted : ∀ i, (lanes k n word).toNat.testBit i =
      (decide (i < 8 * n) && word.testBit (8 * k + i)) := by
    intro i
    rw [BitVec.testBit_toNat, getLsbD_lanes]
  constructor
  · intro agree
    rcases Nat.eq_zero_or_pos k with isZero | positive
    · exact Or.inl isZero
    · right
      rw [lanes_eq_zero_iff]
      -- a set bit would be the copy of a set bit `8 * k` places above it
      have clear : ∀ j i, 8 * (k + n) ≤ i + j → 8 * k ≤ i → i < 8 * (k + n) →
          word.testBit i = false := by
        intro j
        induction j with
        | zero =>
            intro i above _ high
            omega
        | succ j inductionHypothesis =>
            intro i above low high
            have same := agree i (by rw [selects_bitMask]; simp [low, high])
            rw [← same, shifted]
            by_cases inside : i < 8 * n
            · rw [inductionHypothesis (8 * k + i) (by omega) (by omega) (by omega), Bool.and_false]
            · rw [decide_eq_false inside, Bool.false_and]
      intro i low high
      exact clear (8 * (k + n)) i (by omega) low high
  · intro condition i selected
    rw [selects_bitMask, Bool.and_eq_true, decide_eq_true_eq, decide_eq_true_eq] at selected
    rcases condition with rfl | zero
    · have inside : i < 8 * n := by omega
      rw [shifted, decide_eq_true inside, Nat.mul_zero, Nat.zero_add, Bool.true_and]
    · rw [zero, lanes_eq_zero_iff.mp zero i selected.1 selected.2]
      simp

/-- The response of an atomic message has the same selected lanes as that of a `Get` exactly
when the lanes start at lane 0 or all of their bytes are zero. -/
theorem atomic_response_iff (accepts : Accepts config s op k n msg)
    (between : s.aOngoings.getD msg.source 0 = 0) :
    ∃ s' read answer answer', step config s (.aFire msg) = some s' ∧
      step config s (.aFire msg.asGet) = some read ∧
      s'.dQueue = s.dQueue ++ [(some answer, none)] ∧
      read.dQueue = s.dQueue ++ [(some answer', none)] ∧
      ((∀ i, (bitMask msg.mask).testBit i = true →
          answer.data.testBit i = answer'.data.testBit i) ↔
        k = 0 ∨ lanes k n (s.word (wordAddr config s msg)) = 0#(8 * n)) := by
  rcases accepts.step_eq with ⟨value, _, stepped⟩
  rcases accepts.step_asGet between with ⟨read, isRead, queue⟩
  refine ⟨_, read, _, _, stepped, isRead, rfl, queue, ?_⟩
  rw [accepts.mask]
  exact shifted_agrees_iff

theorem atomic_response_iff_addUpper :
    ∃ s' read answer answer', step tileConfig oneWord (.aFire addUpper) = some s' ∧
      step tileConfig oneWord (.aFire addUpper.asGet) = some read ∧
      s'.dQueue = oneWord.dQueue ++ [(some answer, none)] ∧
      read.dQueue = oneWord.dQueue ++ [(some answer', none)] ∧
      ((∀ i, (bitMask addUpper.mask).testBit i = true →
          answer.data.testBit i = answer'.data.testBit i) ↔
        4 = 0 ∨ lanes 4 4 (oneWord.word (wordAddr tileConfig oneWord addUpper)) = 0#(8 * 4)) :=
  atomic_response_iff accepts_addUpper rfl

/-- The core loads the old upper half from the upper lanes, where it finds zeros. -/
theorem atomic_response_shifted :
    (step tileConfig oneWord (.aFire addUpper)).map (fun s => s.dQueue) =
        some [(some (accessAckData 2 0 0xffffffff), none)] ∧
      (step tileConfig oneWord (.aFire addUpper.asGet)).map (fun s => s.dQueue) =
        some [(some (accessAckData 2 0 0xffffffff00000001), none)] ∧
      ¬ ∀ i, (bitMask addUpper.mask).testBit i = true →
        (0xffffffff : Nat).testBit i = (0xffffffff00000001 : Nat).testBit i := by
  refine ⟨by decide +kernel, by decide +kernel, ?_⟩
  intro agree
  have selected : (bitMask addUpper.mask).testBit 32 = true := by decide +kernel
  exact absurd (agree 32 selected) (by decide)

end Message

end Difftest.TileLink
