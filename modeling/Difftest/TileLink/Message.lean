import Mathlib.Tactic
import Mathlib.Data.Nat.Bitwise

/-!
# TileLink messages

The constants of `definitions.py` and the messages of the five channels.  The
opcode of each channel is an enumeration; the other fields are the numbers read
from the ports.  Parameters stay numbers because the adapter compares them
across channels and forwards unknown ones.
-/

namespace Difftest.TileLink

/-! ## Protocols and parameters -/

def tlUL : Nat := 0
def tlUH : Nat := 1
def tlC : Nat := 2

/-- Permissions of a block as the adapter records them. -/
def permNone : Nat := 0
def branch : Nat := 1
def trunk : Nat := 2
def tip : Nat := 3

/-- Caps carried by grants and probes. -/
def toT : Nat := 0
def toB : Nat := 1
def toN : Nat := 2

/-- Grow parameters of an acquire. -/
def nToB : Nat := 0
def nToT : Nat := 1
def bToT : Nat := 2

/-- Prune parameters of a release or a probe answer. -/
def tToB : Nat := 0
def tToN : Nat := 1
def bToN : Nat := 2

/-- Report parameters of a probe answer. -/
def tToT : Nat := 3
def bToB : Nat := 4
def nToN : Nat := 5

/-- Parameters of the arithmetic messages: `MIN`, `MAX`, `MINU`, `MAXU`, `ADD`. -/
def amoMin : Nat := 0
def amoMax : Nat := 1
def amoMinu : Nat := 2
def amoMaxu : Nat := 3
def amoAdd : Nat := 4

/-- Parameters of the logical messages: `XOR`, `OR`, `AND`, `SWAP`. -/
def amoXor : Nat := 0
def amoOr : Nat := 1
def amoAnd : Nat := 2
def amoSwap : Nat := 3

/-! ## Messages -/

/-- Opcodes of channel A; every three-bit code is one of them. -/
inductive AOpcode where
  | putFullData
  | putPartialData
  | arithmeticData
  | logicalData
  | get
  | intent
  | acquireBlock
  | acquirePerm
deriving DecidableEq, Repr

/-- Opcodes of channel C; `reserved` is the code without a meaning. -/
inductive COpcode where
  | accessAck
  | accessAckData
  | hintAck
  | reserved
  | probeAck
  | probeAckData
  | release
  | releaseData
deriving DecidableEq, Repr

/-- Opcodes of channel D. -/
inductive DOpcode where
  | accessAck
  | accessAckData
  | hintAck
  | grant
  | grantData
  | releaseAck
deriving DecidableEq, Repr

/-- Opcodes of channel B the adapter sends. -/
inductive BOpcode where
  | probeBlock
  | probePerm
deriving DecidableEq, Repr

/-- One beat of channel A. -/
structure AMessage where
  opcode : AOpcode
  param : Nat
  size : Nat
  source : Nat
  address : Nat
  mask : Nat
  data : Nat
deriving DecidableEq, Repr

/-- One message of channel B. -/
structure BMessage where
  opcode : BOpcode
  param : Nat
  size : Nat
  source : Nat
  address : Nat
  mask : Nat
  data : Nat
deriving DecidableEq, Repr

/-- One beat of channel C. -/
structure CMessage where
  opcode : COpcode
  param : Nat
  size : Nat
  source : Nat
  address : Nat
  data : Nat
  corrupt : Nat
deriving DecidableEq, Repr

/-- One beat of channel D. -/
structure DMessage where
  opcode : DOpcode
  param : Nat
  size : Nat
  source : Nat
  sink : Nat
  data : Nat
  corrupt : Nat
  denied : Nat
deriving DecidableEq, Repr

/-! ## Building channel D messages

`tlDMessage.__init__` zeroes every field and then sets those its message has.
-/

def accessAck (size source : Nat) : DMessage :=
  { opcode := .accessAck, param := 0, size, source, sink := 0, data := 0, corrupt := 0, denied := 0 }

def accessAckData (size source data : Nat) : DMessage :=
  { opcode := .accessAckData, param := 0, size, source, sink := 0, data, corrupt := 0, denied := 0 }

def hintAck (size source : Nat) : DMessage :=
  { opcode := .hintAck, param := 0, size, source, sink := 0, data := 0, corrupt := 0, denied := 0 }

def grant (param size source sink : Nat) : DMessage :=
  { opcode := .grant, param, size, source, sink, data := 0, corrupt := 0, denied := 0 }

def grantData (param size source sink data : Nat) : DMessage :=
  { opcode := .grantData, param, size, source, sink, data, corrupt := 0, denied := 0 }

def releaseAck (size source : Nat) : DMessage :=
  { opcode := .releaseAck, param := 0, size, source, sink := 0, data := 0, corrupt := 0, denied := 0 }

/-! ## Protocol assertions, checked in debug mode only -/

/-- `mask & -mask`, the lowest set bit; `-mask` is `~(mask - 1)`. -/
def lowestBit (mask : Nat) : Nat := Nat.ldiff mask (mask - 1)

/-- `mask & (mask + (mask & -mask)) == 0`: the set bits of the mask are contiguous. -/
def contiguous (mask : Nat) : Bool := mask &&& (mask + lowestBit mask) = 0

/-- `addr % pow(2, size) == 0`. -/
def alignedTo (address size : Nat) : Bool := address % 2 ^ size = 0

/-- `A_assertions`; `false` is an assertion failure. -/
def aAssertions (debug : Bool) (msg : AMessage) : Bool :=
  if debug then
    match msg.opcode with
    | .get | .putFullData =>
        msg.param = 0 && alignedTo msg.address msg.size && contiguous msg.mask
    | .putPartialData => msg.param = 0 && alignedTo msg.address msg.size
    | .arithmeticData =>
        msg.param < 5 && alignedTo msg.address msg.size && contiguous msg.mask
    | .logicalData =>
        msg.param < 4 && alignedTo msg.address msg.size && contiguous msg.mask
    | .intent => msg.param < 2 && alignedTo msg.address msg.size
    | .acquireBlock | .acquirePerm =>
        msg.param ∈ [nToB, nToT, bToT] && alignedTo msg.address msg.size && contiguous msg.mask
  else true

/-- `C_assertions`; `false` is an assertion failure. -/
def cAssertions (debug : Bool) (msg : CMessage) : Bool :=
  if debug then
    match msg.opcode with
    | .probeAck | .probeAckData =>
        msg.param ∈ [tToB, tToN, bToN, tToT, bToB, nToN] && alignedTo msg.address msg.size &&
          msg.corrupt = 0
    | .release =>
        msg.param ∈ [tToB, tToN, bToN, tToT, bToB, nToN] && alignedTo msg.address msg.size
    | .releaseData => msg.param ∈ [tToB, tToN, bToN] && alignedTo msg.address msg.size
    | .accessAck | .accessAckData | .hintAck | .reserved => true
  else true

end Difftest.TileLink
