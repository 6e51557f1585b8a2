import Difftest.Firrtl.Ir

/-!
# Runs of Low FIRRTL

A run gives every signal of a module a value in every cycle and every memory a content.
It obeys each statement by itself, so nothing depends on the order of the statements.
A clock is 1 in the cycles that end with its edge.
-/

namespace Difftest.Firrtl

/-- A signal: a name, the port of an instance, or the field of a port of a memory. -/
abbrev Signal := List String

/-- The values of the signals in one cycle. -/
abbrev Env := Signal → Int

/-- The contents of the memories in one cycle. -/
abbrev Words := String → Nat → Int

/-- The signal a reference stands for. -/
def Expr.signal : Expr → Signal
  | ref name _ => [name]
  | subField expr name _ => expr.signal ++ [name]
  | _ => []

/-! ## Values -/

namespace Ty

/-- The width of a `UInt` or `SInt` type. -/
def bits : Ty → Nat
  | uint width => width
  | sint width => width
  | analog width => width
  | clock => 1
  | asyncReset => 1
  | unknown => 0

/-- The value of the type with the same low bits. -/
def fit : Ty → Int → Int
  | uint width, value => value % 2 ^ width
  | sint width, value => value.bmod (2 ^ width)
  | analog width, value => value % 2 ^ width
  | clock, value => value % 2
  | asyncReset, value => value % 2
  | unknown, value => value

end Ty

/-- The low bits of a value. -/
def lowBits (width : Nat) (value : Int) : Nat := (value % 2 ^ width).toNat

/-- The value of a comparison. -/
def truth (holds : Bool) : Int := if holds then 1 else 0

namespace PrimOp

/-- The operations with one operand of the given width. -/
def apply1 (op : PrimOp) (consts : List Nat) (width : Nat) (arg : Int) : Int :=
  match op, consts with
  | asUInt, _ => lowBits width arg
  | neg, _ => -arg
  | not, _ => -arg - 1
  | shl, [n] => arg * 2 ^ n
  | shr, [n] => arg / 2 ^ n
  | andr, _ => truth (lowBits width arg = 2 ^ width - 1)
  | orr, _ => truth (arg ≠ 0)
  | xorr, _ => (((List.range width).filter (lowBits width arg).testBit).length % 2 : Nat)
  | bits, [high, low] => lowBits (high + 1) arg / 2 ^ low
  | head, [n] => lowBits width arg / 2 ^ (width - n)
  | tail, [n] => lowBits (width - n) arg
  -- `pad`, `cvt` and the casts keep the number, up to the type of the result
  | _, _ => arg

/-- The operations with two operands, of the given widths. -/
def apply2 (op : PrimOp) (result width1 width2 : Nat) (arg1 arg2 : Int) : Int :=
  match op with
  | add | addw => arg1 + arg2
  | sub | subw => arg1 - arg2
  | mul => arg1 * arg2
  | div => arg1.tdiv arg2
  | rem => arg1.tmod arg2
  | lt => truth (arg1 < arg2)
  | leq => truth (arg1 ≤ arg2)
  | gt => truth (arg1 > arg2)
  | geq => truth (arg1 ≥ arg2)
  | eq => truth (arg1 = arg2)
  | neq => truth (arg1 ≠ arg2)
  | dshl | dshlw => arg1 * 2 ^ arg2.toNat
  | dshr => arg1 / 2 ^ arg2.toNat
  | and => (lowBits result arg1 &&& lowBits result arg2 : Nat)
  | or => (lowBits result arg1 ||| lowBits result arg2 : Nat)
  | xor => (lowBits result arg1 ^^^ lowBits result arg2 : Nat)
  | cat => lowBits width1 arg1 * 2 ^ width2 + lowBits width2 arg2
  | _ => 0

end PrimOp

/-- The value of an expression.  An invalid `validif` has the value it would have if it
were valid. -/
def Expr.eval (env : Env) : Expr → Int
  | ref name _ => env [name]
  | subField expr name _ => env (expr.signal ++ [name])
  | mux cond tval fval tpe => tpe.fit (if cond.eval env ≠ 0 then tval.eval env else fval.eval env)
  | validIf _ value tpe => tpe.fit (value.eval env)
  | uintLiteral value width => (Ty.uint width).fit value
  | sintLiteral value width => (Ty.sint width).fit value
  | doPrim1 op arg consts tpe => tpe.fit (op.apply1 consts arg.tpe.bits (arg.eval env))
  | doPrim2 op arg1 arg2 _ tpe =>
      tpe.fit (op.apply2 tpe.bits arg1.tpe.bits arg2.tpe.bits (arg1.eval env) (arg2.eval env))

/-! ## Registers -/

/-- The cycle ends with an edge of the clock. -/
def Ticks (env : Env) (clock : Expr) : Prop := clock.eval env % 2 = 1

instance (env : Env) (clock : Expr) : Decidable (Ticks env clock) :=
  inferInstanceAs (Decidable (_ = _))

namespace Register

/-- An asynchronous reset holds the register at its initial value. -/
def Forced (reg : Register) (env : Env) : Prop :=
  reg.reset.tpe = .asyncReset ∧ reg.reset.eval env ≠ 0

instance (reg : Register) (env : Env) : Decidable (reg.Forced env) :=
  inferInstanceAs (Decidable (_ ∧ _))

/-- The value of the register in the next cycle unless it is forced there. -/
def next (reg : Register) (env : Env) (expr : Expr) : Int :=
  if reg.Forced env ∨ ¬ Ticks env reg.clock then env [reg.name]
  else if reg.reset.eval env ≠ 0 then reg.tpe.fit (reg.init.eval env)
  else reg.tpe.fit (expr.eval env)

/-- The register takes the value of the expression connected to it. -/
def Follows (reg : Register) (env env' : Env) (expr : Expr) : Prop :=
  (reg.Forced env → env [reg.name] = reg.tpe.fit (reg.init.eval env)) ∧
    (¬ reg.Forced env' → env' [reg.name] = reg.next env expr)

instance (reg : Register) (env env' : Env) (expr : Expr) : Decidable (reg.Follows env env' expr) :=
  inferInstanceAs (Decidable (_ ∧ _))

end Register

/-! ## Memories -/

/-- The cycle `s` lies a number of edges before the cycle `t`. -/
def Before (ticks : Nat → Prop) : Nat → Nat → Nat → Prop
  | 0, t, s => s = t
  | n + 1, t, s => ∃ u < t, ticks u ∧ (∀ k, u < k → k < t → ¬ ticks k) ∧ Before ticks n u s

/-- One direction of a port of a memory. -/
structure MemPort where
  clock : Signal
  addr : Signal
  data : Signal
  enables : List Signal
  /-- Signals that have to be low. -/
  disables : List Signal

namespace MemPort

variable (port : MemPort)

def Ticks (env : Env) : Prop := env port.clock % 2 = 1

def Enabled (env : Env) : Prop :=
  (∀ signal ∈ port.enables, env signal ≠ 0) ∧ ∀ signal ∈ port.disables, env signal = 0

end MemPort

namespace Memory

variable (mem : Memory)

def readPort (port : String) : MemPort where
  clock := [mem.name, port, "clk"]
  addr := [mem.name, port, "addr"]
  data := [mem.name, port, "data"]
  enables := [[mem.name, port, "en"]]
  disables := []

def writePort (port : String) : MemPort where
  clock := [mem.name, port, "clk"]
  addr := [mem.name, port, "addr"]
  data := [mem.name, port, "data"]
  enables := [[mem.name, port, "en"], [mem.name, port, "mask"]]
  disables := []

def readwriteReadPort (port : String) : MemPort where
  clock := [mem.name, port, "clk"]
  addr := [mem.name, port, "addr"]
  data := [mem.name, port, "rdata"]
  enables := [[mem.name, port, "en"]]
  disables := [[mem.name, port, "wmode"]]

def readwriteWritePort (port : String) : MemPort where
  clock := [mem.name, port, "clk"]
  addr := [mem.name, port, "addr"]
  data := [mem.name, port, "wdata"]
  enables := [[mem.name, port, "en"], [mem.name, port, "wmode"], [mem.name, port, "wmask"]]
  disables := []

def readPorts : List MemPort :=
  mem.readers.map mem.readPort ++ mem.readwriters.map mem.readwriteReadPort

def writePorts : List MemPort :=
  mem.writers.map mem.writePort ++ mem.readwriters.map mem.readwriteWritePort

/-- A port reads the word at the address it had `readLatency` edges before.  If reads see
the old word then the word is delayed, else the address is. -/
def Reads (v : Nat → Env) (words : Nat → Words) (port : MemPort) : Prop :=
  ∀ t s, Before (fun t => port.Ticks (v t)) mem.readLatency t s → port.Enabled (v s) →
    ∀ addr < mem.depth, v s port.addr = (addr : Int) →
      v t port.data = words (if mem.readUnderWrite = .old then s else t) mem.name addr

/-- A port writes the word at the end of the cycle. -/
def Writes (v : Nat → Env) (t addr : Nat) (word : Int) (port : MemPort) : Prop :=
  port.Ticks (v t) ∧ ∃ s, Before (fun t => port.Ticks (v t)) (mem.writeLatency - 1) t s ∧
    port.Enabled (v s) ∧ v s port.addr = (addr : Int) ∧ word = mem.dataType.fit (v s port.data)

/-- Words change only by writes; of several writes to one word some one counts. -/
def Holds (v : Nat → Env) (words : Nat → Words) : Prop :=
  (∀ port ∈ mem.readPorts, mem.Reads v words port) ∧
    ∀ t, ∀ addr < mem.depth,
      (∃ port ∈ mem.writePorts, mem.Writes v t addr (words (t + 1) mem.name addr) port) ∨
        ((∀ port ∈ mem.writePorts, ∀ word, ¬ mem.Writes v t addr word port) ∧
          words (t + 1) mem.name addr = words t mem.name addr)

end Memory

/-! ## Modules -/

/-- The value of a declared signal is of its type. -/
def InRange (env : Env) (name : String) (tpe : Ty) : Prop := tpe.fit (env [name]) = env [name]

instance (env : Env) (name : String) (tpe : Ty) : Decidable (InRange env name tpe) :=
  inferInstanceAs (Decidable (_ = _))

/-- A statement of a module with the given registers is obeyed from one cycle to the
next.  Memories are left to `Memory.Holds`. -/
def Stmt.Holds (regs : List Register) (env env' : Env) : Stmt → Prop
  | defWire name tpe => InRange env name tpe
  | defRegister reg => InRange env reg.name reg.tpe
  | defNode name value => env [name] = value.eval env
  | connect loc expr =>
      (∀ reg ∈ regs, [reg.name] = loc.signal → reg.Follows env env' expr) ∧
        ((∀ reg ∈ regs, [reg.name] ≠ loc.signal) → env loc.signal = loc.tpe.fit (expr.eval env))
  | attach exprs => ∀ first ∈ exprs, ∀ second ∈ exprs, env first.signal = env second.signal
  | defInstance _ => True
  | defMemory _ => True
  | isInvalid _ => True
  | stop _ _ _ => True
  | print _ _ _ _ => True
  | empty => True

instance (regs : List Register) (env env' : Env) (stmt : Stmt) :
    Decidable (stmt.Holds regs env env') :=
  match stmt with
  | .defWire _ _ | .defRegister _ => inferInstanceAs (Decidable (InRange _ _ _))
  | .defNode _ _ => inferInstanceAs (Decidable (_ = _))
  | .connect _ _ => inferInstanceAs (Decidable (_ ∧ _))
  | .attach exprs => inferInstanceAs (Decidable (∀ first ∈ exprs, _))
  | .defInstance _ | .defMemory _ | .isInvalid _ | .stop _ _ _ | .print _ _ _ _ | .empty =>
      isTrue trivial

namespace Module

variable (mod : Module)

/-- The memories of a module. -/
def memories : List Memory :=
  mod.stmts.filterMap fun
    | .defMemory mem => some mem
    | _ => none

/-- The signals of a module go from one cycle to the next as its ports and statements
say. -/
def Obeys (env env' : Env) : Prop :=
  (∀ port ∈ mod.ports, InRange env port.name port.tpe) ∧
    ∀ stmt ∈ mod.stmts, stmt.Holds mod.registers env env'

instance (env env' : Env) : Decidable (mod.Obeys env env') :=
  inferInstanceAs (Decidable (_ ∧ _))

/-- The signals and memories of a module run as it says. -/
structure Runs (v : Nat → Env) (words : Nat → Words) : Prop where
  step : ∀ t, mod.Obeys (v t) (v (t + 1))
  memory : ∀ mem ∈ mod.memories, mem.Holds v words

end Module

end Difftest.Firrtl
