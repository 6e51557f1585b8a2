import Mathlib.Tactic

/-!
# Low FIRRTL

The part of the intermediate representation that reaches the instrumentation: after
lowering there are no bundles but those of instances and memories, no vectors, no
`when` and no partial connects, and every width is known.  The source locations are
kept on registers only, where a pass reads them.
-/

namespace Difftest.Firrtl

/-! ## Expressions -/

/-- Types of references.  The bundles of instances and memories are not kept: their
references and the fields the passes add to them have type `unknown`. -/
inductive Ty where
  | uint (width : Nat)
  | sint (width : Nat)
  | clock
  | asyncReset
  | analog (width : Nat)
  | unknown
deriving DecidableEq, Repr

/-- The primitive operations of `PrimOps` and `WIR`. -/
inductive PrimOp where
  | add | sub | mul | div | rem
  | lt | leq | gt | geq | eq | neq
  | pad | asUInt | asSInt | asClock | asAsyncReset
  | cvt | neg | not
  | shl | shr | dshl | dshr
  | and | or | xor | andr | orr | xorr
  | cat | bits | head | tail
  | addw | subw | dshlw
deriving DecidableEq, Repr

/-- Expressions.  Every primitive operation takes one or two operands. -/
inductive Expr where
  | ref (name : String) (tpe : Ty)
  | subField (expr : Expr) (name : String) (tpe : Ty)
  | mux (cond tval fval : Expr) (tpe : Ty)
  | validIf (cond value : Expr) (tpe : Ty)
  | uintLiteral (value width : Nat)
  | sintLiteral (value : Int) (width : Nat)
  | doPrim1 (op : PrimOp) (arg : Expr) (consts : List Nat) (tpe : Ty)
  | doPrim2 (op : PrimOp) (arg1 arg2 : Expr) (consts : List Nat) (tpe : Ty)
deriving DecidableEq, Repr

/-- A multiplexer, as the graph keeps it. -/
structure Mux where
  cond : Expr
  tval : Expr
  fval : Expr
  tpe : Ty
deriving DecidableEq, Repr

namespace Expr

/-- The type an expression carries. -/
def tpe : Expr → Ty
  | ref _ tpe => tpe
  | subField _ _ tpe => tpe
  | mux _ _ _ tpe => tpe
  | validIf _ _ tpe => tpe
  | uintLiteral _ width => .uint width
  | sintLiteral _ width => .sint width
  | doPrim1 _ _ _ tpe => tpe
  | doPrim2 _ _ _ _ tpe => tpe

/-- Names an expression reads, in selects and elsewhere. -/
def reads : Expr → List String
  | ref name _ => [name]
  | subField expr _ _ => expr.reads
  | mux cond tval fval _ => cond.reads ++ tval.reads ++ fval.reads
  | validIf cond value _ => cond.reads ++ value.reads
  | uintLiteral _ _ => []
  | sintLiteral _ _ => []
  | doPrim1 _ arg _ _ => arg.reads
  | doPrim2 _ arg1 arg2 _ _ => arg1.reads ++ arg2.reads

/-- The text of a reference; a location is a reference or a field of one. -/
def serialize : Expr → String
  | ref name _ => name
  | subField expr name _ => expr.serialize ++ "." ++ name
  | _ => ""

/-- No `validif` occurs in the expression. -/
def plain : Expr → Bool
  | ref _ _ => true
  | subField expr _ _ => expr.plain
  | mux cond tval fval _ => cond.plain && tval.plain && fval.plain
  | validIf _ _ _ => false
  | uintLiteral _ _ => true
  | sintLiteral _ _ => true
  | doPrim1 _ arg _ _ => arg.plain
  | doPrim2 _ arg1 arg2 _ _ => arg1.plain && arg2.plain

end Expr

/-! ## Statements -/

/-- The locations an `Info` lists; `NoInfo` lists none. -/
abbrev Info := List String

/-- `DefRegister`. -/
structure Register where
  info : Info
  name : String
  tpe : Ty
  clock : Expr
  reset : Expr
  init : Expr
deriving DecidableEq, Repr

/-- `WDefInstance`. -/
structure Instance where
  name : String
  module : String
deriving DecidableEq, Repr

/-- `ReadUnderWrite`. -/
inductive ReadUnderWrite where
  | undefined
  | old
  | new
deriving DecidableEq, Repr

/-- `DefMemory`. -/
structure Memory where
  name : String
  dataType : Ty
  depth : Nat
  writeLatency : Nat
  readLatency : Nat
  readers : List String
  writers : List String
  readwriters : List String
  readUnderWrite : ReadUnderWrite
deriving DecidableEq, Repr

/-- Statements other than blocks. -/
inductive Stmt where
  | defWire (name : String) (tpe : Ty)
  | defRegister (reg : Register)
  | defInstance (inst : Instance)
  | defMemory (mem : Memory)
  | defNode (name : String) (value : Expr)
  | connect (loc expr : Expr)
  | isInvalid (expr : Expr)
  | attach (exprs : List Expr)
  | stop (ret : Int) (clk en : Expr)
  | print (string : String) (args : List Expr) (clk en : Expr)
  | empty
deriving DecidableEq, Repr

/-- A statement or a block of them. -/
inductive Tree where
  | stmt (stmt : Stmt)
  | block (stmts : List Tree)

namespace Tree

mutual

/-- The statements in the order of a traversal. -/
def leaves : Tree → List Stmt
  | stmt leaf => [leaf]
  | block trees => leavesAll trees

/-- The statements of a list of trees. -/
def leavesAll : List Tree → List Stmt
  | [] => []
  | tree :: trees => leaves tree ++ leavesAll trees

end

mutual

/-- `mapStmt` down to the statements. -/
def map (f : Stmt → Stmt) : Tree → Tree
  | stmt leaf => stmt (f leaf)
  | block trees => block (mapAll f trees)

/-- `map` over a list of trees. -/
def mapAll (f : Stmt → Stmt) : List Tree → List Tree
  | [] => []
  | tree :: trees => map f tree :: mapAll f trees

end

@[simp]
theorem leavesAll_append (first second : List Tree) :
    leavesAll (first ++ second) = leavesAll first ++ leavesAll second := by
  induction first with
  | nil => rfl
  | cons tree trees ih => rw [List.cons_append, leavesAll, leavesAll, ih, List.append_assoc]

@[simp]
theorem leavesAll_stmts (stmts : List Stmt) : leavesAll (stmts.map stmt) = stmts := by
  induction stmts with
  | nil => rfl
  | cons first stmts ih =>
      rw [List.map_cons, leavesAll, leaves, ih]
      rfl

mutual

theorem leaves_map (f : Stmt → Stmt) : (tree : Tree) → leaves (map f tree) = (leaves tree).map f
  | stmt _ => rfl
  | block trees => by
      rw [map, leaves, leaves]
      exact leavesAll_mapAll f trees

theorem leavesAll_mapAll (f : Stmt → Stmt) :
    (trees : List Tree) → leavesAll (mapAll f trees) = (leavesAll trees).map f
  | [] => rfl
  | tree :: trees => by
      rw [mapAll, leavesAll, leavesAll, leaves_map f tree, leavesAll_mapAll f trees,
        List.map_append]

end

end Tree

/-! ## Circuits -/

inductive Direction where
  | input
  | output
deriving DecidableEq, Repr

structure Port where
  name : String
  direction : Direction
  tpe : Ty
deriving DecidableEq, Repr

/-- A module whose body is the block of the given statements. -/
structure Module where
  name : String
  ports : List Port
  body : List Tree

/-- The statements of a module. -/
def Module.stmts (mod : Module) : List Stmt := Tree.leavesAll mod.body

/-- A module with a body or a black box. -/
inductive DefModule where
  | internal (mod : Module)
  | external (name : String) (ports : List Port)

namespace DefModule

def name : DefModule → String
  | internal mod => mod.name
  | external name _ => name

def ports : DefModule → List Port
  | internal mod => mod.ports
  | external _ ports => ports

def isExternal : DefModule → Bool
  | internal _ => false
  | external _ _ => true

end DefModule

structure Circuit where
  modules : List DefModule
  main : String

/-- The expressions that `foreachExpr` visits. -/
def Stmt.exprs : Stmt → List Expr
  | defWire _ _ => []
  | defRegister reg => [reg.clock, reg.reset, reg.init]
  | defInstance _ => []
  | defMemory _ => []
  | defNode _ value => [value]
  | connect loc expr => [loc, expr]
  | isInvalid expr => [expr]
  | attach exprs => exprs
  | stop _ clk en => [clk, en]
  | print _ args clk en => args ++ [clk, en]
  | empty => []

/-- The instances of a module. -/
def Module.instances (mod : Module) : List Instance :=
  mod.stmts.filterMap fun
    | .defInstance inst => some inst
    | _ => none

/-- The registers of a module. -/
def Module.registers (mod : Module) : List Register :=
  mod.stmts.filterMap fun
    | .defRegister reg => some reg
    | _ => none

end Difftest.Firrtl
