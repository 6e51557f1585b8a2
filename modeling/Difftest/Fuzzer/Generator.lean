import Difftest.Fuzzer.Opcodes
import Difftest.Fuzzer.Word

/-!
# The instruction generator

A word is generated in two steps.  An opcode is drawn and expanded to a short sequence of
instructions whose operands are placeholders; later the placeholders are replaced by drawn
registers, numbers and labels.  A drawn float is compared in hundredths.
-/

namespace Difftest.Fuzzer

open Difftest.Text

/-! ## Expansions -/

/-- A type, instructions and operands. -/
abbrev Expansion := WordType × List Text × Opcode

/-- `syntax.format(text)`. -/
def format (text form : Text) : Text := replace ['{', '}'] text form

variable (op : Opcode)

/-- `word_jal`. -/
def wordJal : Expansion := (.cfJ, [op.form], op)

/-- `word_jalr`. -/
def wordJalr : Expansion :=
  (.cfJ, ["la xreg1, symbol".toList, op.form],
    { op with symbols := op.symbols ++ ["symbol".toList] })

/-- `word_branch`. -/
def wordBranch : Expansion := (.cfBr, [op.form], op)

/-- `word_ret`. -/
def wordRet : Expansion :=
  let epc :=
    if op.form = "mret".toList then "mepc".toList
    else if op.form = "sret".toList then "sepc".toList
    else "uepc".toList
  (.cfRet, ["la xreg0, symbol".toList,
    format epc "csrrw zero, \x7b\x7d, xreg0".toList, op.form],
    { op with
      xregs := op.xregs ++ ["xreg0".toList]
      symbols := op.symbols ++ ["symbol".toList] })

/-- The instructions that move an address out of the memory sections. -/
def maskAddr : List Text := ["lui xreg2, 0xffe00".toList, "xor xreg1, xreg1, xreg2".toList]

/-- `word_mem_r` and `word_mem_w`. -/
def wordMem (tpe : WordType) : Random Expansion := do
  let rand ← Random.hundredths
  let (mask, xregs) :=
    if rand < 10 then (maskAddr, op.xregs ++ ["xreg2".toList]) else ([], op.xregs)
  pure (tpe, ["la xreg1, symbol".toList] ++ mask ++ [op.form],
    { op with
      xregs := xregs
      symbols := op.symbols ++ ["symbol".toList] })

/-- `word_atomic`. -/
def wordAtomic (opcode : Text) : Random Expansion := do
  let rand ← Random.hundredths
  let (mask, xregs) :=
    if rand < 10 then (maskAddr, op.xregs ++ ["xreg2".toList]) else ([], op.xregs)
  let align := if opcode ∈ opcodesOf rv64 then 8 else 4
  pure (.memW, ["la xreg1, symbol".toList, "addi xreg1, xreg1, imm6".toList] ++ mask ++ [op.form],
    { op with
      xregs := xregs
      imms := op.imms ++ [("imm6".toList, align)]
      symbols := op.symbols ++ ["symbol".toList] })

/-- The three instructions that set bits of a control register, with the register that they
use. -/
def setBits (n : Nat) : Random (List Text × Text) := do
  let bits ← Random.choice [1, 3]
  let offset ← Random.randint 0 31
  let xreg := "xreg".toList ++ str n
  pure (["addi ".toList ++ xreg ++ ", zero, ".toList ++ str bits,
    "slli ".toList ++ xreg ++ ", ".toList ++ xreg ++ ", ".toList ++ str offset,
    "add xreg1, xreg1, ".toList ++ xreg], xreg)

/-- `word_csr_r`. -/
def wordCsrR : Random Expansion := do
  let csr ← Random.choice csrNames
  if contains "pmpaddr".toList csr then
    pure (.memR, ["la xreg1, symbol".toList, "srai xreg1, xreg1, 1".toList, format csr op.form],
      { op with symbols := op.symbols ++ ["symbol".toList] })
  else do
    let count ← Random.randint 0 3
    let sets ← (List.range count).mapM fun i => setBits (i + 2)
    pure (.csr, ["xor xreg1, xreg1, xreg1".toList] ++ sets.flatMap Prod.fst ++
      [format csr op.form], { op with xregs := op.xregs ++ sets.map Prod.snd })

/-- `word_csr_i`. -/
def wordCsrI : Random Expansion := do
  let csr ← Random.choice csrNames
  pure (.csr, [format csr op.form], op)

/-- `word_sfence`. -/
def wordSfence : Random Expansion := do
  let pt ← Random.choice (["pt0", "pt1", "pt2", "pt3"].map String.toList)
  pure (.none, ["li xreg0, uimm1".toList, "la xreg1, ".toList ++ pt,
    "addi xreg1, xreg1, uimm6".toList, op.form],
    { op with imms := op.imms ++ [("uimm1".toList, 1), ("uimm6".toList, 8)] })

/-- `word_fp`. -/
def wordFp : Expansion := (.none, [format "rne".toList op.form], op)

/-- The expansion that `opcodes_words` selects, by the first list with the opcode. -/
def expand (opcode : Text) : Random Expansion :=
  if opcode = "jal".toList then pure (wordJal op)
  else if opcode = "jalr".toList then pure (wordJalr op)
  else if opcode ∈ opcodesOf rv32iBtype then pure (wordBranch op)
  else if opcode ∈ ["mret", "sret", "uret"].map String.toList then pure (wordRet op)
  else if opcode ∈ ["lb", "lh", "lw", "ld", "lbu", "lhu", "lwu", "flw", "fld",
      "flq"].map String.toList then wordMem op .memR
  else if opcode ∈ ["sb", "sh", "sw", "sd", "fsw", "fsd", "fsq"].map String.toList then
    wordMem op .memW
  else if opcode ∈ opcodesOf (rv32aRtype ++ rv64aRtype) then wordAtomic op opcode
  else if opcode ∈ ["csrrw", "csrrs", "csrrc"].map String.toList then wordCsrR op
  else if opcode ∈ ["csrrwi", "csrrsi", "csrrci"].map String.toList then wordCsrI op
  else if opcode = "sfence.vma".toList then wordSfence op
  else if opcode ∈ opcodesOf (rv32f ++ rv64fRtype) then pure (wordFp op)
  else pure (.none, [op.form], op)

/-! ## The generator -/

/-- `rvInstGenerator`: the next labels and the operands that were used. -/
structure Generator where
  preNum : Nat
  mainNum : Nat
  sufNum : Nat
  usedXNums : List Nat
  usedFNums : List Nat
  usedImms : List Nat
deriving DecidableEq, Repr

/-- `set(list(used) + [new])`. -/
def addUsed (new : Nat) (used : List Nat) : List Nat := if new ∈ used then used else used ++ [new]

namespace Generator

/-- `reset`. -/
def reset : Generator := ⟨0, 0, 0, [], [], []⟩

/-- `_get_xregs`: registers from `low` to below `high`. -/
def getXregs (gen : Generator) (low high : Nat) (noZero : Bool) : Random (Text × Generator) := do
  let reuse ←
    if (low, high) = (0, 31) ∧ gen.usedXNums ≠ [] then
      (fun rand => decide (rand < 20)) <$> Random.hundredths
    else pure false
  let (xNum, gen) ←
    if reuse = true then (fun xNum => (xNum, gen)) <$> Random.choice gen.usedXNums
    else (fun xNum => (xNum, { gen with usedXNums := addUsed xNum gen.usedXNums })) <$>
      Random.choice (List.range' low (high - low))
  let xNum ← if noZero = true ∧ xNum = 0 then Random.choice (List.range' 1 31) else pure xNum
  pure ('x' :: str xNum, gen)

/-- `_get_fregs`. -/
def getFregs (gen : Generator) : Random (Text × Generator) := do
  let reuse ←
    if gen.usedFNums ≠ [] then (fun rand => decide (rand < 20)) <$> Random.hundredths else pure false
  if reuse = true then (fun fNum => ('f' :: str fNum, gen)) <$> Random.choice gen.usedFNums
  else (fun fNum => ('f' :: str fNum, { gen with usedFNums := addUsed fNum gen.usedFNums })) <$>
    Random.choice (List.range 32)

/-- `_get_imm`: the sign and the width follow from the name, the low bits are cleared. -/
def getImm (gen : Generator) (name : Text) (align : Nat) : Random (Text × Generator) := do
  if align &&& (align - 1) ≠ 0 then Random.raise
  let (sign, width) ←
    if contains "uimm".toList name then do
      let width ← Random.ofOption (natOf (name.drop 4))
      pure ([], width)
    else do
      let sign ← Random.choice [[], ['-']]
      let width ← Random.ofOption (natOf (name.drop 3))
      pure (sign, width - 1)
  let _ ← Random.hundredths
  let mask := Nat.ldiff (2 ^ width - 1) (align - 1)
  let rand ← Random.hundredths
  if gen.usedImms ≠ [] ∧ rand < 20 then do
    let imm ← Random.choice gen.usedImms
    pure (sign ++ str (mask &&& imm), gen)
  else if rand < 40 then do
    let imm ← Random.choice [0, 0xffffffff]
    pure (sign ++ str (mask &&& imm), gen)
  else do
    let imm ← Random.randint 0 mask
    pure (sign ++ str (mask &&& imm), { gen with usedImms := addUsed imm gen.usedImms })

/-- A label in one of the memory sections. -/
def dataSymbol : Random Text := do
  let n ← Random.randint 0 5
  let k ← Random.randint 0 27
  pure ("d_".toList ++ str n ++ ['_'] ++ str k)

/-- `_get_symbol`. -/
def getSymbol (tpe : WordType) (myLabel maxLabel : Nat) (part : Part) : Random Text :=
  match tpe with
  | .memW => dataSymbol
  | .memR => do
      let rand ← Random.hundredths
      if rand < 20 then do
        let n ← Random.randint 0 maxLabel
        pure (part.mark ++ str n)
      else dataSymbol
  | _ => do
      let num ← Random.randint (myLabel + 1) maxLabel
      pure (part.mark ++ str num)

/-- The next label of a part. -/
def nextLabel (gen : Generator) : Part → Nat × Generator
  | .pre => (gen.preNum, { gen with preNum := gen.preNum + 1 })
  | .main => (gen.mainNum, { gen with mainNum := gen.mainNum + 1 })
  | .suf => (gen.sufNum, { gen with sufNum := gen.sufNum + 1 })

/-- `get_word`. -/
def getWord (gen : Generator) (part : Part) : Random (Word × Generator) := do
  let opcode ← Random.choice (if part = .pre then opcodesOf rvZicsr else opcodesMap.keys)
  let (label, gen) := gen.nextLabel part
  let op ← Random.ofOption (opcodesMap.get? opcode)
  let (tpe, insts, operands) ← expand op opcode
  pure ({
    label := label
    insts := insts
    tpe := tpe
    xregs := operands.xregs
    fregs := operands.fregs
    imms := operands.imms
    symbols := operands.symbols
    populated := false
    retInsts := [] }, gen)

/-- Assign a drawn value to every operand of a list in turn. -/
def fillIn {α : Type} (name : α → Text) (value : Generator → α → Random (Text × Generator)) :
    List α → Dict Text Text → Generator → Random (Dict Text Text × Generator)
  | [], opvals, gen => pure (opvals, gen)
  | operand :: rest, opvals, gen => do
      let (drawn, gen) ← value gen operand
      fillIn name value rest (opvals.set (name operand) drawn) gen

/-- `populate_word`. -/
def populateWord (gen : Generator) (word : Word) (maxLabel : Nat) (part : Part) :
    Random (Word × Generator) :=
  if word.populated = true then pure (word, gen)
  else do
    let xreg := fun (gen : Generator) (_ : Text) =>
      if word.tpe = .none then gen.getXregs 0 31 false
      else if part = .pre then gen.getXregs 10 15 true
      else gen.getXregs 0 31 true
    let (opvals, gen) ← fillIn id xreg word.xregs Dict.empty gen
    let (opvals, gen) ← fillIn id (fun gen _ => gen.getFregs) word.fregs opvals gen
    let (opvals, gen) ← fillIn Prod.fst (fun gen imm => gen.getImm imm.1 imm.2) word.imms opvals gen
    let (opvals, gen) ← fillIn id
      (fun gen _ => (fun symbol => (symbol, gen)) <$> getSymbol word.tpe word.label maxLabel part)
      word.symbols opvals gen
    let word ← Random.ofOption (word.populate opvals part)
    pure (word, gen)

end Generator

end Difftest.Fuzzer
