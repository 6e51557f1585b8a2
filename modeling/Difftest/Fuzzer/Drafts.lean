import Difftest.Fuzzer.Templates

/-!
# Drafts of words

Every word that is generated consists of templates: instructions whose operands are registers
and numbers, and instructions whose last operand is a label.  Words that transfer control have
such a label and do not count as memory accesses.
-/

namespace Difftest.Fuzzer

open Difftest.Text

/-! ## Drafts -/

/-- The opcodes that transfer control. -/
def transferOpcodes : List Text :=
  ["jal", "jalr", "beq", "bne", "blt", "bge", "bltu", "bgeu", "mret", "sret", "uret"].map
    String.toList

/-- An instruction without a label. -/
structure PlainTemplate (inst : Text) : Prop where
  template : Template inst
  short : weightOf inst ≤ 42

instance (inst : Text) : Decidable (PlainTemplate inst) :=
  decidable_of_iff (Template inst ∧ weightOf inst ≤ 42)
    ⟨fun ⟨a, b⟩ => ⟨a, b⟩, fun plain => ⟨plain.template, plain.short⟩⟩

/-- The instruction in front of its label. -/
def stemOf (inst : Text) : Text := inst.take (inst.length - (", ".toList ++ symbolName).length)

/-- An instruction with a label as its last operand. -/
structure LabelTemplate (inst : Text) : Prop where
  parts : inst = stemOf inst ++ (", ".toList ++ symbolName)
  template : Template (stemOf inst)
  blank : ' ' ∈ stemOf inst
  short : weightOf (stemOf inst) ≤ 30

instance (inst : Text) : Decidable (LabelTemplate inst) :=
  decidable_of_iff (inst = stemOf inst ++ (", ".toList ++ symbolName) ∧ Template (stemOf inst) ∧
      ' ' ∈ stemOf inst ∧ weightOf (stemOf inst) ≤ 30)
    ⟨fun ⟨a, b, c, d⟩ => ⟨a, b, c, d⟩,
      fun label => ⟨label.parts, label.template, label.blank, label.short⟩⟩

/-- What the filling in of operands relies on. -/
structure Drafts (expansion : Expansion) : Prop where
  registers : ∀ name ∈ expansion.2.2.xregs ++ expansion.2.2.fregs, name ∈ registerNames
  immediates : ∀ imm ∈ expansion.2.2.imms, imm.1 ∈ immediateNames
  symbols : expansion.2.2.symbols = [] ∨ expansion.2.2.symbols = [symbolName]
  nonempty : expansion.2.1 ≠ []
  insts : ∀ inst ∈ expansion.2.1, PlainTemplate inst ∨
    expansion.2.2.symbols = [symbolName] ∧ LabelTemplate inst
  jumps : (∃ inst ∈ expansion.2.1, opcodeOf inst ∈ transferOpcodes) →
    expansion.1 ∉ [WordType.memR, WordType.memW] ∧ expansion.2.2.symbols = [symbolName] ∧
      ∃ inst ∈ expansion.2.1, LabelTemplate inst

instance (expansion : Expansion) : Decidable (Drafts expansion) :=
  decidable_of_iff ((∀ name ∈ expansion.2.2.xregs ++ expansion.2.2.fregs, name ∈ registerNames) ∧
      (∀ imm ∈ expansion.2.2.imms, imm.1 ∈ immediateNames) ∧
      (expansion.2.2.symbols = [] ∨ expansion.2.2.symbols = [symbolName]) ∧
      expansion.2.1 ≠ [] ∧
      (∀ inst ∈ expansion.2.1, PlainTemplate inst ∨
        expansion.2.2.symbols = [symbolName] ∧ LabelTemplate inst) ∧
      ((∃ inst ∈ expansion.2.1, opcodeOf inst ∈ transferOpcodes) →
        expansion.1 ∉ [WordType.memR, WordType.memW] ∧ expansion.2.2.symbols = [symbolName] ∧
          ∃ inst ∈ expansion.2.1, LabelTemplate inst))
    ⟨fun ⟨a, b, c, d, e, f⟩ => ⟨a, b, c, d, e, f⟩, fun drafts => ⟨drafts.registers,
      drafts.immediates, drafts.symbols, drafts.nonempty, drafts.insts, drafts.jumps⟩⟩

/-! ## Expansions -/

/-- What `word_mem_r` and `word_mem_w` return, with and without the mask. -/
def memExpansion (op : Opcode) (tpe : WordType) (masked : Bool) : Expansion :=
  (tpe, ["la xreg1, symbol".toList] ++ (if masked = true then maskAddr else []) ++ [op.form],
    { op with
      xregs := if masked = true then op.xregs ++ ["xreg2".toList] else op.xregs
      symbols := op.symbols ++ [symbolName] })

/-- What `word_atomic` returns. -/
def atomicExpansion (op : Opcode) (opcode : Text) (masked : Bool) : Expansion :=
  (.memW, ["la xreg1, symbol".toList, "addi xreg1, xreg1, imm6".toList] ++
      (if masked = true then maskAddr else []) ++ [op.form],
    { op with
      xregs := if masked = true then op.xregs ++ ["xreg2".toList] else op.xregs
      imms := op.imms ++ [("imm6".toList, if opcode ∈ opcodesOf rv64 then 8 else 4)]
      symbols := op.symbols ++ [symbolName] })

/-- What `word_csr_r` returns for an address register. -/
def addressExpansion (op : Opcode) (csr : Text) : Expansion :=
  (.memR, ["la xreg1, symbol".toList, "srai xreg1, xreg1, 1".toList, format csr op.form],
    { op with symbols := op.symbols ++ [symbolName] })

/-- What `word_csr_r` returns for another register and no bits to set. -/
def registerExpansion (op : Opcode) (csr : Text) : Expansion :=
  (.csr, ["xor xreg1, xreg1, xreg1".toList, format csr op.form], op)

/-- What `word_sfence` returns. -/
def sfenceExpansion (op : Opcode) (pt : Text) : Expansion :=
  (.none, ["li xreg0, uimm1".toList, "la xreg1, ".toList ++ pt,
    "addi xreg1, xreg1, uimm6".toList, op.form],
    { op with imms := op.imms ++ [("uimm1".toList, 1), ("uimm6".toList, 8)] })

/-- The opcodes of loads and stores. -/
def memoryOpcodes : List Text :=
  ["lb", "lh", "lw", "ld", "lbu", "lhu", "lwu", "flw", "fld", "flq"].map String.toList ++
    ["sb", "sh", "sw", "sd", "fsw", "fsd", "fsq"].map String.toList

/-- The opcodes that `opcodes_words` lists. -/
def listedOpcodes : List Text :=
  ["jal".toList, "jalr".toList] ++ opcodesOf rv32iBtype ++
    ["mret", "sret", "uret"].map String.toList ++ memoryOpcodes ++
    opcodesOf (rv32aRtype ++ rv64aRtype) ++
    ["csrrw", "csrrs", "csrrc"].map String.toList ++
    ["csrrwi", "csrrsi", "csrrci"].map String.toList ++ ["sfence.vma".toList] ++
    opcodesOf (rv32f ++ rv64fRtype)

/-- All expansions of the rows of the tables are drafts. -/
theorem drafts_rows : ∀ entry ∈ rv64g,
    (entry.1 = "jal".toList → Drafts (wordJal entry.2)) ∧
    (entry.1 = "jalr".toList → Drafts (wordJalr entry.2)) ∧
    (entry.1 ∈ opcodesOf rv32iBtype → Drafts (wordBranch entry.2)) ∧
    (entry.1 ∈ ["mret", "sret", "uret"].map String.toList → Drafts (wordRet entry.2)) ∧
    (entry.1 ∈ memoryOpcodes → ∀ tpe ∈ [WordType.memR, WordType.memW], ∀ masked,
      Drafts (memExpansion entry.2 tpe masked)) ∧
    (entry.1 ∈ opcodesOf (rv32aRtype ++ rv64aRtype) →
      ∀ masked, Drafts (atomicExpansion entry.2 entry.1 masked)) ∧
    (entry.1 ∈ ["csrrw", "csrrs", "csrrc"].map String.toList → ∀ csr ∈ csrNames,
      Drafts (addressExpansion entry.2 csr) ∧ Drafts (registerExpansion entry.2 csr)) ∧
    (entry.1 ∈ ["csrrwi", "csrrsi", "csrrci"].map String.toList → ∀ csr ∈ csrNames,
      Drafts (.csr, [format csr entry.2.form], entry.2)) ∧
    (entry.1 = "sfence.vma".toList → ∀ pt ∈ ["pt0", "pt1", "pt2", "pt3"].map String.toList,
      Drafts (sfenceExpansion entry.2 pt)) ∧
    (entry.1 ∈ opcodesOf (rv32f ++ rv64fRtype) → Drafts (wordFp entry.2)) ∧
    (entry.1 ∉ listedOpcodes → Drafts (.none, [entry.2.form], entry.2)) := by
  -- The evaluation is split, so that what one part allocates is free for the next.
  have jumps : ∀ entry ∈ rv64g,
      (entry.1 = "jal".toList → Drafts (wordJal entry.2)) ∧
      (entry.1 = "jalr".toList → Drafts (wordJalr entry.2)) ∧
      (entry.1 ∈ opcodesOf rv32iBtype → Drafts (wordBranch entry.2)) ∧
      (entry.1 ∈ ["mret", "sret", "uret"].map String.toList → Drafts (wordRet entry.2)) := by
    decide +kernel
  have memory : ∀ entry ∈ rv64g, entry.1 ∈ memoryOpcodes →
      ∀ tpe ∈ [WordType.memR, WordType.memW], ∀ masked,
        Drafts (memExpansion entry.2 tpe masked) := by
    decide +kernel
  have atomic : ∀ entry ∈ rv64g, entry.1 ∈ opcodesOf (rv32aRtype ++ rv64aRtype) →
      ∀ masked, Drafts (atomicExpansion entry.2 entry.1 masked) := by
    decide +kernel
  have csrR : ∀ entry ∈ rv64g, entry.1 ∈ ["csrrw", "csrrs", "csrrc"].map String.toList →
      ∀ csr ∈ csrNames, Drafts (addressExpansion entry.2 csr) ∧
        Drafts (registerExpansion entry.2 csr) := by
    decide +kernel
  have csrI : ∀ entry ∈ rv64g, entry.1 ∈ ["csrrwi", "csrrsi", "csrrci"].map String.toList →
      ∀ csr ∈ csrNames, Drafts (.csr, [format csr entry.2.form], entry.2) := by
    decide +kernel
  have sfence : ∀ entry ∈ rv64g, entry.1 = "sfence.vma".toList →
      ∀ pt ∈ ["pt0", "pt1", "pt2", "pt3"].map String.toList,
        Drafts (sfenceExpansion entry.2 pt) := by
    decide +kernel
  have fp : ∀ entry ∈ rv64g,
      entry.1 ∈ opcodesOf (rv32f ++ rv64fRtype) → Drafts (wordFp entry.2) := by
    decide +kernel
  have other : ∀ entry ∈ rv64g,
      entry.1 ∉ listedOpcodes → Drafts (.none, [entry.2.form], entry.2) := by
    decide +kernel
  intro entry mem
  have isJump := jumps entry mem
  exact ⟨isJump.1, isJump.2.1, isJump.2.2.1, isJump.2.2.2, memory entry mem, atomic entry mem,
    csrR entry mem, csrI entry mem, sfence entry mem, fp entry mem, other entry mem⟩

end Difftest.Fuzzer
