import Difftest.Data.Dict
import Difftest.Text.Format

/-!
# Instruction tables

The forms of the instructions that the fuzzer generates, with the names of their operands:
the tables of the extensions that `RV64G` selects.  The operands are placeholders in the
form, which are replaced by registers, numbers and labels.  The table of the register
operations is assigned twice in the source and keeps the 64-bit ones.
-/

namespace Difftest.Fuzzer

open Difftest.Text

/-- A form and its operands. -/
structure Opcode where
  form : Text
  xregs : List Text
  fregs : List Text
  imms : List (Text × Nat)
  symbols : List Text
deriving DecidableEq, Repr

/-- One row of a table. -/
def row (name form : String) (xregs fregs : List String) (imms : List (String × Nat))
    (symbols : List String) : Text × Opcode :=
  (name.toList, ⟨form.toList, xregs.map String.toList, fregs.map String.toList,
    imms.map fun (imm, align) => (imm.toList, align), symbols.map String.toList⟩)

/-! ## Base instructions -/

/-- `rv32i_rtype`. -/
def rv32iRtype : List (Text × Opcode) := [
  row "addw" "addw xreg0, xreg1, xreg2" ["xreg0", "xreg1", "xreg2"] [] [] [],
  row "subw" "subw xreg0, xreg1, xreg2" ["xreg0", "xreg1", "xreg2"] [] [] [],
  row "sllw" "sllw xreg0, xreg1, xreg2" ["xreg0", "xreg1", "xreg2"] [] [] [],
  row "srlw" "srlw xreg0, xreg1, xreg2" ["xreg0", "xreg1", "xreg2"] [] [] [],
  row "sraw" "sraw xreg0, xreg1, xreg2" ["xreg0", "xreg1", "xreg2"] [] [] []]

/-- `rv32i_itype`. -/
def rv32iItype : List (Text × Opcode) := [
  row "jalr" "jalr xreg0, 0(xreg1)" ["xreg0", "xreg1"] [] [] [],
  row "lb" "lb xreg0, imm6(xreg1)" ["xreg0", "xreg1"] [] [("imm6", 1)] [],
  row "lh" "lh xreg0, imm6(xreg1)" ["xreg0", "xreg1"] [] [("imm6", 2)] [],
  row "lw" "lw xreg0, imm6(xreg1)" ["xreg0", "xreg1"] [] [("imm6", 4)] [],
  row "lbu" "lbu xreg0, imm6(xreg1)" ["xreg0", "xreg1"] [] [("imm6", 1)] [],
  row "lhu" "lhu xreg0, imm6(xreg1)" ["xreg0", "xreg1"] [] [("imm6", 2)] [],
  row "slli" "slli xreg0, xreg1, uimm5" ["xreg0", "xreg1"] [] [("uimm5", 1)] [],
  row "srli" "srli xreg0, xreg1, uimm5" ["xreg0", "xreg1"] [] [("uimm5", 1)] [],
  row "srai" "srai xreg0, xreg1, uimm5" ["xreg0", "xreg1"] [] [("uimm5", 1)] [],
  row "addi" "addi xreg0, xreg1, imm12" ["xreg0", "xreg1"] [] [("imm12", 1)] [],
  row "slti" "slti xreg0, xreg1, imm12" ["xreg0", "xreg1"] [] [("imm12", 1)] [],
  row "sltiu" "sltiu xreg0, xreg1, imm12" ["xreg0", "xreg1"] [] [("imm12", 1)] [],
  row "xori" "xori xreg0, xreg1, imm12" ["xreg0", "xreg1"] [] [("imm12", 1)] [],
  row "ori" "ori xreg0, xreg1, imm12" ["xreg0", "xreg1"] [] [("imm12", 1)] [],
  row "andi" "andi xreg0, xreg1, imm12" ["xreg0", "xreg1"] [] [("imm12", 1)] [],
  row "fence" "fence" [] [] [] [],
  row "ecall" "ecall" [] [] [] [],
  row "ebreak" "ebreak" [] [] [] []]

/-- `rv32i_stype`. -/
def rv32iStype : List (Text × Opcode) := [
  row "sb" "sb xreg0, imm6(xreg1)" ["xreg0", "xreg1"] [] [("imm6", 1)] [],
  row "sh" "sh xreg0, imm6(xreg1)" ["xreg0", "xreg1"] [] [("imm6", 2)] [],
  row "sw" "sw xreg0, imm6(xreg1)" ["xreg0", "xreg1"] [] [("imm6", 4)] []]

/-- `rv32i_btype`. -/
def rv32iBtype : List (Text × Opcode) := [
  row "beq" "beq xreg0, xreg1, symbol" ["xreg0", "xreg1"] [] [] ["symbol"],
  row "bne" "bne xreg0, xreg1, symbol" ["xreg0", "xreg1"] [] [] ["symbol"],
  row "blt" "blt xreg0, xreg1, symbol" ["xreg0", "xreg1"] [] [] ["symbol"],
  row "bge" "bge xreg0, xreg1, symbol" ["xreg0", "xreg1"] [] [] ["symbol"],
  row "bltu" "bltu xreg0, xreg1, symbol" ["xreg0", "xreg1"] [] [] ["symbol"],
  row "bgeu" "bgeu xreg0, xreg1, symbol" ["xreg0", "xreg1"] [] [] ["symbol"]]

/-- `rv32i_utype`. -/
def rv32iUtype : List (Text × Opcode) := [
  row "lui" "lui xreg0, uimm20" ["xreg0"] [] [("uimm20", 1)] [],
  row "auipc" "auipc xreg0, uimm20" ["xreg0"] [] [("uimm20", 1)] []]

/-- `rv32i_jtype`. -/
def rv32iJtype : List (Text × Opcode) := [
  row "jal" "jal xreg0, symbol" ["xreg0"] [] [] ["symbol"]]

/-- `rv64i_itype`. -/
def rv64iItype : List (Text × Opcode) := [
  row "lwu" "lwu xreg0, imm6(xreg1)" ["xreg0", "xreg1"] [] [("imm6", 4)] [],
  row "ld" "ld xreg0, imm6(xreg1)" ["xreg0", "xreg1"] [] [("imm6", 8)] [],
  row "slli" "slli xreg0, xreg1, uimm6" ["xreg0", "xreg1"] [] [("uimm6", 1)] [],
  row "srli" "srli xreg0, xreg1, uimm6" ["xreg0", "xreg1"] [] [("uimm6", 1)] [],
  row "srai" "srai xreg0, xreg1, uimm6" ["xreg0", "xreg1"] [] [("uimm6", 1)] [],
  row "addiw" "addiw xreg0, xreg1, imm12" ["xreg0", "xreg1"] [] [("imm12", 1)] [],
  row "slliw" "slliw xreg0, xreg1, uimm5" ["xreg0", "xreg1"] [] [("uimm5", 1)] [],
  row "srliw" "srliw xreg0, xreg1, uimm5" ["xreg0", "xreg1"] [] [("uimm5", 1)] [],
  row "sraiw" "sraiw xreg0, xreg1, uimm5" ["xreg0", "xreg1"] [] [("uimm5", 1)] []]

/-- `rv64i_stype`. -/
def rv64iStype : List (Text × Opcode) := [
  row "sd" "sd xreg0, imm6(xreg1)" ["xreg0", "xreg1"] [] [("imm6", 8)] []]

/-- `rv_zifencei`. -/
def rvZifencei : List (Text × Opcode) := [
  row "fence.i" "fence.i" [] [] [] [],
  row "sfence.vma" "sfence.vma xreg0, xreg1" ["xreg0", "xreg1"] [] [] []]

/-- `rv_zicsr`. -/
def rvZicsr : List (Text × Opcode) := [
  row "csrrw" "csrrw xreg0, \x7b\x7d, xreg1" ["xreg0", "xreg1"] [] [] [],
  row "csrrs" "csrrs xreg0, \x7b\x7d, xreg1" ["xreg0", "xreg1"] [] [] [],
  row "csrrc" "csrrc xreg0, \x7b\x7d, xreg1" ["xreg0", "xreg1"] [] [] [],
  row "csrrwi" "csrrwi xreg0, \x7b\x7d, uimm5" ["xreg0"] [] [("uimm5", 1)] [],
  row "csrrsi" "csrrsi xreg0, \x7b\x7d, uimm5" ["xreg0"] [] [("uimm5", 1)] [],
  row "csrrci" "csrrci xreg0, \x7b\x7d, uimm5" ["xreg0"] [] [("uimm5", 1)] []]

/-! ## Atomic instructions -/

/-- `rv32a_rtype`. -/
def rv32aRtype : List (Text × Opcode) := [
  row "lr.w" "lr.w xreg0, (xreg1)" ["xreg0", "xreg1"] [] [] [],
  row "sc.w" "sc.w xreg0, xreg2, (xreg1)" ["xreg0", "xreg1", "xreg2"] [] [] [],
  row "amoswap.w" "amoswap.w xreg0, xreg2, (xreg1)" ["xreg0", "xreg1", "xreg2"] [] [] [],
  row "amoadd.w" "amoadd.w xreg0, xreg2, (xreg1)" ["xreg0", "xreg1", "xreg2"] [] [] [],
  row "amoxor.w" "amoxor.w xreg0, xreg2, (xreg1)" ["xreg0", "xreg1", "xreg2"] [] [] [],
  row "amoand.w" "amoand.w xreg0, xreg2, (xreg1)" ["xreg0", "xreg1", "xreg2"] [] [] [],
  row "amoor.w" "amoor.w xreg0, xreg2, (xreg1)" ["xreg0", "xreg1", "xreg2"] [] [] [],
  row "amomin.w" "amomin.w xreg0, xreg2, (xreg1)" ["xreg0", "xreg1", "xreg2"] [] [] [],
  row "amomax.w" "amomax.w xreg0, xreg2, (xreg1)" ["xreg0", "xreg1", "xreg2"] [] [] [],
  row "amominu.w" "amominu.w xreg0, xreg2, (xreg1)" ["xreg0", "xreg1", "xreg2"] [] [] [],
  row "amomaxu.w" "amomaxu.w xreg0, xreg2, (xreg1)" ["xreg0", "xreg1", "xreg2"] [] [] []]

/-- `rv64a_rtype`. -/
def rv64aRtype : List (Text × Opcode) := [
  row "lr.d" "lr.d xreg0, (xreg1)" ["xreg0", "xreg1"] [] [] [],
  row "sc.d" "sc.d xreg0, xreg1, (xreg1)" ["xreg0", "xreg1", "xreg2"] [] [] [],
  row "amoswap.d" "amoswap.d xreg0, xreg2, (xreg1)" ["xreg0", "xreg1", "xreg2"] [] [] [],
  row "amoadd.d" "amoadd.d xreg0, xreg2, (xreg1)" ["xreg0", "xreg1", "xreg2"] [] [] [],
  row "amoxor.d" "amoxor.d xreg0, xreg2, (xreg1)" ["xreg0", "xreg1", "xreg2"] [] [] [],
  row "amoand.d" "amoand.d xreg0, xreg2, (xreg1)" ["xreg0", "xreg1", "xreg2"] [] [] [],
  row "amoor.d" "amoor.d xreg0, xreg2, (xreg1)" ["xreg0", "xreg1", "xreg2"] [] [] [],
  row "amomin.d" "amomin.d xreg0, xreg2, (xreg1)" ["xreg0", "xreg1", "xreg2"] [] [] [],
  row "amomax.d" "amomax.d xreg0, xreg2, (xreg1)" ["xreg0", "xreg1", "xreg2"] [] [] [],
  row "amominu.d" "amominu.d xreg0, xreg2, (xreg1)" ["xreg0", "xreg1", "xreg2"] [] [] [],
  row "amomaxu.d" "amomaxu.d xreg0, xreg2, (xreg1)" ["xreg0", "xreg1", "xreg2"] [] [] []]

/-! ## Floating point -/

/-- `rv32f_rtype`. -/
def rv32fRtype : List (Text × Opcode) := [
  row "fadd.s" "fadd.s freg0, freg1, freg2, \x7b\x7d" [] ["freg0", "freg1", "freg2"] [] [],
  row "fsub.s" "fsub.s freg0, freg1, freg2, \x7b\x7d" [] ["freg0", "freg1", "freg2"] [] [],
  row "fmul.s" "fmul.s freg0, freg1, freg2, \x7b\x7d" [] ["freg0", "freg1", "freg2"] [] [],
  row "fdiv.s" "fdiv.s freg0, freg1, freg2, \x7b\x7d" [] ["freg0", "freg1", "freg2"] [] [],
  row "fsqrt.s" "fsqrt.s freg0, freg1, \x7b\x7d" [] ["freg0", "freg1"] [] [],
  row "fsgnj.s" "fsgnj.s freg0, freg1, freg2" ["xreg0"] ["freg0", "freg1", "freg2"] [] [],
  row "fsgnjn.s" "fsgnjn.s freg0, freg1, freg2" ["xreg0"] ["freg0", "freg1", "freg2"] [] [],
  row "fsgnjx.s" "fsgnjx.s freg0, freg1, freg2" ["xreg0"] ["freg0", "freg1", "freg2"] [] [],
  row "fmin.s" "fmin.s freg0, freg1, freg2" [] ["freg0", "freg1", "freg2"] [] [],
  row "fmax.s" "fmax.s freg0, freg1, freg2" [] ["freg0", "freg1", "freg2"] [] [],
  row "fcvt.w.s" "fcvt.w.s xreg0, freg0, \x7b\x7d" ["xreg0"] ["freg0"] [] [],
  row "fcvt.wu.s" "fcvt.wu.s xreg0, freg0, \x7b\x7d" ["xreg0"] ["freg0"] [] [],
  row "fmv.x.w" "fmv.x.w xreg0, freg0" ["xreg0"] ["freg0"] [] [],
  row "feq.s" "feq.s xreg0, freg0, freg1" ["xreg0"] ["freg0", "freg1"] [] [],
  row "flt.s" "flt.s xreg0, freg0, freg1" ["xreg0"] ["freg0", "freg1"] [] [],
  row "fle.s" "fle.s xreg0, freg0, freg1" ["xreg0"] ["freg0", "freg1"] [] [],
  row "fclass.s" "fclass.s xreg0, freg0" ["xreg0"] ["freg0"] [] [],
  row "fcvt.s.w" "fcvt.s.w freg0, xreg0, \x7b\x7d" ["xreg0"] ["freg0"] [] [],
  row "fcvt.s.wu" "fcvt.s.wu freg0, xreg0, \x7b\x7d" ["xreg0"] ["freg0"] [] [],
  row "fmv.w.x" "fmv.w.x freg0, xreg0" ["xreg0"] ["freg0"] [] []]

/-- `rv32f_r4type`. -/
def rv32fR4type : List (Text × Opcode) := [
  row "fmadd.s" "fmadd.s freg0, freg1, freg2, freg3, \x7b\x7d"
    [] ["freg0", "freg1", "freg2", "freg3"] [] [],
  row "fmsub.s" "fmsub.s freg0, freg1, freg2, freg3, \x7b\x7d"
    [] ["freg0", "freg1", "freg2", "freg3"] [] [],
  row "fnmsub.s" "fnmsub.s freg0, freg1, freg2, freg3, \x7b\x7d"
    [] ["freg0", "freg1", "freg2", "freg3"] [] [],
  row "fnmadd.s" "fnmadd.s freg0, freg1, freg2, freg3, \x7b\x7d"
    [] ["freg0", "freg1", "freg2", "freg3"] [] []]

/-- `rv32f_itype`. -/
def rv32fItype : List (Text × Opcode) := [
  row "flw" "flw freg0, imm6(xreg1)" ["xreg1"] ["freg0"] [("imm6", 4)] []]

/-- `rv32f_stype`. -/
def rv32fStype : List (Text × Opcode) := [
  row "fsw" "fsw freg0, imm6(xreg1)" ["xreg1"] ["freg0"] [("imm6", 4)] []]

/-- `rv64f_rtype`. -/
def rv64fRtype : List (Text × Opcode) := [
  row "fcvt.l.s" "fcvt.l.s xreg0, freg0, \x7b\x7d" ["xreg0"] ["freg0"] [] [],
  row "fcvt.lu.s" "fcvt.lu.s xreg0, freg0, \x7b\x7d" ["xreg0"] ["freg0"] [] [],
  row "fcvt.s.l" "fcvt.s.l freg0, xreg0, \x7b\x7d" ["xreg0"] ["freg0"] [] [],
  row "fcvt.s.lu" "fcvt.s.lu freg0, xreg0, \x7b\x7d" ["xreg0"] ["freg0"] [] []]

/-- `trap_ret`. -/
def trapRet : List (Text × Opcode) := [
  row "mret" "mret" [] [] [] [],
  row "sret" "sret" [] [] [] [],
  row "uret" "uret" [] [] [] []]

/-! ## Selected tables -/

/-- `rv32i`. -/
def rv32i : List (Text × Opcode) :=
  rv32iRtype ++ rv32iItype ++ rv32iBtype ++ rv32iStype ++ rv32iJtype ++ rv32iUtype

/-- `rv64i`. -/
def rv64i : List (Text × Opcode) := rv64iItype ++ rv64iStype

/-- `rv32f`. -/
def rv32f : List (Text × Opcode) := rv32fRtype ++ rv32fR4type ++ rv32fItype ++ rv32fStype

/-- `rv64`. -/
def rv64 : List (Text × Opcode) := rv64i ++ rv64aRtype ++ rv64fRtype

/-- The tables in the order in which `rvInstGenerator('RV64G')` merges them. -/
def rv64g : List (Text × Opcode) :=
  trapRet ++ rv32i ++ rv64i ++ rv32aRtype ++ rv64aRtype ++ rv32f ++ rv64fRtype ++ rvZifencei ++
    rvZicsr

/-- `opcodes_map` of `rvInstGenerator('RV64G')`. -/
def opcodesMap : Dict Text Opcode := Dict.ofList rv64g

/-- The opcodes of a table. -/
def opcodesOf (table : List (Text × Opcode)) : List Text := table.map Prod.fst

/-- `csr_names`. -/
def csrNames : List Text :=
  ["fflags", "frm", "fcsr", "sstatus", "sie", "sscratch", "sepc", "scause", "stval", "sip",
    "satp", "mhartid", "mstatus", "medeleg", "mie", "mscratch", "mepc", "mcause", "mtval",
    "mip", "pmpcfg0", "pmpaddr0", "pmpaddr1", "pmpaddr2", "pmpaddr3", "pmpaddr4", "pmpaddr5",
    "pmpaddr6", "pmpaddr7"].map String.toList

end Difftest.Fuzzer
