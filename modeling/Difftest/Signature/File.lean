import Difftest.Data.Dict
import Difftest.Data.Sequence
import Difftest.Text.Line

/-!
# Signature files

The RTL host dumps memory as text records of two 64-bit words, high word first:
the signature range, then the data sections in order.  The checker resolves the
symbols of the register slots to word indices and reads the words back by line
and column.

The round trip says that reading a dumped file returns exactly the words the
memory held, for every placement of the slots and every length of the sections.
-/

namespace Difftest.Signature

open Difftest.Text

/-- The symbol table of a program, as the lookup it provides. -/
abbrev Symbols := String → Option Nat

/-- The CSRs with a slot in the signature. -/
def csrNames : List String :=
  ["fflags", "frm", "fcsr",
   "sstatus", "sie", "sscratch", "sepc", "scause", "stval", "sip", "satp",
   "mhartid", "mstatus", "medeleg", "mie", "mscratch", "mepc", "mcause", "mtval", "mip",
   "pmpcfg0", "pmpaddr0", "pmpaddr1", "pmpaddr2", "pmpaddr3", "pmpaddr4",
   "pmpaddr5", "pmpaddr6", "pmpaddr7"]

/-- Symbol of an integer register slot. -/
def xregSymbol (i : Nat) : String := "reg_x" ++ toString i ++ "_output"

/-- Symbol of a floating-point register slot. -/
def fregSymbol (i : Nat) : String := "reg_f" ++ toString i ++ "_output"

/-- Symbol of a CSR slot. -/
def csrSymbol (name : String) : String := name ++ "_output"

/-- Symbol at the start of a data section. -/
def dataStartSymbol (i : Nat) : String := "_random_data" ++ toString i

/-- Symbol at the end of a data section. -/
def dataEndSymbol (i : Nat) : String := "_end_data" ++ toString i

/-! ## Writing -/

/-- One record: the word at `addr + 8`, then the word at `addr`. -/
def dumpRecord (memory : Dict Nat Nat) (addr : Nat) : Option Text := do
  let high ← memory.get? (addr + 8)
  let low ← memory.get? addr
  some (line (numeral 16 16 high ++ numeral 16 16 low))

/-- The records of one address range. -/
def dumpRange (memory : Dict Nat Nat) (start stop : Nat) : Option Text := do
  let records ← (stepRange start stop 16).mapM (dumpRecord memory)
  some records.flatten

/-- `rvRTLhost.save_signature`: the contents of the signature file; `none` is a
`KeyError` on a word the memory does not hold. -/
def saveSignature (memory : Dict Nat Nat) (sigStart sigEnd : Nat)
    (dataAddrs : List (Nat × Nat)) : Option Text := do
  let signature ← dumpRange memory sigStart sigEnd
  let data ← dataAddrs.mapM fun range => dumpRange memory range.1 range.2
  some (signature ++ data.flatten)

/-! ## Reading -/

/-- What `sigChecker.read_symbols` returns: word indices of the slots, the
ranges of the data sections and the line at which the sections start. -/
structure SlotIndices where
  xregIdxes : List Int
  fregIdxes : List Int
  csrIdxes : Dict String Int
  dataSymbols : List (Nat × Nat)
  dataIdxStart : Int

/-- What `sigChecker.read_sig` returns. -/
structure SignatureValues where
  xregVals : List Int
  fregVals : List Int
  csrVals : Dict String Int
  dataVals : List (List Int)

/-- Word index of a slot, relative to the start of the signature. -/
def slotIndex (symbols : Symbols) (symbolStart : Nat) (name : String) : Option Int := do
  let addr ← symbols name
  some (((addr : Int) - symbolStart) / 8)

/-- The range of a data section. -/
def sectionRange (symbols : Symbols) (i : Nat) : Option (Nat × Nat) := do
  let dataStart ← symbols (dataStartSymbol i)
  let dataEnd ← symbols (dataEndSymbol i)
  some (dataStart, dataEnd)

/-- `sigChecker.read_symbols`; `none` is a `KeyError` on a missing symbol. -/
def readSymbols (symbols : Symbols) : Option SlotIndices := do
  let symbolStart ← symbols "begin_signature"
  let symbolEnd ← symbols "end_signature"
  let xregIdxes ← (List.range 32).mapM fun i => slotIndex symbols symbolStart (xregSymbol i)
  let fregIdxes ← (List.range 32).mapM fun i => slotIndex symbols symbolStart (fregSymbol i)
  let csrIdxes ← Dict.collect
    (fun name => slotIndex symbols symbolStart (csrSymbol name)) csrNames Dict.empty
  let dataSymbols ← (List.range 6).mapM (sectionRange symbols)
  some { xregIdxes, fregIdxes, csrIdxes, dataSymbols
         dataIdxStart := ((symbolEnd : Int) - symbolStart) / (2 * 8) }

/-- The word with the given index: two words a line, the odd one in the first
sixteen columns. -/
def readSlot (lines : List Text) (idx : Int) : Option Int := do
  let record ← index? lines (idx / 2)
  let column := (idx % 2).toNat
  parseInt 16 (slice (16 - 16 * column) (32 - 16 * column) record)

/-- Both words of a record, in increasing address order. -/
def readRecord (lines : List Text) (idx : Int) : Option (List Int) := do
  let words ← index? lines idx
  let low ← parseInt 16 (slice 16 32 words)
  let high ← parseInt 16 (slice 0 16 words)
  some [low, high]

/-- Number of whole records in a data section. -/
def sectionRecords (range : Nat × Nat) : Int := ((range.2 : Int) - range.1) / 16

/-- The words of one data section whose first record is at line `dataIdx`. -/
def readSection (lines : List Text) (dataIdx : Int) (range : Nat × Nat) :
    Option (List Int) := do
  let records ← (List.range (sectionRecords range).toNat).mapM fun j : Nat =>
    readRecord lines (dataIdx + j)
  some records.flatten

/-- The words of all data sections; the line offset runs over the sections. -/
def readSections (lines : List Text) : Int → List (Nat × Nat) → Option (List (List Int))
  | _, [] => some []
  | dataIdx, range :: rest => do
      let data ← readSection lines dataIdx range
      let others ← readSections lines (dataIdx + sectionRecords range) rest
      some (data :: others)

/-- `sigChecker.read_sig`; `none` is an `IndexError` or a `ValueError`. -/
def readSig (file : Text) (indices : SlotIndices) : Option SignatureValues := do
  let lines := readlines file
  let xregVals ← indices.xregIdxes.mapM (readSlot lines)
  let fregVals ← indices.fregIdxes.mapM (readSlot lines)
  let csrVals ← Dict.collect
    (fun name => (indices.csrIdxes.get? name).bind (readSlot lines)) csrNames Dict.empty
  let dataVals ← readSections lines indices.dataIdxStart indices.dataSymbols
  some { xregVals, fregVals, csrVals, dataVals }

end Difftest.Signature
