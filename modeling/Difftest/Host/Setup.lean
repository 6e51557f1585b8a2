import Difftest.Elf.Load
import Difftest.Signature.File

/-!
# Setup of the RTL host

The image of a program reaches the memory of the RTL on three ways: as lines of a hex file
that is loaded from `_start` on, as zeros of the signature, and as a flat list of data words
that is spread over the data sections.
-/

namespace Difftest.Host

open Difftest.Text Difftest.Signature

/-! ## Exceptions -/

/-- The exceptions that the setup can raise. -/
inductive Raised where
  | keyError
  | indexError
  | valueError
deriving DecidableEq, Repr

/-- `symbols[name]`. -/
def lookup (symbols : Symbols) (name : String) : Except Raised Nat :=
  match symbols name with
  | none => .error .keyError
  | some addr => .ok addr

/-- `addr & ~0x7`. -/
def alignDown (addr : Nat) : Nat := Nat.ldiff addr 0x7

/-! ## The hex file -/

/-- `DRAM_BASE`. -/
def dramBase : Nat := 0x80000000

/-- `max(memory.keys())`. -/
def maxKey (memory : Dict Nat Nat) : Nat := memory.keys.foldl max 0

/-- The end of the serialized range, from the highest key. -/
def hexEnd (memory : Dict Nat Nat) : Nat := alignDown (maxKey memory + 7) + 8

/-- The words of the hex file in order. -/
def hexWords (memory : Dict Nat Nat) (symbols : Symbols) : List Nat :=
  (stepRange ((symbols "_start").getD dramBase) (hexEnd memory) 8).map fun addr =>
    memory.getD (alignDown addr) 0

/-- `memory_dict_to_rtl_hex`: the contents of the hex file. -/
def memoryDictToRtlHex (memory : Dict Nat Nat) (symbols : Symbols) : Except Raised Text :=
  if memory.keys = [] then .error .valueError
  else .ok (List.intercalate ['\n'] ((hexWords memory symbols).map (numeral 16 16)) ++ ['\n'])

/-! ## The bundle -/

/-- What `run_test` reads of its input: the contents of the hex file, the data words, the
symbols and the ranges of the data sections of programs that were not wrapped. -/
structure RtlInput where
  hexfile : Text
  data : List Nat
  symbols : Symbols
  dataAddrs : List (Nat × Nat)

/-- The words of a range that the image contains. -/
def presentWords (image : Dict Nat Nat) (start stop : Nat) : List Nat :=
  (stepRange start stop 8).filterMap image.get?

/-- The words of the range of a section, rounded to whole words. -/
def sectionWords (image : Dict Nat Nat) (range : Nat × Nat) : List Nat :=
  presentWords image (alignDown range.1) (alignDown (range.2 + 7))

/-- The words of one of the sections of a wrapped program. -/
def randomWords (symbols : Symbols) (image : Dict Nat Nat) (i : Nat) : List Nat :=
  match sectionRange symbols i with
  | none => []
  | some (dataStart, dataEnd) => presentWords image (alignDown dataStart) dataEnd

/-- The zeros in place of one of the sections of a wrapped program. -/
def placeholders (symbols : Symbols) (i : Nat) : List Nat :=
  match sectionRange symbols i with
  | none => []
  | some (dataStart, dataEnd) => List.replicate ((dataEnd - dataStart) / 8) 0

/-- `_extract_data_words_from_symbols` for the given ranges of ordinary data sections.  There
is no image when the file cannot be loaded. -/
def extractDataWords (symbols : Symbols) (image : Option (Dict Nat Nat))
    (ranges : List (Nat × Nat)) : List Nat × List (Nat × Nat) :=
  let extracted :=
    match image with
    | none => ([], [])
    | some image => (ranges.flatMap (sectionWords image) ++
        (List.range 6).flatMap (randomWords symbols image), ranges)
  if extracted.1 = [] then ((List.range 6).flatMap (placeholders symbols), extracted.2)
  else extracted

/-- The ordinary data sections. -/
def dataSectionNames : List String := [".data", ".rodata", ".sdata", ".srodata"]

/-- The ranges of the ordinary data sections, from their addresses and sizes. -/
def dataSectionRanges (headers : String → Option (Nat × Nat)) : List (Nat × Nat) :=
  dataSectionNames.filterMap fun name =>
    (headers name).map fun header => (header.1, header.1 + header.2)

/-- A program with the symbol of the signature but without wrapped data sections. -/
def isPreinstrumented (symbols : Symbols) : Bool :=
  (symbols "begin_signature").isSome &&
    !(List.range 6).any fun i => (symbols (dataStartSymbol i)).isSome

/-- `build_rtl_input_bundle`. -/
def buildRtlInputBundle (symbols : Symbols) (hexfile : Text) (image : Option (Dict Nat Nat))
    (headers : String → Option (Nat × Nat)) : RtlInput :=
  let ranges := if isPreinstrumented symbols = true then dataSectionRanges headers else []
  let extracted := extractDataWords symbols image ranges
  { hexfile, data := extracted.1, symbols, dataAddrs := extracted.2 }

/-! ## The setup of `run_test` -/

/-- The instructions of the boot ROM. -/
def bootrom : List Nat :=
  [0x00000297, 0x02028593, 0xf1402573, 0x0182b283, 0x00028067, 0x00000000, 0x80000000, 0x00000000,
    0, 0, 0, 0, 0, 0, 0, 0]

/-- `set_bootrom`: the memory with the boot ROM. -/
def setBootrom : Dict Nat Nat :=
  (List.range 8).foldl (fun memory k => memory.set (0x10000 + 8 * k)
    (bootrom.getD (2 * k + 1) 0 <<< 32 ||| bootrom.getD (2 * k) 0)) Dict.empty

/-- One line of the hex file: `memory[addr] = int(lines[i], 16)`.  The numbers of the file are
not negative. -/
def loadLine (lines : List Text) (memory : Dict Nat Nat) (turn : Nat × Nat) :
    Except Raised (Dict Nat Nat) :=
  match lines[turn.2]? with
  | none => .error .indexError
  | some text =>
      match parseInt 16 text with
      | none => .error .valueError
      | some word => .ok (memory.set turn.1 word.toNat)

/-- The loading of the hex file into the memory with the boot ROM. -/
def loadHex (hexfile : Text) (symbols : Symbols) : Except Raised (Dict Nat Nat) := do
  let start ← lookup symbols "_start"
  let stop ← lookup symbols "_end_main"
  (stepRange start (stop + 36) 8).zipIdx.foldlM (loadLine (readlines hexfile)) setBootrom

/-- The zeros of `tohost` and of the signature. -/
def clearSignature (symbols : Symbols) (memory : Dict Nat Nat) : Except Raised (Dict Nat Nat) := do
  let tohostAddr ← lookup symbols "tohost"
  let sigStart ← lookup symbols "begin_signature"
  let sigEnd ← lookup symbols "end_signature"
  .ok ((stepRange (sigStart / 8 * 8) sigEnd 8).foldl (fun memory addr => memory.set addr 0)
    (memory.set tohostAddr 0))

/-- One word of an ordinary data section, as long as there are data words. -/
def restoreWord (data : List Nat) (state : Dict Nat Nat × Nat) (addr : Nat) : Dict Nat Nat × Nat :=
  match data[state.2]? with
  | none => state
  | some word => (state.1.set addr word, state.2 + 1)

/-- The words of the ordinary data sections. -/
def restoreRanges (data : List Nat) (ranges : List (Nat × Nat)) (memory : Dict Nat Nat) :
    Dict Nat Nat :=
  (ranges.foldl (fun state range =>
    (stepRange (alignDown range.1) (alignDown (range.2 + 7)) 8).foldl (restoreWord data) state)
    (memory, 0)).1

/-- One word of a section of a wrapped program: `memory[addr] = data[i + offset]`. -/
def restoreIndexed (data : List Nat) (offset : Int) (memory : Dict Nat Nat) (turn : Nat × Nat) :
    Except Raised (Dict Nat Nat) :=
  match index? data (turn.2 + offset) with
  | none => .error .indexError
  | some word => .ok (memory.set turn.1 word)

/-- The words of one section of a wrapped program, from an offset into the data words on. -/
def restoreSection (data : List Nat) (symbols : Symbols)
    (state : Dict Nat Nat × Int × List (Nat × Nat)) (n : Nat) :
    Except Raised (Dict Nat Nat × Int × List (Nat × Nat)) := do
  let dataStart ← lookup symbols (dataStartSymbol n)
  let dataEnd ← lookup symbols (dataEndSymbol n)
  let memory ← (stepRange (dataStart / 8 * 8) (dataEnd / 8 * 8) 8).zipIdx.foldlM
    (restoreIndexed data state.2.1) state.1
  .ok (memory, state.2.1 + ((dataEnd : Int) - dataStart) / 8, state.2.2 ++ [(dataStart, dataEnd)])

/-- The words of the data sections; returns the ranges that the signature covers, too. -/
def restoreData (input : RtlInput) (memory : Dict Nat Nat) :
    Except Raised (Dict Nat Nat × List (Nat × Nat)) :=
  if input.dataAddrs ≠ [] then
    .ok (restoreRanges input.data input.dataAddrs memory, input.dataAddrs)
  else do
    let state ← (List.range 6).foldlM (restoreSection input.data input.symbols) (memory, 0, [])
    .ok (state.1, state.2.2)

/-- The setup of `run_test`: the memory in which the simulation starts and the ranges of the
data sections. -/
def runTestSetup (input : RtlInput) : Except Raised (Dict Nat Nat × List (Nat × Nat)) := do
  let loaded ← loadHex input.hexfile input.symbols
  let cleared ← clearSignature input.symbols loaded
  restoreData input cleared

/-! ## Accepted programs -/

/-- The symbols that an instrumented program must have. -/
def requiredSymbols : List String :=
  ["begin_signature", "end_signature", "tohost"] ++ (List.range 32).map xregSymbol ++
    (List.range 32).map fregSymbol ++ csrNames.map csrSymbol ++ (List.range 6).map dataStartSymbol ++
    (List.range 6).map dataEndSymbol ++ ["_end_main"]

/-- `has_signature_symbols`. -/
def hasSignatureSymbols (symbols : Symbols) : Bool :=
  requiredSymbols.all fun name => (symbols name).isSome

end Difftest.Host
