import Difftest.Data.Dict
import Difftest.Data.Sequence
import Difftest.Data.Struct

/-!
# Loading an ELF file

`elf_to_memory_dict` reads the program headers of an ELF file and places every
`PT_LOAD` segment in a dictionary of 64-bit words.  Segments need not start or
end at a word, so a word that is already there is merged byte by byte.
-/

namespace Difftest.Elf

/-! ## Program headers -/

/-- What ELF32 and ELF64 files differ in: the size of an offset, an address or a
length, and the offsets of the fields that are read. -/
structure Layout where
  wordSize : Nat
  ePhoffOffset : Nat
  ePhentsizeOffset : Nat
  ePhnumOffset : Nat
  phSize : Nat
  pTypeOffset : Nat
  pOffsetOffset : Nat
  pVaddrOffset : Nat
  pFileszOffset : Nat
  pMemszOffset : Nat

/-- ELF32. -/
def elf32 : Layout where
  wordSize := 4
  ePhoffOffset := 28
  ePhentsizeOffset := 42
  ePhnumOffset := 44
  phSize := 32
  pTypeOffset := 0
  pOffsetOffset := 4
  pVaddrOffset := 8
  pFileszOffset := 16
  pMemszOffset := 20

/-- ELF64. -/
def elf64 : Layout where
  wordSize := 8
  ePhoffOffset := 32
  ePhentsizeOffset := 54
  ePhnumOffset := 56
  phSize := 56
  pTypeOffset := 0
  pOffsetOffset := 8
  pVaddrOffset := 16
  pFileszOffset := 32
  pMemszOffset := 40

/-- `elf_class`. -/
def layout (elfData : List UInt8) : Layout := if byteOf elfData 4 = 1 then elf32 else elf64

/-- `elf_endian`. -/
def endian (elfData : List UInt8) : ByteOrder := if byteOf elfData 5 = 1 then .little else .big

/-- A `PT_LOAD` segment. -/
structure Segment where
  offset : Nat
  vaddr : Nat
  filesz : Nat
  memsz : Nat
deriving DecidableEq, Repr

/-- The program header at an offset, if it is a `PT_LOAD` one. -/
def readSegment (elfData : List UInt8) (phOffset : Nat) : Except String (Option Segment) := do
  let fields := layout elfData
  let read := unpackFrom (endian elfData)
  let pType ← read 4 elfData (phOffset + fields.pTypeOffset)
  if pType = 1 then
    let offset ← read fields.wordSize elfData (phOffset + fields.pOffsetOffset)
    let vaddr ← read fields.wordSize elfData (phOffset + fields.pVaddrOffset)
    let filesz ← read fields.wordSize elfData (phOffset + fields.pFileszOffset)
    let memsz ← read fields.wordSize elfData (phOffset + fields.pMemszOffset)
    return some { offset, vaddr, filesz, memsz }
  else
    return none

/-- The loop over the program headers; a header past the end of the file ends it. -/
def loadSegments (elfData : List UInt8) (ePhentsize : Nat) :
    (ePhnum phOffset : Nat) → Except String (List Segment)
  | 0, _ => .ok []
  | ePhnum + 1, phOffset =>
      if phOffset + (layout elfData).phSize > elfData.length then .ok []
      else do
        let segment ← readSegment elfData phOffset
        let rest ← loadSegments elfData ePhentsize ePhnum (phOffset + ePhentsize)
        return segment.toList ++ rest

/-! ## Placing a segment -/

/-- `seg_data`: the bytes of the segment that are in the file. -/
def Segment.segData (elfData : List UInt8) (seg : Segment) : List UInt8 :=
  if seg.offset + seg.filesz ≤ elfData.length then (elfData.drop seg.offset).take seg.filesz
  else if seg.offset < elfData.length then elfData.drop seg.offset
  else []

/-- `aligned_addr`. -/
def Segment.alignedAddr (seg : Segment) : Nat := Nat.ldiff seg.vaddr 0x7

/-- `addr_offset`. -/
def Segment.addrOffset (seg : Segment) : Nat := seg.vaddr - seg.alignedAddr

/-- Pad with zeros to a whole number of words. -/
def padToWord (data : List UInt8) : List UInt8 :=
  if data.length % 8 ≠ 0 then data ++ List.replicate (8 - data.length % 8) 0 else data

/-- `padded_data`. -/
def paddedData (addrOffset : Nat) (segData : List UInt8) : List UInt8 :=
  padToWord (if addrOffset > 0 then List.replicate addrOffset 0 ++ segData else segData)

/-- Copy one byte of `new_word` into `existing_word`. -/
def mergeByte (newWord existingWord byteIdx : Nat) : Nat :=
  let newByte := (newWord >>> (byteIdx * 8)) &&& 0xff
  let byteMask := 0xff <<< (byteIdx * 8)
  Nat.ldiff existingWord byteMask ||| newByte <<< (byteIdx * 8)

/-- Is this byte of the padded data a byte of the segment?  The position counts
from the start of the segment and is negative in the padding before it. -/
def isSegByte (addrOffset segLen position : Nat) : Bool :=
  let segBytePos : Int := position - addrOffset
  0 ≤ segBytePos && segBytePos < segLen

/-- The first turns of the loop that copies the segment's bytes of `new_word` into
`existing_word`. -/
def mergeBytes (addrOffset segLen i newWord existingWord turns : Nat) : Nat :=
  (List.range turns).foldl
    (fun existingWord byteIdx =>
      if isSegByte addrOffset segLen (i + byteIdx) then mergeByte newWord existingWord byteIdx
      else existingWord)
    existingWord

/-- Place the word at offset `i` of the padded data. -/
def placeWord (alignedAddr addrOffset : Nat) (segData : List UInt8) (memory : Dict Nat Nat)
    (i : Nat) : Except String (Dict Nat Nat) := do
  let padded := paddedData addrOffset segData
  let addr := alignedAddr + i
  if i + 8 ≤ padded.length then
    let newWord ← unpackFrom .little 8 padded i
    match memory.get? addr with
    | some existingWord =>
        return memory.set addr (mergeBytes addrOffset segData.length i newWord existingWord 8)
    | none => return memory.set addr newWord
  else
    return memory

/-- Place the file data of a segment. -/
def placeData (alignedAddr addrOffset : Nat) (segData : List UInt8) (memory : Dict Nat Nat) :
    Except String (Dict Nat Nat) :=
  (stepRange 0 (paddedData addrOffset segData).length 8).foldlM
    (placeWord alignedAddr addrOffset segData) memory

/-- Zero-fill the words of the BSS region that are not there yet. -/
def zeroFill (seg : Segment) (memory : Dict Nat Nat) : Dict Nat Nat :=
  if seg.memsz > seg.filesz then
    let bssStart := seg.vaddr + seg.filesz
    let bssEnd := seg.vaddr + seg.memsz
    (stepRange (Nat.ldiff bssStart 0x7) bssEnd 8).foldl
      (fun memory addr => memory.setDefault addr 0) memory
  else memory

/-- Load one segment. -/
def loadSegment (elfData : List UInt8) (memory : Dict Nat Nat) (seg : Segment) :
    Except String (Dict Nat Nat) := do
  let memory ← placeData seg.alignedAddr seg.addrOffset (seg.segData elfData) memory
  return zeroFill seg memory

/-! ## The file -/

/-- `b'\x7fELF'`. -/
def elfMagic : List UInt8 := [0x7f, 0x45, 0x4c, 0x46]

/-- `elf_to_memory_dict`; `file` is the content of the file, if there is one. -/
def elfToMemoryDict (elfPath : String) (file : Option (List UInt8)) :
    Except String (Dict Nat Nat) := do
  match file with
  | none => .error s!"ELF file not found: {elfPath}"
  | some elfData =>
      if elfData.length < 64 ∨ elfData.take 4 ≠ elfMagic then
        .error s!"Not a valid ELF file: {elfPath}"
      else
        let fields := layout elfData
        let read := unpackFrom (endian elfData)
        let ePhoff ← read fields.wordSize elfData fields.ePhoffOffset
        let ePhentsize ← read 2 elfData fields.ePhentsizeOffset
        let ePhnum ← read 2 elfData fields.ePhnumOffset
        let segments ← loadSegments elfData ePhentsize ePhnum ePhoff
        let memory ← segments.foldlM (loadSegment elfData) Dict.empty
        if memory.entries.isEmpty then
          .error s!"ELF file {elfPath} produced no loadable segments"
        else
          .ok memory

end Difftest.Elf
