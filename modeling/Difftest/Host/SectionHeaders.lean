import Difftest.Data.Dict
import Difftest.Text.Words

/-!
# Two parsers of section headers

The runner reads the section headers of a program twice, each time from what `readelf -S` prints:
`_get_section_headers` takes the lines as they are and decides by the number of their words,
`get_data_sections_info` joins the second line of a section to its first one and looks for the
type.
-/

namespace Difftest.Host

open Difftest.Text

/-! ## `_get_section_headers` -/

/-- The end of both branches: the section is kept when its numbers can be read, it is allocated
and it is not empty. -/
def storeSection (sections : Dict Text (Int × Int)) (sectionName addrStr sizeStr flags : Text) :
    Dict Text (Int × Int) :=
  match parseInt 16 addrStr, parseInt 16 sizeStr with
  | some addr, some size =>
      if 'A' ∈ flags ∧ 0 < size then sections.set sectionName (addr, size) else sections
  | _, _ => sections

/-- The word of index `j`, which exists where the parser asks for it. -/
def wordAt (parts : List Text) (j : Nat) : Text := parts.getD j []

/-- A line with five words, with the line behind it. -/
def twoLineSection (sections : Dict Text (Int × Int)) (parts nextParts : List Text) :
    Dict Text (Int × Int) :=
  if 3 ≤ nextParts.length then
    storeSection sections (wordAt parts 2) (wordAt parts 4) (wordAt nextParts 0)
      (wordAt nextParts 2)
  else sections

/-- The first word from the eighth to the twelfth that looks like flags. -/
def flagsOf (parts : List Text) : Text :=
  (((parts.take 12).drop 7).find? fun part =>
    decide ('A' ∈ part ∨ 'X' ∈ part ∨ 'W' ∈ part)).getD []

/-- A line with at least seven words. -/
def oneLineSection (sections : Dict Text (Int × Int)) (parts : List Text) :
    Dict Text (Int × Int) :=
  storeSection sections (wordAt parts 2) (wordAt parts 4) (wordAt parts 6) (flagsOf parts)

/-- The lines that are skipped without looking at their words. -/
def isSkipped (line : Text) : Bool :=
  strip line = [] || "There are".toList.isPrefixOf line ||
    "Section Headers:".toList.isPrefixOf line || "Key to Flags:".toList.isPrefixOf line

/-- The loop over the lines. -/
def headerLoop : List Text → Dict Text (Int × Int) → Dict Text (Int × Int)
  | [], sections => sections
  | line :: rest, sections =>
      let parts := words line
      if isSkipped line then headerLoop rest sections
      else if 2 ≤ parts.length ∧ wordAt parts 0 = ['['] then
        if parts.length = 5 then
          match rest with
          | [] => sections
          | next :: rest => headerLoop rest (twoLineSection sections parts (words next))
        else if 7 ≤ parts.length then headerLoop rest (oneLineSection sections parts)
        else headerLoop rest sections
      else headerLoop rest sections

/-- `_get_section_headers`, from what `readelf` printed. -/
def getSectionHeaders (stdout : Text) : Dict Text (Int × Int) :=
  headerLoop (stdout.splitOn '\n') .empty

/-! ## `get_data_sections_info` -/

/-- One line of the first loop, which joins continuation lines. -/
def mergeLine (mergedLines : List Text) (line : Text) : List Text :=
  let stripped := strip line
  if stripped = [] then mergedLines
  else if (line.head?.any isSpace) ∧ '[' ∉ stripped ∧ mergedLines ≠ [] then
    mergedLines.dropLast ++ [mergedLines.getLastD [] ++ ' ' :: stripped]
  else mergedLines ++ [stripped]

/-- The prefixes of the names of data sections. -/
def dataPrefixes : List Text :=
  [".data".toList, ".rodata".toList, ".sdata".toList, ".srodata".toList]

/-- A word of the bracketed index. -/
def isIndexWord (part : Text) : Bool := part = ['['] || [']'].isSuffixOf part

def progbits : Text := "PROGBITS".toList

/-- What the second loop makes of a line; a line without a readable data section gives
nothing. -/
def dataSection (line : Text) : Option (Text × Int × Int) :=
  let parts := words line
  if contains progbits line ∧ 6 ≤ parts.length then
    match parts.dropWhile isIndexWord, parts.idxOf? progbits with
    | sectionName :: _, some i =>
        if dataPrefixes.any (·.isPrefixOf sectionName) ∧ i + 1 < parts.length ∧
            i + 3 < parts.length then
          match parseInt 16 (wordAt parts (i + 1)), parseInt 16 (wordAt parts (i + 3)) with
          | some addr, some size => if 0 < size then some (sectionName, addr, size) else none
          | _, _ => none
        else none
    | _, _ => none
  else none

/-- `get_data_sections_info`, from what `readelf` printed. -/
def getDataSectionsInfo (stdout : Text) : List (Text × Int × Int) :=
  (((stdout.splitOn '\n').foldl mergeLine []).filterMap dataSection).mergeSort
    fun first second => first.2.1 ≤ second.2.1

/-! ## Printing a section table -/

/-- The type of a section: its name, or the number of a type that has none. -/
inductive SectionType where
  | known (typeName : Text)
  | unknown (value : Nat)
deriving DecidableEq, Repr

namespace SectionType

/-- The column of the type, cut to fifteen characters when it is the text for unknown ones. -/
def text : SectionType → Text
  | known typeName => typeName
  | unknown value => numeral 16 8 value ++ ": <unkn".toList

end SectionType

/-- A section header. -/
structure Section where
  sectionName : Text
  type : SectionType
  addr : Nat
  off : Nat
  size : Nat
  entSize : Nat
  flags : Text
  link : Nat
  info : Nat
  align : Nat
deriving DecidableEq, Repr

namespace Section

/-- The texts of a header have no blanks; the name may be empty, the type may not, and it
has no dot. -/
structure Printable (header : Section) : Prop where
  sectionName : ∀ c ∈ header.sectionName, isSpace c = false
  type : ∀ typeName, header.type = .known typeName →
    typeName ≠ [] ∧ ∀ c ∈ typeName, isSpace c = false ∧ c ≠ '.'
  flags : ∀ c ∈ header.flags, isSpace c = false ∧ c ≠ '['

end Section

/-- How a table is printed: a line for each section, with so many digits for an address, or the
two lines for each section of 64-bit files. -/
inductive Layout where
  | oneLine (addrWidth : Nat)
  | twoLine
deriving DecidableEq, Repr

namespace Layout

def decimal (n : Nat) : Text := Nat.toDigits 10 n

/-- The index in brackets, aligned to the right in two columns. -/
def bracketed (index : Nat) : Text := " [".toList ++ rjust 2 (decimal index) ++ "]".toList

variable (index : Nat) (header : Section)

/-- The line of a section in the layout with one line. -/
def wholeLine (addrWidth : Nat) : Text :=
  row [bracketed index, ljust 17 header.sectionName, ljust 15 header.type.text,
    numeral 16 addrWidth header.addr, numeral 16 6 header.off, numeral 16 6 header.size,
    numeral 16 2 header.entSize, rjust 3 header.flags, rjust 2 (decimal header.link),
    rjust 3 (decimal header.info), rjust 2 (decimal header.align)]

/-- The first of two lines. -/
def firstLine : Text :=
  row [bracketed index, ljust 17 header.sectionName, ljust 16 header.type.text,
    numeral 16 16 header.addr, ' ' :: numeral 16 8 header.off]

/-- The second of two lines. -/
def secondLine : Text :=
  row ["      ".toList ++ numeral 16 16 header.size, ' ' :: numeral 16 16 header.entSize,
    rjust 3 header.flags, "     ".toList ++ rjust 2 (decimal header.link),
    "  ".toList ++ rjust 3 (decimal header.info), "    ".toList ++ decimal header.align]

/-- The lines of a section. -/
def sectionLines : Layout → List Text
  | oneLine addrWidth => [wholeLine index header addrWidth]
  | twoLine => [firstLine index header, secondLine header]

/-- The lines of the sections from an index on. -/
def tableLines (layout : Layout) : Nat → List Section → List Text
  | _, [] => []
  | index, header :: rest =>
      sectionLines index header layout ++ tableLines layout (index + 1) rest

/-- The names of the columns. -/
def columns : Layout → List Text
  | oneLine _ =>
      ["  [Nr] Name              Type            Addr     Off    Size   ES Flg Lk Inf Al".toList]
  | twoLine =>
      ["  [Nr] Name              Type             Address           Offset".toList,
       "       Size              EntSize          Flags  Link  Info  Align".toList]

/-- The lines above the sections. -/
def head (layout : Layout) (count start : Nat) : List Text :=
  ["There are ".toList ++ decimal count ++ " section headers, starting at offset 0x".toList ++
      Nat.toDigits 16 start ++ ":".toList, [], "Section Headers:".toList] ++ layout.columns

/-- The lines below the sections. -/
def foot : List Text :=
  ["Key to Flags:".toList,
   "  W (write), A (alloc), X (execute), M (merge), S (strings), I (info),".toList,
   "  L (link order), O (extra OS processing required), G (group), T (TLS),".toList,
   "  C (compressed), x (unknown), o (OS specific), E (exclude),".toList,
   "  D (mbind), p (processor specific)".toList, []]

/-- What `readelf -S` prints. -/
def stdout (layout : Layout) (start : Nat) (table : List Section) : Text :=
  ['\n'].intercalate (layout.head table.length start ++ layout.tableLines 0 table ++ foot)

end Layout

end Difftest.Host
