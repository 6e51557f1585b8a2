import Difftest.Spike.MemoryMap
import Difftest.Text.Words

/-!
# Reading the program headers

`get_spike_memory_map` takes the segments of a program from what `readelf -l` prints, which has
one line or two lines for each header.  The loop over the lines keeps the address of a header
whose size stands on the next line.
-/

namespace Difftest.Spike

open Difftest.Text

/-! ## The loop over the lines -/

/-- `load_segments` and `pending_vaddr`. -/
structure Parse where
  loadSegments : List (Int × Int)
  pendingVaddr : Option Int
deriving DecidableEq, Repr

def loadMark : Text := "LOAD".toList

/-- `int(parts[j], 16)`; `none` is a `ValueError` or an `IndexError`. -/
def hexAt (parts : List Text) (j : Nat) : Option Int := parts[j]?.bind (parseInt 16)

/-- The address and the size on a line with all fields. -/
def singleLine (parts : List Text) : Option (Int × Int) :=
  if 6 ≤ parts.length then
    (hexAt parts 2).bind fun vaddr => (hexAt parts 5).map fun memsz => (vaddr, memsz)
  else none

/-- A line that starts with `LOAD`. -/
def parseLoadLine (parse : Parse) (parts : List Text) : Parse :=
  match singleLine parts with
  | some segment => ⟨parse.loadSegments ++ [segment], none⟩
  | none => if 4 ≤ parts.length then ⟨parse.loadSegments, hexAt parts 2⟩ else parse

/-- The line behind a pending address. -/
def parseSizeLine (parse : Parse) (vaddr : Int) (parts : List Text) : Parse :=
  if 2 ≤ parts.length then
    match hexAt parts 1 with
    | some memsz => ⟨parse.loadSegments ++ [(vaddr, memsz)], none⟩
    | none => ⟨parse.loadSegments, none⟩
  else ⟨parse.loadSegments, none⟩

/-- One turn of the loop. -/
def parseLine (parse : Parse) (line : Text) : Parse :=
  let stripped := strip line
  if loadMark.isPrefixOf stripped then parseLoadLine parse (words stripped)
  else
    match parse.pendingVaddr with
    | some vaddr => if stripped ≠ [] then parseSizeLine parse vaddr (words stripped) else parse
    | none =>
        if stripped.head?.any fun c => !isSpace c then ⟨parse.loadSegments, none⟩ else parse

/-- The loop over the lines. -/
def parseLines (lines : List Text) : Parse := lines.foldl parseLine ⟨[], none⟩

/-- `load_segments` behind the loop, from what `readelf` printed. -/
def parseSegments (stdout : Text) : List (Int × Int) :=
  (parseLines (stdout.splitOn '\n')).loadSegments

/-! ## Printing program headers -/

/-- The type of a header; the path of an interpreter is printed behind the header. -/
inductive SegmentType where
  | load
  | interp (path : Text)
  | other (typeName : Text)
deriving DecidableEq, Repr

def SegmentType.text : SegmentType → Text
  | load => loadMark
  | interp _ => "INTERP".toList
  | other typeName => typeName

/-- A program header. -/
structure ProgramHeader where
  type : SegmentType
  offset : Nat
  vaddr : Nat
  paddr : Nat
  filesz : Nat
  memsz : Nat
  readable : Bool
  writable : Bool
  executable : Bool
  align : Nat
deriving DecidableEq, Repr

/-- What is listed: the headers, the lines above them, and the names of the sections in each
segment, which are left out for a file without sections. -/
structure Listing where
  fileType : Text
  entryPoint : Nat
  start : Nat
  headers : List ProgramHeader
  mapping : List (List Text)
deriving DecidableEq, Repr

namespace ProgramHeader

variable (header : ProgramHeader)

/-- The segment that a header of type `LOAD` describes. -/
def segment? : Option LoadSegment :=
  match header.type with
  | .load => some ⟨header.vaddr, header.memsz⟩
  | _ => none

/-- `%c%c%c`. -/
def flags : Text :=
  [if header.readable then 'R' else ' ', if header.writable then 'W' else ' ',
    if header.executable then 'E' else ' ']

/-- `  %-14.14s`. -/
def typeColumn : Text := ' ' :: ljust 14 (header.type.text.take 14)

/-- `%#x`. -/
def alignColumn : Text := if header.align = 0 then ['0'] else hexNumeral 1 header.align

/-- The line of a header in the layout with one line. -/
def wholeLine (addrWidth sizeWidth : Nat) : Text :=
  row [header.typeColumn, hexNumeral 6 header.offset, hexNumeral addrWidth header.vaddr,
    hexNumeral addrWidth header.paddr, hexNumeral sizeWidth header.filesz,
    hexNumeral sizeWidth header.memsz, header.flags, header.alignColumn]

/-- The first of two lines. -/
def firstLine : Text :=
  row [header.typeColumn, hexNumeral 16 header.offset, hexNumeral 16 header.vaddr,
    hexNumeral 16 header.paddr]

/-- The second of two lines. -/
def secondLine : Text :=
  row [List.replicate 16 ' ' ++ hexNumeral 16 header.filesz, hexNumeral 16 header.memsz,
    ' ' :: header.flags, List.replicate 3 ' ' ++ hexNumeral 1 header.align]

/-- The line of an interpreter. -/
def interpreterLines : List Text :=
  match header.type with
  | .interp path => ["      [Requesting program interpreter: ".toList ++ path ++ [']']]
  | _ => []

/-- No text of the header breaks a line, and no other type is named like `LOAD`. -/
structure Printable : Prop where
  path : ∀ path, header.type = .interp path → '\n' ∉ path
  typeName : ∀ typeName, header.type = .other typeName →
    (∃ c ∈ typeName.head?, isSpace c = false) ∧ '\n' ∉ typeName ∧ ¬ loadMark <+: typeName

end ProgramHeader

/-- How headers are printed: a line for each, with so many digits for addresses and sizes, or the
two lines for each header of 64-bit files. -/
inductive HeaderLayout where
  | oneLine (addrWidth sizeWidth : Nat)
  | twoLine
deriving DecidableEq, Repr

namespace HeaderLayout

/-- The lines of a header. -/
def headerLines (layout : HeaderLayout) (header : ProgramHeader) : List Text :=
  (match layout with
    | oneLine addrWidth sizeWidth => [header.wholeLine addrWidth sizeWidth]
    | twoLine => [header.firstLine, header.secondLine]) ++ header.interpreterLines

/-- The lines of the headers. -/
def tableLines (layout : HeaderLayout) (headers : List ProgramHeader) : List Text :=
  headers.flatMap layout.headerLines

/-- The names of the columns. -/
def columns : HeaderLayout → List Text
  | oneLine _ _ =>
      ["  Type           Offset   VirtAddr   PhysAddr   FileSiz MemSiz  Flg Align".toList]
  | twoLine =>
      ["  Type           Offset             VirtAddr           PhysAddr".toList,
       "                 FileSiz            MemSiz              Flags  Align".toList]

/-- The line with the number of headers. -/
def countLine (count start : Nat) : Text :=
  (if count = 1 then "There is 1 program header".toList
    else "There are ".toList ++ Nat.toDigits 10 count ++ " program headers".toList) ++
    ", starting at offset ".toList ++ Nat.toDigits 10 start

/-- The lines above the headers. -/
def head (layout : HeaderLayout) (listing : Listing) : List Text :=
  [[], "Elf file type is ".toList ++ listing.fileType,
    "Entry point ".toList ++ hexNumeral 1 listing.entryPoint,
    countLine listing.headers.length listing.start, [], "Program Headers:".toList] ++
    layout.columns

/-- The line with the sections of a segment. -/
def mappingLine (index : Nat) (sections : List Text) : Text :=
  "   ".toList ++ numeral 10 2 index ++ "     ".toList ++ sections.flatMap (· ++ [' '])

/-- The lines below the headers. -/
def foot (mapping : List (List Text)) : List Text :=
  (if mapping = [] then []
    else [[], " Section to Segment mapping:".toList, "  Segment Sections...".toList] ++
      mapping.zipIdx.map fun entry => mappingLine entry.2 entry.1) ++ [[]]

/-- The lines of a listing; a file without headers has a line that says so. -/
def lines (layout : HeaderLayout) (listing : Listing) : List Text :=
  if listing.headers = [] then [[], "There are no program headers in this file.".toList, []]
  else layout.head listing ++ layout.tableLines listing.headers ++ foot listing.mapping

/-- What `readelf -l` prints. -/
def stdout (layout : HeaderLayout) (listing : Listing) : Text :=
  ['\n'].intercalate (layout.lines listing)

end HeaderLayout

/-- No text of a listing breaks a line. -/
structure Listing.Printable (listing : Listing) : Prop where
  fileType : '\n' ∉ listing.fileType
  headers : ∀ header ∈ listing.headers, header.Printable
  mapping : ∀ sections ∈ listing.mapping, ∀ sectionName ∈ sections, '\n' ∉ sectionName

/-! ## Lines without a segment -/

/-- A line that the loop does not take for a header of type `LOAD`. -/
def Unmarked (line : Text) : Prop := ¬ loadMark <+: strip line

theorem plain_loadMark : ∀ c ∈ loadMark, isSpace c = false := by decide

theorem parseLine_unmarked {line : Text} (unmarked : Unmarked line) (collected : List (Int × Int)) :
    parseLine ⟨collected, none⟩ line = ⟨collected, none⟩ := by
  simp only [parseLine]
  rw [if_neg (by rwa [List.isPrefixOf_iff_prefix])]
  split
  · rfl
  · rfl

theorem parse_unmarked {lines : List Text} (unmarked : ∀ line ∈ lines, Unmarked line)
    (collected : List (Int × Int)) :
    lines.foldl parseLine ⟨collected, none⟩ = ⟨collected, none⟩ := by
  induction lines with
  | nil => rfl
  | cons line lines inductionHypothesis =>
      rw [List.foldl_cons, parseLine_unmarked (unmarked line List.mem_cons_self)]
      exact inductionHypothesis fun other mem => unmarked other (List.mem_cons_of_mem line mem)

/-- A line whose first character apart from blanks is another one. -/
theorem unmarked_of_head {line : Text} (other : (line.dropWhile isSpace).head? ≠ some 'L') :
    Unmarked line := by
  intro starts
  rcases (prefix_strip_iff plain_loadMark line).mp starts with ⟨more, shape⟩
  apply other
  rw [← shape]
  rfl

theorem unmarked_nil : Unmarked [] := by
  apply unmarked_of_head
  intro isHead
  cases isHead

/-- The type of a row decides. -/
theorem starts_row_iff {text : Text} (solid : ∃ c ∈ text.head?, isSpace c = false) (field : Text)
    (fields : List Text) :
    loadMark <+: strip (row ((' ' :: ljust 14 (text.take 14)) :: field :: fields)) ↔
      loadMark <+: text := by
  rcases solid with ⟨c, isHead, plain⟩
  cases text with
  | nil => cases isHead
  | cons first text =>
      rw [← Option.some.inj isHead] at plain
      have dropped : (row ((' ' :: ljust 14 ((first :: text).take 14)) :: field :: fields)).dropWhile
          isSpace = ljust 14 ((first :: text).take 14) ++ ' ' :: (field ++ row fields) := by
        change (' ' :: ' ' :: first :: _).dropWhile isSpace = first :: _
        rw [List.dropWhile_cons_of_pos (by decide), List.dropWhile_cons_of_pos (by decide),
          List.dropWhile_cons_of_neg (by rw [plain]; exact Bool.false_ne_true)]
        rfl
      have blanks : ∀ k more, loadMark <+:
          (first :: text).take 14 ++ (List.replicate k ' ' ++ ' ' :: more) ↔
            loadMark <+: (first :: text).take 14 := by
        intro k more
        cases k with
        | zero => exact prefix_append_cons (by decide) _ _
        | succ k => exact prefix_append_cons (by decide) _ _
      rw [prefix_strip_iff plain_loadMark, dropped, ljust, List.append_assoc, blanks,
        List.prefix_take_iff]
      exact and_iff_left (by decide)

/-! ## The lines of a header -/

section Header

variable {header : ProgramHeader} (collected : List (Int × Int))

theorem solid_type (printable : header.Printable) :
    ∃ c ∈ header.type.text.head?, isSpace c = false := by
  cases isType : header.type with
  | load => exact ⟨'L', rfl, by decide⟩
  | interp path => exact ⟨'I', rfl, by decide⟩
  | other typeName => exact (printable.typeName typeName isType).1

/-- A row of a header is taken for one of type `LOAD` when it is. -/
theorem starts_typeColumn_iff (printable : header.Printable) (field : Text) (fields : List Text) :
    loadMark <+: strip (row (header.typeColumn :: field :: fields)) ↔ header.type = .load := by
  rw [ProgramHeader.typeColumn, starts_row_iff (solid_type printable)]
  cases isType : header.type with
  | load =>
      constructor
      · exact fun _ => rfl
      · exact fun _ => List.prefix_rfl
  | interp path =>
      constructor
      · exact fun starts => absurd starts (by decide : ¬ loadMark <+: "INTERP".toList)
      · exact nofun
  | other typeName =>
      constructor
      · exact fun starts => absurd starts (printable.typeName typeName isType).2.2
      · exact nofun

theorem parseLine_load {line : Text} {parse : Parse} (starts : loadMark <+: strip line) :
    parseLine parse line = parseLoadLine parse (words line) := by
  rw [parseLine, if_pos (List.isPrefixOf_iff_prefix.mpr starts), words_strip]

theorem words_typeColumn (isLoad : header.type = .load) : words header.typeColumn = [loadMark] := by
  rw [ProgramHeader.typeColumn, isLoad]
  decide +kernel

theorem hexAt_hexNumeral {parts : List Text} {j width n : Nat}
    (isPart : parts[j]? = some (hexNumeral width n)) : hexAt parts j = some (n : Int) := by
  rw [hexAt, isPart, Option.bind_some, parseInt_hexNumeral]

/-- The only line of a header gives its segment. -/
theorem parseLine_wholeLine (printable : header.Printable) (isLoad : header.type = .load)
    (addrWidth sizeWidth : Nat) :
    parseLine ⟨collected, none⟩ (header.wholeLine addrWidth sizeWidth) =
      ⟨collected ++ [((header.vaddr : Int), (header.memsz : Int))], none⟩ := by
  have starts : loadMark <+: strip (header.wholeLine addrWidth sizeWidth) :=
    (starts_typeColumn_iff printable _ _).mpr isLoad
  have isWords : words (header.wholeLine addrWidth sizeWidth) =
      loadMark :: hexNumeral 6 header.offset :: hexNumeral addrWidth header.vaddr ::
        hexNumeral addrWidth header.paddr :: hexNumeral sizeWidth header.filesz ::
          hexNumeral sizeWidth header.memsz ::
            (words header.flags ++ words header.alignColumn) := by
    rw [ProgramHeader.wholeLine, words_row]
    simp [words_typeColumn isLoad]
  have single : singleLine (words (header.wholeLine addrWidth sizeWidth)) =
      some ((header.vaddr : Int), (header.memsz : Int)) := by
    rw [isWords, singleLine, if_pos (by simp), hexAt_hexNumeral rfl, hexAt_hexNumeral rfl]
    rfl
  rw [parseLine_load starts, parseLoadLine, single]

/-- The first of two lines leaves the address. -/
theorem parseLine_firstLine (printable : header.Printable) (isLoad : header.type = .load) :
    parseLine ⟨collected, none⟩ header.firstLine = ⟨collected, some (header.vaddr : Int)⟩ := by
  have starts : loadMark <+: strip header.firstLine :=
    (starts_typeColumn_iff printable _ _).mpr isLoad
  have isWords : words header.firstLine =
      [loadMark, hexNumeral 16 header.offset, hexNumeral 16 header.vaddr,
        hexNumeral 16 header.paddr] := by
    rw [ProgramHeader.firstLine, words_row]
    simp [words_typeColumn isLoad]
  have notSingle : singleLine (words header.firstLine) = none := by
    rw [isWords]
    rfl
  rw [parseLine_load starts, parseLoadLine, notSingle, isWords]
  simp only [List.length_cons, List.length_nil]
  rw [if_pos (by decide), hexAt_hexNumeral rfl]

theorem unmarked_secondLine : Unmarked header.secondLine := by
  apply unmarked_of_head
  have first : (header.secondLine.dropWhile isSpace).head? = some '0' := rfl
  rw [first]
  decide

/-- The second of two lines adds the size to the address. -/
theorem parseLine_secondLine (vaddr : Int) :
    parseLine ⟨collected, some vaddr⟩ header.secondLine =
      ⟨collected ++ [(vaddr, (header.memsz : Int))], none⟩ := by
  have isWords : words header.secondLine =
      hexNumeral 16 header.filesz :: hexNumeral 16 header.memsz ::
        (words header.flags ++ [hexNumeral 1 header.align]) := by
    have blanks : ∀ n text, words (List.replicate n ' ' ++ text) = words text :=
      fun n text => words_blanks_append (fun _ mem => isSpace_of_mem_replicate mem) text
    have one : words (' ' :: header.flags) = words header.flags := words_cons (by decide) _
    rw [ProgramHeader.secondLine, words_row]
    simp only [List.flatMap_cons, List.flatMap_nil, blanks, one, words_hexNumeral,
      List.singleton_append, List.append_nil]
  have stays : strip header.secondLine ≠ [] := by
    intro empty
    have noWords := words_strip header.secondLine
    rw [empty, isWords, words_nil] at noWords
    cases noWords
  simp only [parseLine]
  rw [if_neg (by rw [List.isPrefixOf_iff_prefix]; exact unmarked_secondLine)]
  rw [if_pos stays, words_strip, isWords, parseSizeLine, if_pos (by simp), hexAt_hexNumeral rfl]

variable {layout : HeaderLayout}

theorem unmarked_interpreterLines : ∀ line ∈ header.interpreterLines, Unmarked line := by
  intro line isLine
  rw [ProgramHeader.interpreterLines] at isLine
  cases isType : header.type with
  | interp path =>
      rw [isType] at isLine
      rw [List.mem_singleton.mp isLine]
      apply unmarked_of_head
      have first : (("      [Requesting program interpreter: ".toList ++ path ++ [']']).dropWhile
          isSpace).head? = some '[' := rfl
      rw [first]
      decide
  | load =>
      rw [isType] at isLine
      cases isLine
  | other typeName =>
      rw [isType] at isLine
      cases isLine

/-- The lines of other headers are passed over. -/
theorem unmarked_headerLines (printable : header.Printable) (notLoad : header.type ≠ .load) :
    ∀ line ∈ layout.headerLines header, Unmarked line := by
  have typeRow : ∀ field fields, Unmarked (row (header.typeColumn :: field :: fields)) :=
    fun field fields starts => notLoad ((starts_typeColumn_iff printable field fields).mp starts)
  intro line isLine
  rcases List.mem_append.mp isLine with ofLayout | ofInterpreter
  · cases layout with
    | oneLine addrWidth sizeWidth =>
        rw [List.mem_singleton.mp ofLayout]
        exact typeRow _ _
    | twoLine =>
        rcases List.mem_cons.mp ofLayout with rfl | second
        · exact typeRow _ _
        · rw [List.mem_singleton.mp second]
          exact unmarked_secondLine
  · exact unmarked_interpreterLines line ofInterpreter

theorem interpreterLines_load (isLoad : header.type = .load) : header.interpreterLines = [] := by
  rw [ProgramHeader.interpreterLines, isLoad]

theorem headerLines_oneLine (isLoad : header.type = .load) (addrWidth sizeWidth : Nat) :
    (HeaderLayout.oneLine addrWidth sizeWidth).headerLines header =
      [header.wholeLine addrWidth sizeWidth] := by
  rw [HeaderLayout.headerLines, interpreterLines_load isLoad, List.append_nil]

theorem headerLines_twoLine (isLoad : header.type = .load) :
    HeaderLayout.twoLine.headerLines header = [header.firstLine, header.secondLine] := by
  rw [HeaderLayout.headerLines, interpreterLines_load isLoad, List.append_nil]

end Header

/-- An entry of `load_segments`. -/
def LoadSegment.entry (segment : LoadSegment) : Int × Int := (segment.vaddr, segment.memsz)

/-- The entries of the headers of type `LOAD`. -/
def loadEntries (headers : List ProgramHeader) : List (Int × Int) :=
  (headers.filterMap ProgramHeader.segment?).map LoadSegment.entry

theorem loadEntries_cons_load {header : ProgramHeader} (isLoad : header.type = .load)
    (headers : List ProgramHeader) :
    loadEntries (header :: headers) =
      ((header.vaddr : Int), (header.memsz : Int)) :: loadEntries headers := by
  have isSegment : header.segment? = some ⟨header.vaddr, header.memsz⟩ := by
    rw [ProgramHeader.segment?, isLoad]
  rw [loadEntries, List.filterMap_cons_some isSegment]
  rfl

theorem loadEntries_cons_of_ne {header : ProgramHeader} (notLoad : header.type ≠ .load)
    (headers : List ProgramHeader) : loadEntries (header :: headers) = loadEntries headers := by
  have noSegment : header.segment? = none := by
    rw [ProgramHeader.segment?]
    split
    · rename_i isLoad
      exact absurd isLoad notLoad
    · rfl
  rw [loadEntries, List.filterMap_cons_none noSegment, loadEntries]

section Table

variable {layout : HeaderLayout}

/-- The lines of a header add its segment and leave nothing pending. -/
theorem parse_headerLines {header : ProgramHeader} (printable : header.Printable)
    (collected : List (Int × Int)) :
    (layout.headerLines header).foldl parseLine ⟨collected, none⟩ =
      ⟨collected ++ loadEntries [header], none⟩ := by
  by_cases isLoad : header.type = .load
  · rw [loadEntries_cons_load isLoad]
    cases layout with
    | oneLine addrWidth sizeWidth =>
        rw [headerLines_oneLine isLoad]
        exact parseLine_wholeLine collected printable isLoad _ _
    | twoLine =>
        rw [headerLines_twoLine isLoad, List.foldl_cons,
          parseLine_firstLine collected printable isLoad]
        exact parseLine_secondLine collected _
  · rw [loadEntries_cons_of_ne isLoad, parse_unmarked (unmarked_headerLines printable isLoad)]
    exact congrArg (Parse.mk · none) (List.append_nil collected).symm

/-- The lines of the headers add their segments and leave nothing pending. -/
theorem parse_tableLines {headers : List ProgramHeader}
    (printable : ∀ header ∈ headers, header.Printable) (collected : List (Int × Int)) :
    (layout.tableLines headers).foldl parseLine ⟨collected, none⟩ =
      ⟨collected ++ loadEntries headers, none⟩ := by
  induction headers generalizing collected with
  | nil => exact congrArg (Parse.mk · none) (List.append_nil collected).symm
  | cons header headers inductionHypothesis =>
      have entries : loadEntries (header :: headers) = loadEntries [header] ++ loadEntries headers := by
        rw [loadEntries, loadEntries, loadEntries, ← List.map_append, ← List.filterMap_append]
        rfl
      rw [HeaderLayout.tableLines, List.flatMap_cons, List.foldl_append,
        parse_headerLines (printable header List.mem_cons_self), ← HeaderLayout.tableLines,
        inductionHypothesis fun other mem => printable other (List.mem_cons_of_mem header mem),
        entries, List.append_assoc]

/-- Inside the lines of a header, an address is pending behind the first of two lines of a header
of type `LOAD`. -/
theorem pending_headerLines {header : ProgramHeader} (printable : header.Printable)
    (collected : List (Int × Int)) {front : List Text} (isPrefix : front <+: layout.headerLines header)
    {vaddr : Int} (pending : (front.foldl parseLine ⟨collected, none⟩).pendingVaddr = some vaddr) :
    layout = .twoLine ∧ header.interpreterLines = [] ∧ front = [header.firstLine] ∧
      vaddr = header.vaddr := by
  by_cases isLoad : header.type = .load
  · cases front with
    | nil => cases pending
    | cons line front =>
        cases layout with
        | oneLine addrWidth sizeWidth =>
            rw [headerLines_oneLine isLoad] at isPrefix
            rcases List.cons_prefix_cons.mp isPrefix with ⟨rfl, rest⟩
            rw [List.prefix_nil.mp rest, List.foldl_cons,
              parseLine_wholeLine collected printable isLoad] at pending
            cases pending
        | twoLine =>
            rw [headerLines_twoLine isLoad] at isPrefix
            rcases List.cons_prefix_cons.mp isPrefix with ⟨rfl, rest⟩
            rw [List.foldl_cons, parseLine_firstLine collected printable isLoad] at pending
            cases front with
            | nil =>
                refine ⟨rfl, interpreterLines_load isLoad, rfl, ?_⟩
                exact (Option.some.inj pending).symm
            | cons second front =>
                rcases List.cons_prefix_cons.mp rest with ⟨rfl, nothing⟩
                rw [List.prefix_nil.mp nothing, List.foldl_cons, parseLine_secondLine] at pending
                cases pending
  · have unmarked : ∀ line ∈ front, Unmarked line := fun line mem =>
      unmarked_headerLines printable isLoad line (isPrefix.mem mem)
    rw [parse_unmarked unmarked] at pending
    cases pending

/-- Among the lines of the headers an address is pending only between the two lines of a header. -/
theorem pending_tableLines {headers : List ProgramHeader}
    (printable : ∀ header ∈ headers, header.Printable) (collected : List (Int × Int))
    {front : List Text} (isPrefix : front <+: layout.tableLines headers) {vaddr : Int}
    (pending : (front.foldl parseLine ⟨collected, none⟩).pendingVaddr = some vaddr) :
    ∃ before header after, headers = before ++ header :: after ∧ layout = .twoLine ∧
      header.interpreterLines = [] ∧ front = layout.tableLines before ++ [header.firstLine] ∧
      vaddr = header.vaddr := by
  induction headers generalizing collected front with
  | nil =>
      rw [List.prefix_nil.mp isPrefix] at pending
      cases pending
  | cons header headers inductionHypothesis =>
      have isPrintable := printable header List.mem_cons_self
      have cut : layout.tableLines (header :: headers) =
          layout.headerLines header ++ layout.tableLines headers := rfl
      rw [cut] at isPrefix
      rcases List.prefix_or_prefix_of_prefix isPrefix (List.prefix_append _ _) with
        inside | ⟨behind, rfl⟩
      · rcases pending_headerLines isPrintable collected inside pending with
          ⟨twoLine, noInterpreter, isFront, isAddr⟩
        exact ⟨[], header, headers, rfl, twoLine, noInterpreter, isFront, isAddr⟩
      · rw [List.prefix_append_right_inj] at isPrefix
        rw [List.foldl_append, parse_headerLines isPrintable] at pending
        rcases inductionHypothesis
            (fun other mem => printable other (List.mem_cons_of_mem header mem)) _ isPrefix pending
          with ⟨before, owner, after, rfl, twoLine, noInterpreter, rfl, isAddr⟩
        refine ⟨header :: before, owner, after, rfl, twoLine, noInterpreter, ?_, isAddr⟩
        rw [← List.append_assoc]
        rfl

end Table

/-! ## The lines around the headers -/

section Listing

variable {layout : HeaderLayout} {listing : Listing}

/-- A line with a known first character. -/
theorem unmarked_of_first {line : Text} {c : Char} (first : (line.dropWhile isSpace).head? = some c)
    (other : c ≠ 'L') : Unmarked line := by
  apply unmarked_of_head
  rw [first]
  exact fun same => other (Option.some.inj same)

theorem unmarked_head : ∀ line ∈ layout.head listing, Unmarked line := by
  intro line isLine
  rcases List.mem_append.mp isLine with top | isColumns
  · simp only [List.mem_cons, List.not_mem_nil, or_false] at top
    rcases top with rfl | rfl | rfl | rfl | rfl | rfl
    · exact unmarked_nil
    · exact @unmarked_of_first _ 'E' rfl (by decide)
    · exact @unmarked_of_first _ 'E' rfl (by decide)
    · rw [HeaderLayout.countLine]
      split
      · exact @unmarked_of_first _ 'T' rfl (by decide)
      · exact @unmarked_of_first _ 'T' rfl (by decide)
    · exact unmarked_nil
    · exact @unmarked_of_first _ 'P' rfl (by decide)
  · cases layout with
    | oneLine addrWidth sizeWidth =>
        rw [List.mem_singleton.mp isColumns]
        exact @unmarked_of_first _ 'T' rfl (by decide)
    | twoLine =>
        rcases List.mem_cons.mp isColumns with rfl | second
        · exact @unmarked_of_first _ 'T' rfl (by decide)
        · rw [List.mem_singleton.mp second]
          exact @unmarked_of_first _ 'F' rfl (by decide)

/-- A line of the mapping starts with a number. -/
theorem unmarked_mappingLine (index : Nat) (sections : List Text) :
    Unmarked (HeaderLayout.mappingLine index sections) := by
  rcases List.exists_cons_of_ne_nil (numeral_ne_nil 10 2 index) with ⟨c, rest, shape⟩
  have digit : (digitValue 10 c).isSome := by
    apply digit_of_mem_numeral (by decide) (by decide) 2 index
    rw [shape]
    exact List.mem_cons_self
  have solid := not_isSpace_of_digit digit
  have first : ((HeaderLayout.mappingLine index sections).dropWhile isSpace).head? = some c := by
    rw [HeaderLayout.mappingLine, shape]
    change ((' ' :: ' ' :: ' ' :: c :: _).dropWhile isSpace).head? = some c
    rw [List.dropWhile_cons_of_pos (by decide), List.dropWhile_cons_of_pos (by decide),
      List.dropWhile_cons_of_pos (by decide),
      List.dropWhile_cons_of_neg (by rw [solid]; exact Bool.false_ne_true)]
    rfl
  apply unmarked_of_first first
  rintro rfl
  cases digit

theorem unmarked_foot (mapping : List (List Text)) :
    ∀ line ∈ HeaderLayout.foot mapping, Unmarked line := by
  intro line isLine
  rcases List.mem_append.mp isLine with above | last
  · split at above
    · cases above
    · rcases List.mem_append.mp above with titles | ofSegment
      · simp only [List.mem_cons, List.not_mem_nil, or_false] at titles
        rcases titles with rfl | rfl | rfl
        · exact unmarked_nil
        · exact @unmarked_of_first _ 'S' rfl (by decide)
        · exact @unmarked_of_first _ 'S' rfl (by decide)
      · rcases List.mem_map.mp ofSegment with ⟨entry, _, rfl⟩
        exact unmarked_mappingLine _ _
  · rw [List.mem_singleton.mp last]
    exact unmarked_nil

/-- The loop collects the segments and leaves nothing pending. -/
theorem parseLines_lines (printable : listing.Printable) :
    parseLines (layout.lines listing) = ⟨loadEntries listing.headers, none⟩ := by
  rw [parseLines, HeaderLayout.lines]
  split
  · rename_i noHeaders
    rw [noHeaders]
    decide +kernel
  · rw [List.foldl_append, List.foldl_append, parse_unmarked unmarked_head,
      parse_tableLines printable.headers, parse_unmarked (unmarked_foot _), List.nil_append]

/-- The line that is read while an address is pending is the second line of the header whose first
line was read before it. -/
theorem pending_lines (printable : listing.Printable) {front back : List Text} {line : Text}
    (parts : layout.lines listing = front ++ line :: back) {vaddr : Int}
    (pending : (parseLines front).pendingVaddr = some vaddr) :
    ∃ before header after, listing.headers = before ++ header :: after ∧
      front = layout.head listing ++ layout.tableLines before ++ [header.firstLine] ∧
      line = header.secondLine ∧ vaddr = header.vaddr := by
  have notUnmarked : ∀ (collected : List (Int × Int)) (lines : List Text),
      (∀ line ∈ lines, Unmarked line) →
        (lines.foldl parseLine ⟨collected, none⟩).pendingVaddr = some vaddr → False := by
    intro collected lines unmarked isPending
    rw [parse_unmarked unmarked] at isPending
    cases isPending
  have isPrefix : front <+: layout.lines listing := ⟨_, parts.symm⟩
  rw [HeaderLayout.lines] at parts isPrefix
  by_cases noHeaders : listing.headers = []
  · rw [if_pos noHeaders] at isPrefix
    have unmarked : ∀ line ∈ [[], "There are no program headers in this file.".toList, []],
        Unmarked line := by
      intro line isLine
      simp only [List.mem_cons, List.not_mem_nil, or_false] at isLine
      rcases isLine with rfl | rfl | rfl
      · exact unmarked_nil
      · exact @unmarked_of_first _ 'T' rfl (by decide)
      · exact unmarked_nil
    exact (notUnmarked [] front (fun line mem => unmarked line (isPrefix.mem mem)) pending).elim
  · rw [if_neg noHeaders, List.append_assoc] at isPrefix parts
    rcases List.prefix_or_prefix_of_prefix isPrefix (List.prefix_append _ _) with
      inHead | ⟨behind, rfl⟩
    · exact (notUnmarked [] front (fun line mem => unmarked_head line (inHead.mem mem)) pending).elim
    · rw [List.prefix_append_right_inj] at isPrefix
      rw [List.append_assoc, List.append_cancel_left_eq] at parts
      rw [parseLines, List.foldl_append, parse_unmarked unmarked_head] at pending
      rcases List.prefix_or_prefix_of_prefix isPrefix (List.prefix_append _ _) with
        inTable | ⟨below, rfl⟩
      · rcases pending_tableLines printable.headers [] inTable pending with
          ⟨before, header, after, isSplit, rfl, noInterpreter, rfl, isAddr⟩
        refine ⟨before, header, after, isSplit, (List.append_assoc _ _ _).symm, ?_, isAddr⟩
        have own : HeaderLayout.twoLine.headerLines header =
            [header.firstLine, header.secondLine] := by
          rw [HeaderLayout.headerLines, noInterpreter, List.append_nil]
        rw [isSplit, HeaderLayout.tableLines, List.flatMap_append, List.flatMap_cons, own,
          HeaderLayout.tableLines, List.append_assoc, List.append_assoc, List.append_assoc,
          List.append_cancel_left_eq] at parts
        exact (List.cons.inj (List.cons.inj parts).2).1.symm
      · rw [List.prefix_append_right_inj] at isPrefix
        rw [List.foldl_append, parse_tableLines printable.headers] at pending
        exact (notUnmarked _ below (fun line mem => unmarked_foot _ line (isPrefix.mem mem))
          pending).elim

end Listing

/-! ## Characters of the lines -/

section Characters

theorem newline_notMem_append {front back : Text} (inFront : '\n' ∉ front) (inBack : '\n' ∉ back) :
    '\n' ∉ front ++ back :=
  fun mem => (List.mem_append.mp mem).elim inFront inBack

theorem newline_notMem_hexNumeral (width n : Nat) : '\n' ∉ hexNumeral width n :=
  notMem_hexNumeral (by decide) (by decide) width n

theorem newline_notMem_digits (n : Nat) : '\n' ∉ Nat.toDigits 10 n := by
  intro mem
  have digit := digit_of_mem_toDigits (by decide) (by decide) n '\n' mem
  cases digit

variable {header : ProgramHeader}

theorem newline_notMem_typeColumn (printable : header.Printable) : '\n' ∉ header.typeColumn := by
  have inText : '\n' ∉ header.type.text := by
    cases isType : header.type with
    | load => exact (by decide : '\n' ∉ loadMark)
    | interp path => exact (by decide : '\n' ∉ "INTERP".toList)
    | other typeName => exact (printable.typeName typeName isType).2.1
  apply List.not_mem_cons_of_ne_of_not_mem (by decide)
  exact notMem_ljust (by decide) (fun mem => inText (List.mem_of_mem_take mem)) 14

theorem newline_notMem_flags : '\n' ∉ header.flags := by
  have letters : ∀ readable writable executable : Bool,
      '\n' ∉ [if readable then 'R' else ' ', if writable then 'W' else ' ',
        if executable then 'E' else ' '] := by decide
  exact letters _ _ _

theorem newline_notMem_headerLines (printable : header.Printable) (layout : HeaderLayout) :
    ∀ line ∈ layout.headerLines header, '\n' ∉ line := by
  have notBlank : '\n' ≠ ' ' := by decide
  have type := newline_notMem_typeColumn printable
  have number := newline_notMem_hexNumeral
  have flags := @newline_notMem_flags header
  intro line isLine
  rcases List.mem_append.mp isLine with ofLayout | ofInterpreter
  · cases layout with
    | oneLine addrWidth sizeWidth =>
        rw [List.mem_singleton.mp ofLayout]
        have align : '\n' ∉ header.alignColumn := by
          rw [ProgramHeader.alignColumn]
          split
          · decide
          · exact number _ _
        apply notMem_row notBlank
        intro field isField
        simp only [List.mem_cons, List.not_mem_nil, or_false] at isField
        rcases isField with rfl | rfl | rfl | rfl | rfl | rfl | rfl | rfl
        · exact type
        · exact number _ _
        · exact number _ _
        · exact number _ _
        · exact number _ _
        · exact number _ _
        · exact flags
        · exact align
    | twoLine =>
        rcases List.mem_cons.mp ofLayout with rfl | second
        · apply notMem_row notBlank
          intro field isField
          simp only [List.mem_cons, List.not_mem_nil, or_false] at isField
          rcases isField with rfl | rfl | rfl | rfl
          · exact type
          · exact number _ _
          · exact number _ _
          · exact number _ _
        · rw [List.mem_singleton.mp second]
          apply notMem_row notBlank
          intro field isField
          simp only [List.mem_cons, List.not_mem_nil, or_false] at isField
          rcases isField with rfl | rfl | rfl | rfl
          · exact newline_notMem_append (notMem_replicate_blank notBlank _) (number _ _)
          · exact number _ _
          · exact List.not_mem_cons_of_ne_of_not_mem notBlank flags
          · exact newline_notMem_append (notMem_replicate_blank notBlank _) (number _ _)
  · rw [ProgramHeader.interpreterLines] at ofInterpreter
    cases isType : header.type with
    | interp path =>
        rw [isType] at ofInterpreter
        rw [List.mem_singleton.mp ofInterpreter]
        apply newline_notMem_append
        · exact newline_notMem_append (by decide) (printable.path path isType)
        · decide
    | load =>
        rw [isType] at ofInterpreter
        cases ofInterpreter
    | other typeName =>
        rw [isType] at ofInterpreter
        cases ofInterpreter

variable {listing : Listing}

theorem newline_notMem_head (printable : listing.Printable) (layout : HeaderLayout) :
    ∀ line ∈ layout.head listing, '\n' ∉ line := by
  intro line isLine
  rcases List.mem_append.mp isLine with top | isColumns
  · simp only [List.mem_cons, List.not_mem_nil, or_false] at top
    rcases top with rfl | rfl | rfl | rfl | rfl | rfl
    · exact List.not_mem_nil
    · exact newline_notMem_append (by decide) printable.fileType
    · exact newline_notMem_append (by decide) (newline_notMem_hexNumeral _ _)
    · have count : '\n' ∉ (if listing.headers.length = 1 then "There is 1 program header".toList
          else "There are ".toList ++ Nat.toDigits 10 listing.headers.length ++
            " program headers".toList) := by
        split
        · decide
        · exact newline_notMem_append
            (newline_notMem_append (by decide) (newline_notMem_digits _)) (by decide)
      exact newline_notMem_append (newline_notMem_append count (by decide)) (newline_notMem_digits _)
    · exact List.not_mem_nil
    · decide
  · cases layout with
    | oneLine addrWidth sizeWidth =>
        have shape : ∀ line ∈ (HeaderLayout.oneLine 0 0).columns, '\n' ∉ line := by decide +kernel
        exact shape line isColumns
    | twoLine =>
        have shape : ∀ line ∈ HeaderLayout.twoLine.columns, '\n' ∉ line := by decide +kernel
        exact shape line isColumns

theorem newline_notMem_foot (printable : listing.Printable) :
    ∀ line ∈ HeaderLayout.foot listing.mapping, '\n' ∉ line := by
  intro line isLine
  rcases List.mem_append.mp isLine with above | last
  · split at above
    · cases above
    · rcases List.mem_append.mp above with titles | ofSegment
      · have shape : ∀ line ∈ [[], " Section to Segment mapping:".toList,
            "  Segment Sections...".toList], '\n' ∉ line := by decide +kernel
        exact shape line titles
      · rcases List.mem_map.mp ofSegment with ⟨entry, isEntry, rfl⟩
        have isSegment := List.fst_mem_of_mem_zipIdx isEntry
        apply newline_notMem_append
        · apply newline_notMem_append _ (by decide)
          exact newline_notMem_append (by decide) (newline_notMem_numeral (by decide) (by decide) _ _)
        · intro mem
          rcases List.mem_flatMap.mp mem with ⟨sectionName, isName, inName⟩
          exact newline_notMem_append (printable.mapping _ isSegment _ isName) (by decide) inName
  · rw [List.mem_singleton.mp last]
    exact List.not_mem_nil

/-- The printed listing splits into its lines. -/
theorem splitOn_stdout (printable : listing.Printable) (layout : HeaderLayout) :
    (layout.stdout listing).splitOn '\n' = layout.lines listing := by
  apply List.splitOn_intercalate
  case hls =>
    rw [HeaderLayout.lines]
    split
    · exact List.cons_ne_nil _ _
    · intro empty
      have noFoot := (List.append_eq_nil_iff.mp empty).2
      exact absurd (List.append_eq_nil_iff.mp noFoot).2 (List.cons_ne_nil _ _)
  case hx =>
    rw [HeaderLayout.lines]
    split
    · decide +kernel
    · intro line mem
      rcases List.mem_append.mp mem with above | below
      · rcases List.mem_append.mp above with top | inside
        · exact newline_notMem_head printable layout line top
        · rcases List.mem_flatMap.mp inside with ⟨header, isHeader, isLine⟩
          exact newline_notMem_headerLines (printable.headers header isHeader) layout line isLine
      · exact newline_notMem_foot printable line below

end Characters

/-! ## The collected segments -/

/-- Whenever a line is read while an address is pending, the address is that of a header whose
first line has just been read, and the line is the second line of the same header. -/
def OwnSizes (layout : HeaderLayout) (listing : Listing) : Prop :=
  ∀ front line back, (layout.stdout listing).splitOn '\n' = front ++ line :: back →
    ∀ vaddr, (parseLines front).pendingVaddr = some vaddr →
      ∃ before header after, listing.headers = before ++ header :: after ∧
        front = layout.head listing ++ layout.tableLines before ++ [header.firstLine] ∧
        line = header.secondLine ∧ vaddr = header.vaddr

/-- In both layouts the loop collects the addresses and sizes of the headers of type `LOAD`, in
order, and combines no address with the size of another header. -/
theorem parseSegments_stdout (layout : HeaderLayout) {listing : Listing}
    (printable : listing.Printable) :
    parseSegments (layout.stdout listing) =
        (listing.headers.filterMap ProgramHeader.segment?).map LoadSegment.entry ∧
      OwnSizes layout listing := by
  have isLines := splitOn_stdout printable layout
  constructor
  · rw [parseSegments, isLines, parseLines_lines printable]
    rfl
  · intro front line back parts vaddr pending
    rw [isLines] at parts
    exact pending_lines printable parts pending

/-- A header of the given type at an address. -/
def headerAt (type : SegmentType) (vaddr memsz : Nat) : ProgramHeader where
  type := type
  offset := 0x1000
  vaddr := vaddr
  paddr := vaddr
  filesz := 0x54c
  memsz := memsz
  readable := true
  writable := false
  executable := true
  align := 0x1000

/-- A program with an interpreter, two segments and a note between them. -/
def noteListing : Listing where
  fileType := "EXEC (Executable file)".toList
  entryPoint := 0x1000
  start := 64
  headers :=
    [headerAt (.interp "/lib/ld.so".toList) 0x300 0x1c, headerAt .load 0x1000 0x54c,
      headerAt (.other "NOTE".toList) 0x1100 0x20, headerAt .load 0x80000000 0x2000]
  mapping := [[".interp".toList], [".text".toList, ".rodata".toList], [], [".data".toList]]

/-- What a header prints depends on its type only. -/
theorem printable_headerAt {type : SegmentType} (path : ∀ path, type = .interp path → '\n' ∉ path)
    (typeName : ∀ typeName, type = .other typeName →
      (∃ c ∈ typeName.head?, isSpace c = false) ∧ '\n' ∉ typeName ∧ ¬ loadMark <+: typeName)
    (vaddr memsz : Nat) : (headerAt type vaddr memsz).Printable :=
  ⟨path, typeName⟩

theorem printable_noteListing : noteListing.Printable := by
  have interp : ∀ path, SegmentType.interp "/lib/ld.so".toList = .interp path → '\n' ∉ path := by
    intro path isPath
    rw [← SegmentType.interp.inj isPath]
    decide
  have note : ∀ typeName, SegmentType.other "NOTE".toList = .other typeName →
      (∃ c ∈ typeName.head?, isSpace c = false) ∧ '\n' ∉ typeName ∧ ¬ loadMark <+: typeName := by
    intro typeName isName
    rw [← SegmentType.other.inj isName]
    exact ⟨⟨'N', rfl, by decide⟩, by decide, by decide⟩
  have load : ∀ vaddr memsz, (headerAt .load vaddr memsz).Printable :=
    fun vaddr memsz => @printable_headerAt .load nofun nofun vaddr memsz
  constructor
  case fileType =>
    have plain : '\n' ∉ "EXEC (Executable file)".toList := by decide
    exact plain
  case headers =>
    intro header isHeader
    rcases List.mem_cons.mp isHeader with rfl | isHeader
    · exact @printable_headerAt (.interp _) interp nofun _ _
    · rcases List.mem_cons.mp isHeader with rfl | isHeader
      · exact load _ _
      · rcases List.mem_cons.mp isHeader with rfl | isHeader
        · exact @printable_headerAt (.other _) nofun note _ _
        · rw [List.mem_singleton.mp isHeader]
          exact load _ _
  case mapping => decide +kernel

/-- Both layouts list the two segments. -/
theorem parseSegments_noteListing :
    (parseSegments (HeaderLayout.twoLine.stdout noteListing) =
        [(0x1000, 0x54c), (0x80000000, 0x2000)] ∧ OwnSizes .twoLine noteListing) ∧
      parseSegments ((HeaderLayout.oneLine 8 5).stdout noteListing) =
        [(0x1000, 0x54c), (0x80000000, 0x2000)] ∧ OwnSizes (.oneLine 8 5) noteListing :=
  ⟨parseSegments_stdout .twoLine printable_noteListing,
    parseSegments_stdout (.oneLine 8 5) printable_noteListing⟩

end Difftest.Spike
