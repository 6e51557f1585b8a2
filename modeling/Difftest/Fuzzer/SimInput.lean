import Difftest.Fuzzer.Word

/-!
# Seed files

`save` writes a seed as lines of fixed columns: eight for the label, 42 for the
instruction, and in the main part four bits that say which interrupts are raised there.
`read_siminput` cuts the lines by these columns again.  `none` is a raised exception.
-/

namespace Difftest.Fuzzer

open Difftest.Text

/-- `templates`. -/
def templates : List Text := ["p-m".toList, "p-s".toList, "p-u".toList, "v-u".toList]

/-- `simInput`. -/
structure SimInput where
  pre : List Word
  words : List Word
  suf : List Word
  ints : List Nat
  dataSeed : Nat
  template : Nat
deriving DecidableEq, Repr

/-! ## Writing -/

/-- `get_prefix`, `get_insts` and `get_suffix`: the lines of a part and its end label. -/
def getPart (part : Part) (words : List Word) : Option (List Text) :=
  (words.mapM Word.getInsts).map fun lines =>
    lines.flatten ++ [part.mark ++ str words.length ++ [':']]

namespace SimInput

variable (input : SimInput)

/-- The lines of the main part, each with its interrupt bits. -/
def mainLines (insts : List Text) : List Text :=
  (insts.zip input.ints).map fun (inst, int) => ljust 50 inst ++ numeral 2 4 int

/-- The data section. -/
def dataLines (data : List Nat) : List Text :=
  if data = [] then [] else "data:".toList :: data.map (numeral 16 16)

/-- `save`: the text of the file. -/
def save (data : List Nat) : Option Text :=
  templates[input.template]?.bind fun template =>
    (getPart .pre input.pre).bind fun preInsts =>
      (getPart .main input.words).bind fun insts =>
        (getPart .suf input.suf).map fun sufInsts =>
          (([template, []] ++ preInsts.dropLast.map (ljust 50) ++ input.mainLines insts ++
            sufInsts.dropLast.map (ljust 50) ++ dataLines data).map line).flatten

end SimInput

/-! ## Data seeds -/

/-- The data sections that `rvMutator` keeps. -/
structure DataSeeds where
  maxData : Nat
  randomData : Dict Nat (List Nat)
  dataSeeds : List Nat

/-- The seed that `add_data` uses and the seeds that are left. -/
def DataSeeds.nextSeed (seeds : DataSeeds) : Option (Nat × List Nat) :=
  if seeds.dataSeeds.length = seeds.maxData then
    match seeds.dataSeeds with
    | [] => none
    | seed :: rest => some (seed, rest)
  else some (seeds.dataSeeds.length, seeds.dataSeeds)

/-- `add_data`: the seed under which the data is kept.  Without data it is drawn. -/
def DataSeeds.addData (seeds : DataSeeds) (newData : List Nat) : Random (Nat × DataSeeds) := do
  let (seed, dataSeeds) ← Random.ofOption seeds.nextSeed
  let data ←
    if newData = [] then (List.range (64 * 6)).mapM fun _ => Random.randint 0 (2 ^ 64 - 1)
    else pure newData
  pure (seed, { seeds with
    randomData := seeds.randomData.set seed data
    dataSeeds := dataSeeds ++ [seed] })

/-! ## Reading -/

/-- The labels and texts of each part that have been read. -/
structure ReadState where
  tuples : Part → List (Nat × List Text)
  /-- The part of the last line. -/
  part : Option Part
  ints : List Nat

namespace ReadState

/-- Nothing has been read. -/
def start : ReadState := ⟨fun _ => [], none, []⟩

/-- The part that a line starts. -/
def partOf (line : Text) : Option Part :=
  [Part.pre, Part.main, Part.suf].find? fun part => line.take 2 = part.mark

/-- Append a text to the last of some tuples. -/
def appendLast (text : Text) : List (Nat × List Text) → Option (List (Nat × List Text))
  | [] => none
  | [(label, texts)] => some [(label, texts ++ [text])]
  | tuple :: tuples => (appendLast text tuples).map (tuple :: ·)

variable (state : ReadState)

/-- The tuples of one part replaced. -/
def setTuples (part : Part) (tuples : List (Nat × List Text)) : Part → List (Nat × List Text) :=
  fun other => if other = part then tuples else state.tuples other

/-- `read_label`. -/
def readLabel (line : Text) : Option Nat :=
  natOf (((line.take 8).takeWhile (· ≠ ':')).drop 2)

/-- The tuples after a line, and the part it belongs to. -/
def readText (line : Text) : Option ReadState :=
  match partOf line with
  | some part => (readLabel line).map fun label =>
      { state with
        tuples := state.setTuples part (state.tuples part ++ [(label, [slice 8 50 line])])
        part := some part }
  | none => state.part.bind fun part =>
      (appendLast (slice 8 50 line) (state.tuples part)).map fun tuples =>
        { state with tuples := state.setTuples part tuples }

/-- The interrupt bits of a line of the main part. -/
def readInts (line : Text) : Option ReadState :=
  if state.part = some .main then
    (parseInt 2 (slice (line.length - 5) (line.length - 1) line)).bind fun int =>
      if 0 ≤ int then some { state with ints := state.ints ++ [int.toNat] } else none
  else some state

/-- The loop of `read_siminput`: the state and the data at the end of the file. -/
def readLines : ReadState → List Text → Option (ReadState × List Nat)
  | state, [] => some (state, [])
  | state, line :: lines =>
      if contains "data:".toList line then
        (lines.mapM fun word => (parseInt 16 word).bind fun i =>
          if 0 ≤ i then some i.toNat else none).map fun data => (state, data)
      else ((state.readText line).bind fun next => next.readInts line).bind fun next =>
        readLines next lines

end ReadState

/-- `tuples_to_words`. -/
def tuplesToWords (part : Part) (tuples : List (Nat × List Text)) : Option (List Word) :=
  tuples.mapM fun (label, insts) => (Word.plain label insts).populate Dict.empty part

/-- `read_siminput` on the text of a file: the seed, its data and `assert_intr`. -/
def readSiminput (seeds : DataSeeds) (file : Text) :
    Random ((SimInput × List Nat × Bool) × DataSeeds) := do
  match readlines file with
  | templateLine :: _ :: lines =>
      let template ← Random.ofOption (templates.idxOf? (templateLine.takeWhile (· ≠ '\n')))
      let (state, data) ← Random.ofOption (ReadState.start.readLines lines)
      let pre ← Random.ofOption (tuplesToWords .pre (state.tuples .pre))
      let words ← Random.ofOption (tuplesToWords .main (state.tuples .main))
      let suf ← Random.ofOption (tuplesToWords .suf (state.tuples .suf))
      let (dataSeed, seeds) ← seeds.addData data
      let data ← Random.ofOption (seeds.randomData.get? dataSeed)
      pure (({ pre, words, suf, ints := state.ints, dataSeed, template }, data,
        state.ints.any (· ≠ 0)), seeds)
  | _ => Random.raise

end Difftest.Fuzzer
