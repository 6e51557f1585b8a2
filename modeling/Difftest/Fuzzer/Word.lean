import Difftest.Data.Dict
import Difftest.Data.Random
import Difftest.Text.Format

/-!
# Words of a seed

A word is a short sequence of instructions behind one label.  Once its operands are
filled in it keeps the lines of the file that the seed is saved to: the label in the
first eight columns and the instruction behind them.  Renumbering a word changes these
lines.  `none` is a raised exception.
-/

namespace Difftest.Fuzzer

open Difftest.Text

/-! ## Words -/

/-- The parts of a seed. -/
inductive Part where
  | pre
  | main
  | suf
deriving DecidableEq, Repr

/-- `PREFIX`, `MAIN` and `SUFFIX`. -/
def Part.mark : Part → Text
  | pre => ['_', 'p']
  | main => ['_', 'l']
  | suf => ['_', 's']

/-- What a word does. -/
inductive WordType where
  | none
  | cfJ
  | cfBr
  | cfRet
  | memR
  | memW
  | csr
deriving DecidableEq, Repr

/-- `Word`. -/
structure Word where
  label : Nat
  insts : List Text
  tpe : WordType
  xregs : List Text
  fregs : List Text
  imms : List (Text × Nat)
  symbols : List Text
  populated : Bool
  retInsts : List Text
deriving DecidableEq, Repr

/-- `str(n)`. -/
def str (n : Nat) : Text := Nat.toDigits 10 n

/-- `int(text)`.  Labels with a sign are never written and are refused here. -/
def natOf (text : Text) : Option Nat :=
  (parseInt 10 text).bind fun i => if 0 ≤ i then some i.toNat else none

/-- The first eight columns of the first line of a word. -/
def labelColumn (part : Part) (label : Nat) : Text := ljust 8 (part.mark ++ str label ++ [':'])

/-- The first eight columns of the other lines. -/
def blankColumn : Text := List.replicate 8 ' '

namespace Word

/-- `Word(label, insts)`. -/
def plain (label : Nat) (insts : List Text) : Word where
  label := label
  insts := insts
  tpe := .none
  xregs := []
  fregs := []
  imms := []
  symbols := []
  populated := false
  retInsts := []

variable (word : Word)

/-- `operands`. -/
def operands : List Text := word.xregs ++ word.fregs ++ word.imms.map Prod.fst ++ word.symbols

/-- `pop_inst`. -/
def popInst (opvals : Dict Text Text) (inst : Text) : Text :=
  opvals.entries.foldl (fun inst entry => replace entry.1 entry.2 inst) inst

/-- The lines of a word. -/
def lines (part : Part) (label : Nat) : List Text → List Text
  | [] => []
  | first :: rest => (labelColumn part label ++ first) :: rest.map (blankColumn ++ ·)

/-- `populate`. -/
def populate (opvals : Dict Text Text) (part : Part) : Option Word :=
  if word.operands.all fun op => op ∈ opvals.keys then
    match word.insts with
    | [] => none
    | _ :: _ =>
        some { word with
          populated := true
          retInsts := lines part word.label (word.insts.map fun inst =>
            ljust 42 (popInst opvals inst)) }
  else none

/-- `reset_label`: the word and the pair of its old and new label. -/
def resetLabel (newLabel : Nat) (part : Part) : Option (Word × Option (Nat × Nat)) :=
  if word.populated then
    match word.retInsts with
    | [] => none
    | first :: rest =>
        some ({ word with
          label := newLabel
          retInsts := (labelColumn part newLabel ++ ljust 42 (first.drop 8)) :: rest },
          some (word.label, newLabel))
  else some ({ word with label := newLabel }, none)

/-- The renumbering of one line in `repop_label`. -/
def repopLine (labelMap : Dict Nat Nat) (maxLabel : Nat) (part : Part) (inst : Text) :
    Random Text :=
  match split ([',', ' '] ++ part.mark) inst with
  | _ :: target :: _ => do
      let old ← Random.ofOption (natOf (target.takeWhile (· ≠ ' ')))
      let draw ← Random.randint (word.label + 1) maxLabel
      let new := labelMap.getD old draw
      let newInst := replace (part.mark ++ str old) (part.mark ++ str new) (inst.drop 8)
      pure (ljust 8 (inst.take 8) ++ ljust 50 newInst)
  | _ => pure inst

/-- `repop_label`. -/
def repopLabel (labelMap : Dict Nat Nat) (maxLabel : Nat) (part : Part) : Random Word :=
  if word.populated then
    (word.retInsts.mapM (word.repopLine labelMap maxLabel part)).map fun retInsts =>
      { word with retInsts }
  else pure word

/-- `get_insts`. -/
def getInsts : Option (List Text) := if word.populated then some word.retInsts else none

/-- `len_insts`. -/
def lenInsts : Nat := word.insts.length

end Word

end Difftest.Fuzzer
