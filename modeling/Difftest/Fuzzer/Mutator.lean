import Difftest.Fuzzer.Generator
import Difftest.Fuzzer.SimInput

/-!
# The mutator

New seeds are generated from scratch, mutated from one seed of the corpus or merged from two
of them.  Words keep their texts when they are kept; their labels are renumbered and the
labels in their texts follow.  Seeds are minimised by replacing words by `nop` and deleting
these again.
-/

namespace Difftest.Fuzzer

open Difftest.Text

/-! ## The state -/

/-- The phases of the fuzzer. -/
inductive Phase where
  | generation
  | mutation
  | merge
deriving DecidableEq, Repr

/-- `rvMutator`.  The generator is not part of the state because every `get` resets it. -/
structure Mutator where
  corpusSize : Nat
  corpus : List SimInput
  phase : Phase
  numPre : Nat
  numWords : Nat
  numSuf : Nat
  maxNWords : Nat
  noGuide : Bool
  seeds : DataSeeds

/-- A fresh `rvMutator`. -/
def Mutator.init (maxDataSeeds corpusSize : Nat) (noGuide : Bool) : Mutator where
  corpusSize := corpusSize
  corpus := []
  phase := .generation
  numPre := 3
  numWords := 100
  numSuf := 5
  maxNWords := 200
  noGuide := noGuide
  seeds := ⟨maxDataSeeds, Dict.empty, []⟩

/-- `update_data_seeds`: the seed becomes the last one. -/
def DataSeeds.updateDataSeeds (seeds : DataSeeds) (seed : Nat) : Option DataSeeds :=
  if seeds.dataSeeds.count seed = 1 then
    some { seeds with dataSeeds := seeds.dataSeeds.erase seed ++ [seed] }
  else none

/-! ## Labels -/

/-- `reset_labels`: consecutive labels, and the labels in the texts changed with them. -/
def resetLabels (words : List Word) (part : Part) : Random (List Word) := do
  let resets ← Random.ofOption (words.zipIdx.mapM fun (word, n) => word.resetLabel n part)
  let labelMap := Dict.ofList (resets.filterMap Prod.snd)
  (resets.map Prod.fst).mapM fun word => word.repopLabel labelMap words.length part

/-- The words that a mutation keeps and inserts. -/
def mutateFrom (part : Part) : List Word → Generator → Random (List Word × Generator)
  | [], gen => pure ([], gen)
  | word :: rest, gen => do
      let rand ← Random.hundredths
      let (kept, gen) ←
        if rand < 50 then pure ([word], gen)
        else if rand < 75 then do
          let (newWord, gen) ← gen.getWord part
          pure ([word, newWord], gen)
        else pure ([], gen)
      let (words, gen) ← mutateFrom part rest gen
      pure (kept ++ words, gen)

/-- `mutate_words`. -/
def mutateWords (seedWords : List Word) (part : Part) (maxNum : Nat) (gen : Generator) :
    Random (List Word × Generator) := do
  let (words, gen) ← mutateFrom part seedWords gen
  let words ← resetLabels (words.take maxNum) part
  pure (words, gen)

/-- A number of new words. -/
def getWords (part : Part) : Nat → Generator → Random (List Word × Generator)
  | 0, gen => pure ([], gen)
  | n + 1, gen => do
      let (word, gen) ← gen.getWord part
      let (words, gen) ← getWords part n gen
      pure (word :: words, gen)

/-- Fill in the words of a part. -/
def populateWords (maxLabel : Nat) (part : Part) :
    List Word → Generator → Random (List Word × Generator)
  | [], gen => pure ([], gen)
  | word :: rest, gen => do
      let (word, gen) ← gen.populateWord word maxLabel part
      let (words, gen) ← populateWords maxLabel part rest gen
      pure (word :: words, gen)

/-! ## New seeds -/

namespace Mutator

variable (mutator : Mutator)

/-- The words of each part, not all filled in, and the data seed and template that are
kept. -/
structure Draft where
  pre : List Word
  words : List Word
  suf : List Word
  kept : Option (Nat × Nat)

/-- The parts of the seeds that are mutated: one seed, or two that are joined at an index. -/
def parents : Random Draft :=
  match mutator.phase with
  | .merge => do
      let first ← Random.choice mutator.corpus
      let second ← Random.choice mutator.corpus
      let idx ← Random.randint 0 (min first.words.length second.words.length)
      pure ⟨first.pre, first.words.take idx ++ second.words.drop idx, first.suf,
        some (first.dataSeed, first.template)⟩
  | _ => do
      let seed ← Random.choice mutator.corpus
      pure ⟨seed.pre, seed.words, seed.suf, some (seed.dataSeed, seed.template)⟩

/-- The words of `get` before they are filled in. -/
def draft : Random (Draft × Generator) :=
  match mutator.phase with
  | .generation => do
      let (pre, gen) ← getWords .pre mutator.numPre Generator.reset
      let (words, gen) ← getWords .main mutator.numWords gen
      let (suf, gen) ← getWords .suf mutator.numSuf gen
      pure (⟨pre, words, suf, none⟩, gen)
  | _ => do
      let parents ← mutator.parents
      let (pre, gen) ← mutateWords parents.pre .pre mutator.numPre Generator.reset
      let (words, gen) ← mutateWords parents.words .main mutator.maxNWords gen
      let (suf, gen) ← mutateWords parents.suf .suf mutator.numSuf gen
      pure (⟨pre, words, suf, parents.kept⟩, gen)

/-- The interrupts of a new seed: none, or one of the first ten instructions. -/
def drawInts (assertIntr : Bool) (len : Nat) : Random (List Nat) :=
  if assertIntr = true then
    if len = 0 then Random.raise
    else do
      let idx ← Random.randint 0 (min len 10 - 1)
      let int ← Random.randint 1 15
      pure ((List.replicate len 0).set idx int)
  else pure (List.replicate len 0)

/-- `get`: a new seed with its data. -/
def get (assertIntr : Bool) : Random ((SimInput × List Nat) × Mutator) := do
  let (draft, gen) ← mutator.draft
  let (pre, gen) ← populateWords draft.pre.length .pre draft.pre gen
  let (words, gen) ← populateWords draft.words.length .main draft.words gen
  let (suf, _) ← populateWords draft.suf.length .suf draft.suf gen
  let ints ← drawInts assertIntr (draft.words.map Word.lenInsts).sum
  let (dataSeed, seeds) ←
    match draft.kept with
    | none => mutator.seeds.addData []
    | some (seed, _) => do
        let seeds ← Random.ofOption (mutator.seeds.updateDataSeeds seed)
        pure (seed, seeds)
  let template ←
    match draft.kept with
    | none => Random.randint 0 3
    | some (_, template) => pure template
  let data ← Random.ofOption (seeds.randomData.get? dataSeed)
  pure (({ pre, words, suf, ints, dataSeed, template }, data), { mutator with seeds })

/-- `update_phase`. -/
def updatePhase (it : Nat) : Random Mutator :=
  if 10 * it < mutator.corpusSize ∨ mutator.noGuide = true then
    pure { mutator with phase := .generation }
  else do
    let rand ← Random.hundredths
    pure { mutator with
      phase := if rand < 10 then .generation else if rand < 55 then .mutation else .merge }

/-- `add_corpus`. -/
def addCorpus (input : SimInput) : Mutator :=
  let corpus := mutator.corpus ++ [input]
  { mutator with
    corpus := if mutator.corpusSize < corpus.length then corpus.drop 1 else corpus
    numWords := min (mutator.numWords + 1) mutator.maxNWords }

end Mutator

/-! ## Minimising -/

namespace SimInput

variable (input : SimInput)

/-- The words of a part. -/
def wordsOf : Part → List Word
  | .pre => input.pre
  | .main => input.words
  | .suf => input.suf

/-- The words of a part replaced. -/
def setWords (part : Part) (words : List Word) : SimInput :=
  match part with
  | .pre => { input with pre := words }
  | .main => { input with words := words }
  | .suf => { input with suf := words }

end SimInput

/-- `nop`. -/
def nop : List Text := ["nop".toList]

/-- The word that replaces a masked one. -/
def nopWord (part : Part) (word : Word) : Option Word :=
  (Word.plain word.label nop).populate Dict.empty part

/-- The words under a mask. -/
def maskWords (part : Part) (words : List Word) (mask : List Bool) : Option (List Word) :=
  (words.zip mask).mapM fun (word, masked) =>
    if masked = true then nopWord part word else some word

/-- The loop over the interrupts in `make_nop`, over the new words. -/
def nopInts (ints : List Nat) : Nat → List (Word × Bool) → Option (List Nat)
  | _, [] => some []
  | k, (word, masked) :: rest =>
      (if masked = true then some (List.replicate word.lenInsts 0)
        else (List.range word.lenInsts).mapM fun j => ints[k + j]?).bind fun slice =>
        (nopInts ints (k + word.lenInsts) rest).map (slice ++ ·)

/-- `make_nop`. -/
def makeNop (seeds : DataSeeds) (input : SimInput) (mask : List Bool) (part : Part) :
    Option (SimInput × List Nat) :=
  if (input.wordsOf part).length = mask.length then
    (maskWords part (input.wordsOf part) mask).bind fun newTarget =>
      (if part = .main then nopInts input.ints 0 (newTarget.zip mask)
        else some input.ints).bind fun ints =>
        (seeds.randomData.get? input.dataSeed).map fun data =>
          ({ input.setWords part newTarget with ints }, data)
  else none

/-- The interrupts that `delete_nop` keeps: `ints[k:k + len_insts]` of each word that stays. -/
def keptInts (ints : List Nat) : Nat → List Word → List Nat
  | _, [] => []
  | k, word :: rest =>
      (if word.insts ≠ nop then (ints.drop k).take word.lenInsts else []) ++
        keptInts ints (k + word.lenInsts) rest

/-- The words that `delete_nop` keeps. -/
def keptWords (words : List Word) : List Word := words.filter fun word => word.insts ≠ nop

/-- `delete_nop`. -/
def deleteNop (seeds : DataSeeds) (input : SimInput) : Random (SimInput × List Nat) := do
  let pre ← resetLabels (keptWords input.pre) .pre
  let words ← resetLabels (keptWords input.words) .main
  let suf ← resetLabels (keptWords input.suf) .suf
  let data ← Random.ofOption (seeds.randomData.get? input.dataSeed)
  pure ({ input with pre, words, suf, ints := keptInts input.ints 0 input.words }, data)

end Difftest.Fuzzer
