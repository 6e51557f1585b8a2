import Difftest.Fuzzer.Mutator

/-!
# Sessions with the mutator

A session calls one mutator any number of times.  It remembers the seeds that were returned,
because any of them may be added to the corpus or minimised later, and the data seeds in the
order in which they were used.  A call that raises ends without a step: `get` and
`read_siminput` raise before they change the mutator.
-/

namespace Difftest.Fuzzer

open Difftest.Text

/-- A mutator with the seeds that it made and the uses of its data seeds. -/
structure Session where
  mutator : Mutator
  made : List SimInput
  uses : List Nat

namespace Session

/-- A session with a fresh mutator. -/
def init (maxDataSeeds corpusSize : Nat) (noGuide : Bool) : Session :=
  ⟨Mutator.init maxDataSeeds corpusSize noGuide, [], []⟩

/-- One call.  The files that can be read depend on the seeds that were made. -/
inductive Step (readable : List SimInput → Text → Prop) : Session → Session → Prop where
  | addData {session : Session} {data : List Nat} {seed : Nat} {seeds : DataSeeds}
      (added : Random.Returns (session.mutator.seeds.addData data) (seed, seeds)) :
      Step readable session
        ⟨{ session.mutator with seeds }, session.made, session.uses ++ [seed]⟩
  | readSiminput {session : Session} {file : Text} {input : SimInput} {data : List Nat}
      {intr : Bool} {seeds : DataSeeds} (isFile : readable session.made file)
      (read : Random.Returns (readSiminput session.mutator.seeds file)
        ((input, data, intr), seeds)) :
      Step readable session
        ⟨{ session.mutator with seeds }, session.made ++ [input],
          session.uses ++ [input.dataSeed]⟩
  | get {session : Session} {assertIntr : Bool} {input : SimInput} {data : List Nat}
      {mutator : Mutator}
      (returned : Random.Returns (session.mutator.get assertIntr) ((input, data), mutator)) :
      Step readable session
        ⟨mutator, session.made ++ [input], session.uses ++ [input.dataSeed]⟩
  | updatePhase {session : Session} {it : Nat} {mutator : Mutator}
      (updated : Random.Returns (session.mutator.updatePhase it) mutator) :
      Step readable session ⟨mutator, session.made, session.uses⟩
  | addCorpus {session : Session} {input : SimInput} (isMade : input ∈ session.made) :
      Step readable session ⟨session.mutator.addCorpus input, session.made, session.uses⟩
  | makeNop {session : Session} {input masked : SimInput} {mask : List Bool} {part : Part}
      {data : List Nat} (isMade : input ∈ session.made)
      (returned : makeNop session.mutator.seeds input mask part = some (masked, data)) :
      Step readable session ⟨session.mutator, session.made ++ [masked], session.uses⟩
  | deleteNop {session : Session} {input deleted : SimInput} {data : List Nat}
      (isMade : input ∈ session.made)
      (returned : Random.Returns (deleteNop session.mutator.seeds input) (deleted, data)) :
      Step readable session ⟨session.mutator, session.made ++ [deleted], session.uses⟩

/-- Any number of calls. -/
def Run (readable : List SimInput → Text → Prop) : Session → Session → Prop :=
  Relation.ReflTransGen (Step readable)

/-- Every file can be read. -/
def anyFile : List SimInput → Text → Prop := fun _ _ => True

/-- Saved seeds can be read. -/
def savedFile : List SimInput → Text → Prop :=
  fun made file => ∃ input ∈ made, ∃ data, input.save data = some file

end Session

end Difftest.Fuzzer
