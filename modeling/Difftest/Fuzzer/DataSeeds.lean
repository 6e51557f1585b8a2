import Difftest.Data.Recency
import Difftest.Fuzzer.Session

/-!
# The queue of data seeds

One list counts the data seeds, orders them by their last use and tells which of them are
valid.  It always is a permutation of the numbers below its length, in the order of the last
uses, so every seed that was ever returned stays valid and the one that is given away when
the list is full is the least recently used one.
-/

namespace Difftest.Fuzzer

open Difftest.Recency Difftest.Text

/-! ## What the operations do -/

/-- `add_data` appends the seed that it took or counted. -/
theorem addData_returns {seeds seeds' : DataSeeds} {newData : List Nat} {seed : Nat}
    (added : Random.Returns (seeds.addData newData) (seed, seeds')) :
    ∃ rest data, seeds.nextSeed = some (seed, rest) ∧
      seeds' = ⟨seeds.maxData, seeds.randomData.set seed data, rest ++ [seed]⟩ := by
  rw [DataSeeds.addData] at added
  rcases added.bind with ⟨⟨next, rest⟩, chosen, added⟩
  have isNext := Random.returns_ofOption.mp chosen
  dsimp only at added
  split at added
  · rcases added.bind with ⟨data, _, returned⟩
    cases Random.returns_pure.mp returned
    exact ⟨rest, data, isNext, rfl⟩
  · cases Random.returns_pure.mp added
    exact ⟨rest, newData, isNext, rfl⟩

/-- What the parents of a mutation keep comes from the corpus. -/
theorem kept_of_parents {mutator : Mutator} {parents : Mutator.Draft}
    (chosen : Random.Returns mutator.parents parents) {seed template : Nat}
    (kept : parents.kept = some (seed, template)) :
    ∃ input ∈ mutator.corpus, input.dataSeed = seed := by
  rw [Mutator.parents] at chosen
  split at chosen
  · rcases chosen.bind with ⟨first, isFirst, chosen⟩
    rcases chosen.bind with ⟨second, _, chosen⟩
    rcases chosen.bind with ⟨idx, _, chosen⟩
    cases Random.returns_pure.mp chosen
    cases kept
    exact ⟨first, isFirst.choice, rfl⟩
  · rcases chosen.bind with ⟨only, isOnly, chosen⟩
    cases Random.returns_pure.mp chosen
    cases kept
    exact ⟨only, isOnly.choice, rfl⟩

/-- What a draft keeps comes from the corpus. -/
theorem kept_of_draft {mutator : Mutator} {draft : Mutator.Draft} {gen : Generator}
    (drafted : Random.Returns mutator.draft (draft, gen)) {seed template : Nat}
    (kept : draft.kept = some (seed, template)) :
    ∃ input ∈ mutator.corpus, input.dataSeed = seed := by
  rw [Mutator.draft] at drafted
  split at drafted
  · rcases drafted.bind with ⟨pre, _, drafted⟩
    rcases drafted.bind with ⟨words, _, drafted⟩
    rcases drafted.bind with ⟨suf, _, drafted⟩
    cases Random.returns_pure.mp drafted
    cases kept
  · rcases drafted.bind with ⟨parents, chosen, drafted⟩
    rcases drafted.bind with ⟨pre, _, drafted⟩
    rcases drafted.bind with ⟨words, _, drafted⟩
    rcases drafted.bind with ⟨suf, _, drafted⟩
    cases Random.returns_pure.mp drafted
    exact kept_of_parents chosen kept

/-- `get` uses a new data seed or one of the corpus and leaves the corpus as it is. -/
theorem seeds_of_get {mutator mutator' : Mutator} {assertIntr : Bool} {input : SimInput}
    {data : List Nat}
    (returned : Random.Returns (mutator.get assertIntr) ((input, data), mutator')) :
    ∃ seeds, mutator' = { mutator with seeds } ∧
      (Random.Returns (mutator.seeds.addData []) (input.dataSeed, seeds) ∨
        (∃ kept ∈ mutator.corpus, kept.dataSeed = input.dataSeed) ∧
          mutator.seeds.updateDataSeeds input.dataSeed = some seeds) := by
  rw [Mutator.get] at returned
  rcases returned.bind with ⟨⟨draft, gen⟩, drafted, returned⟩
  rcases returned.bind with ⟨pre, _, returned⟩
  rcases returned.bind with ⟨words, _, returned⟩
  rcases returned.bind with ⟨suf, _, returned⟩
  rcases returned.bind with ⟨ints, _, returned⟩
  cases kept : draft.kept with
  | none =>
      rw [kept] at returned
      rcases returned.bind with ⟨⟨seed, seeds⟩, added, returned⟩
      rcases returned.bind with ⟨template, _, returned⟩
      rcases returned.bind with ⟨found, _, returned⟩
      cases Random.returns_pure.mp returned
      exact ⟨seeds, rfl, Or.inl added⟩
  | some both =>
      rcases both with ⟨seed, template⟩
      rw [kept] at returned
      rcases returned.bind with ⟨seeds, isUpdated, returned⟩
      rcases returned.bind with ⟨both, isBoth, returned⟩
      cases Random.returns_pure.mp isBoth
      rcases returned.bind with ⟨template', _, returned⟩
      rcases returned.bind with ⟨found, _, returned⟩
      cases Random.returns_pure.mp returned
      exact ⟨seeds, rfl, Or.inr ⟨kept_of_draft drafted kept,
        Random.returns_ofOption.mp isUpdated⟩⟩

/-- `read_siminput` adds the data of the file. -/
theorem seeds_of_readSiminput {seeds seeds' : DataSeeds} {file : Text} {input : SimInput}
    {data : List Nat} {intr : Bool}
    (read : Random.Returns (readSiminput seeds file) ((input, data, intr), seeds')) :
    ∃ newData, Random.Returns (seeds.addData newData) (input.dataSeed, seeds') := by
  rw [readSiminput] at read
  split at read
  · rcases read.bind with ⟨template, _, read⟩
    rcases read.bind with ⟨⟨state, newData⟩, _, read⟩
    rcases read.bind with ⟨pre, _, read⟩
    rcases read.bind with ⟨words, _, read⟩
    rcases read.bind with ⟨suf, _, read⟩
    rcases read.bind with ⟨⟨seed, added'⟩, added, read⟩
    rcases read.bind with ⟨found, _, read⟩
    cases Random.returns_pure.mp read
    exact ⟨newData, added⟩
  · exact absurd read Random.not_returns_raise

/-! ## The invariant -/

/-- The queue is the order of the last uses, its seeds are the numbers below its length and
each of them has data. -/
structure DataSeeds.Valid (seeds : DataSeeds) (uses : List Nat) : Prop where
  recency : seeds.dataSeeds = uses.dedup
  bound : seeds.dataSeeds.length ≤ seeds.maxData
  perm : seeds.dataSeeds.Perm (List.range seeds.dataSeeds.length)
  keys : ∀ seed, seed ∈ seeds.randomData.keys ↔ seed < seeds.dataSeeds.length

namespace DataSeeds.Valid

variable {seeds seeds' : DataSeeds} {uses : List Nat} {seed : Nat}

theorem mem_iff (valid : seeds.Valid uses) :
    seed ∈ seeds.dataSeeds ↔ seed < seeds.dataSeeds.length := by
  rw [valid.perm.mem_iff, List.mem_range]

theorem count_eq_one (valid : seeds.Valid uses) (small : seed < seeds.dataSeeds.length) :
    seeds.dataSeeds.count seed = 1 := by
  have distinct : seeds.dataSeeds.Nodup := valid.perm.nodup_iff.mpr List.nodup_range
  exact List.count_eq_one_of_mem distinct (valid.mem_iff.mpr small)

/-- The assertion holds for a valid seed. -/
theorem updateDataSeeds_eq (valid : seeds.Valid uses) (small : seed < seeds.dataSeeds.length) :
    seeds.updateDataSeeds seed =
      some { seeds with dataSeeds := seeds.dataSeeds.erase seed ++ [seed] } := by
  rw [DataSeeds.updateDataSeeds, if_pos (valid.count_eq_one small)]

/-- A valid seed has data. -/
theorem exists_data (valid : seeds.Valid uses) (small : seed < seeds.dataSeeds.length) :
    ∃ data, seeds.randomData.get? seed = some data := by
  have isKey := (valid.keys seed).mpr small
  rwa [Dict.mem_keys_iff, Option.isSome_iff_exists] at isKey

/-- A use of a valid seed moves it to the end. -/
theorem update (valid : seeds.Valid uses) (small : seed < seeds.dataSeeds.length)
    (updated : seeds.updateDataSeeds seed = some seeds') :
    seeds'.Valid (uses ++ [seed]) ∧ seeds'.maxData = seeds.maxData ∧
      seeds'.dataSeeds.length = seeds.dataSeeds.length := by
  rw [valid.updateDataSeeds_eq small] at updated
  cases updated
  have moved : (seeds.dataSeeds.erase seed ++ [seed]).Perm seeds.dataSeeds :=
    (List.perm_append_singleton _ _).trans
      (List.perm_cons_erase (valid.mem_iff.mpr small)).symm
  have length := moved.length_eq
  refine ⟨⟨?_, ?_, ?_, ?_⟩, rfl, length⟩
  · dsimp only
    rw [valid.recency, dedup_concat]
  · exact length.trans_le valid.bound
  · dsimp only
    rw [length]
    exact moved.trans valid.perm
  · dsimp only
    rw [length]
    exact valid.keys

/-- A new seed is the next number while there is room, and the least recently used one
when there is none. -/
theorem add (valid : seeds.Valid uses) {newData : List Nat}
    (added : Random.Returns (seeds.addData newData) (seed, seeds')) :
    seeds'.Valid (uses ++ [seed]) ∧ seeds'.maxData = seeds.maxData ∧
      seeds.dataSeeds.length ≤ seeds'.dataSeeds.length ∧ seed < seeds'.dataSeeds.length := by
  rcases addData_returns added with ⟨rest, data, chosen, rfl⟩
  rw [DataSeeds.nextSeed] at chosen
  split at chosen
  · rename_i full
    cases queue : seeds.dataSeeds with
    | nil =>
        rw [queue] at chosen
        cases chosen
    | cons first others =>
        rw [queue] at chosen
        cases chosen
        have small : seed < seeds.dataSeeds.length := by
          rw [← valid.mem_iff, queue]
          exact List.mem_cons_self
        have moved : (rest ++ [seed]).Perm seeds.dataSeeds := by
          rw [queue]
          exact List.perm_append_singleton _ _
        have length := moved.length_eq
        rw [← queue]
        refine ⟨⟨?_, ?_, ?_, ?_⟩, rfl, length.ge, length.symm ▸ small⟩
        · dsimp only
          rw [dedup_concat, ← valid.recency, queue, List.erase_cons_head]
        · exact length.trans_le valid.bound
        · dsimp only
          rw [length]
          exact moved.trans valid.perm
        · intro other
          dsimp only
          rw [Dict.mem_keys_set, length, valid.keys]
          constructor
          · rintro (rfl | before)
            · exact small
            · exact before
          · exact Or.inr
  · rename_i room
    cases chosen
    have fresh : seeds.dataSeeds.length ∉ seeds.dataSeeds := by
      rw [valid.mem_iff]
      exact lt_irrefl _
    refine ⟨⟨?_, ?_, ?_, ?_⟩, rfl, ?_, ?_⟩
    · dsimp only
      rw [dedup_concat, ← valid.recency, List.erase_of_not_mem fresh]
    · rw [List.length_append, List.length_singleton]
      exact Nat.lt_of_le_of_ne valid.bound room
    · dsimp only
      rw [List.length_append, List.length_singleton, List.range_succ]
      exact valid.perm.append_right _
    · intro other
      dsimp only
      rw [Dict.mem_keys_set, List.length_append, List.length_singleton, valid.keys,
        Nat.lt_succ_iff_lt_or_eq, or_comm]
    · rw [List.length_append]
      exact Nat.le_add_right _ _
    · rw [List.length_append, List.length_singleton]
      exact Nat.lt_succ_self _

end DataSeeds.Valid

/-! ## Sessions -/

theorem dataSeed_of_makeNop {seeds : DataSeeds} {input masked : SimInput} {mask : List Bool}
    {part : Part} {data : List Nat}
    (returned : makeNop seeds input mask part = some (masked, data)) :
    masked.dataSeed = input.dataSeed := by
  rw [makeNop] at returned
  split at returned
  · rcases Option.bind_eq_some_iff.mp returned with ⟨newTarget, _, returned⟩
    rcases Option.bind_eq_some_iff.mp returned with ⟨ints, _, returned⟩
    rcases Option.map_eq_some_iff.mp returned with ⟨found, _, same⟩
    cases same
    cases part <;> rfl
  · cases returned

theorem dataSeed_of_deleteNop {seeds : DataSeeds} {input deleted : SimInput} {data : List Nat}
    (returned : Random.Returns (deleteNop seeds input) (deleted, data)) :
    deleted.dataSeed = input.dataSeed := by
  rw [deleteNop] at returned
  rcases returned.bind with ⟨pre, _, returned⟩
  rcases returned.bind with ⟨words, _, returned⟩
  rcases returned.bind with ⟨suf, _, returned⟩
  rcases returned.bind with ⟨found, _, returned⟩
  cases Random.returns_pure.mp returned
  rfl

theorem seeds_of_updatePhase {mutator mutator' : Mutator} {it : Nat}
    (updated : Random.Returns (mutator.updatePhase it) mutator') :
    mutator'.seeds = mutator.seeds ∧ mutator'.corpus = mutator.corpus := by
  rw [Mutator.updatePhase] at updated
  split at updated
  · cases Random.returns_pure.mp updated
    exact ⟨rfl, rfl⟩
  · rcases updated.bind with ⟨rand, _, updated⟩
    cases Random.returns_pure.mp updated
    exact ⟨rfl, rfl⟩

/-- The corpus gets the new seed and loses old ones. -/
theorem mem_of_mem_addCorpus {mutator : Mutator} {input other : SimInput}
    (mem : other ∈ (mutator.addCorpus input).corpus) : other ∈ mutator.corpus ∨ other = input := by
  rw [Mutator.addCorpus] at mem
  dsimp only at mem
  have listed : other ∈ mutator.corpus ++ [input] := by
    split at mem
    · exact List.mem_of_mem_drop mem
    · exact mem
  rwa [List.mem_append, List.mem_singleton] at listed

/-- The queue is valid, and so is the data seed of every seed that was made. -/
structure Session.Valid (session : Session) : Prop where
  seeds : session.mutator.seeds.Valid session.uses
  made : ∀ input ∈ session.made, input.dataSeed < session.mutator.seeds.dataSeeds.length
  corpus : ∀ input ∈ session.mutator.corpus, input ∈ session.made

namespace Session

variable {session next : Session} {readable : List SimInput → Text → Prop}

theorem valid_init (maxDataSeeds corpusSize : Nat) (noGuide : Bool) :
    (init maxDataSeeds corpusSize noGuide).Valid where
  seeds := ⟨rfl, Nat.zero_le _, List.Perm.refl _,
    fun _ => by simp [init, Mutator.init, Dict.empty, Dict.keys]⟩
  made := nofun
  corpus := nofun

/-- A seed that is made with the last data seed that was used. -/
theorem Valid.make (valid : session.Valid) {seeds : DataSeeds} {input : SimInput}
    (next : seeds.Valid (session.uses ++ [input.dataSeed]))
    (grown : session.mutator.seeds.dataSeeds.length ≤ seeds.dataSeeds.length)
    (small : input.dataSeed < seeds.dataSeeds.length) :
    Valid ⟨{ session.mutator with seeds }, session.made ++ [input],
      session.uses ++ [input.dataSeed]⟩ where
  seeds := next
  made := by
    intro other mem
    rcases List.mem_append.mp mem with before | isNew
    · exact (valid.made other before).trans_le grown
    · rw [List.mem_singleton.mp isNew]
      exact small
  corpus := fun other mem => List.mem_append_left _ (valid.corpus other mem)

/-- A seed that is made from another one. -/
theorem Valid.derive (valid : session.Valid) {input derived : SimInput}
    (isMade : input ∈ session.made) (same : derived.dataSeed = input.dataSeed) :
    Valid ⟨session.mutator, session.made ++ [derived], session.uses⟩ where
  seeds := valid.seeds
  made := by
    intro other mem
    rcases List.mem_append.mp mem with before | isNew
    · exact valid.made other before
    · rw [List.mem_singleton.mp isNew, same]
      exact valid.made input isMade
  corpus := fun other mem => List.mem_append_left _ (valid.corpus other mem)

/-- Every call keeps the invariant and the limit. -/
theorem Step.valid (step : Step readable session next) (valid : session.Valid) :
    next.Valid ∧ next.mutator.seeds.maxData = session.mutator.seeds.maxData := by
  cases step with
  | addData added =>
      rcases valid.seeds.add added with ⟨seeds, limit, grown, _⟩
      refine ⟨⟨seeds, ?_, valid.corpus⟩, limit⟩
      exact fun input mem => (valid.made input mem).trans_le grown
  | readSiminput _ read =>
      rcases seeds_of_readSiminput read with ⟨newData, added⟩
      rcases valid.seeds.add added with ⟨seeds, limit, grown, small⟩
      exact ⟨valid.make seeds grown small, limit⟩
  | get returned =>
      rcases seeds_of_get returned with ⟨seeds, rfl, added | ⟨⟨kept, isKept, same⟩, updated⟩⟩
      · rcases valid.seeds.add added with ⟨next, limit, grown, small⟩
        exact ⟨valid.make next grown small, limit⟩
      · have small := valid.made kept (valid.corpus kept isKept)
        rw [same] at small
        rcases valid.seeds.update small updated with ⟨next, limit, length⟩
        exact ⟨valid.make next length.ge (length.symm ▸ small), limit⟩
  | updatePhase updated =>
      rcases seeds_of_updatePhase updated with ⟨seeds, corpus⟩
      refine ⟨⟨?_, ?_, ?_⟩, ?_⟩
      · exact seeds ▸ valid.seeds
      · exact seeds ▸ valid.made
      · exact corpus ▸ valid.corpus
      · rw [seeds]
  | addCorpus isMade =>
      refine ⟨⟨valid.seeds, valid.made, ?_⟩, rfl⟩
      intro other mem
      rcases mem_of_mem_addCorpus mem with before | rfl
      · exact valid.corpus other before
      · exact isMade
  | makeNop isMade returned => exact ⟨valid.derive isMade (dataSeed_of_makeNop returned), rfl⟩
  | deleteNop isMade returned => exact ⟨valid.derive isMade (dataSeed_of_deleteNop returned), rfl⟩

/-- Every session keeps the invariant and the limit. -/
theorem Run.valid (run : Run readable session next) (valid : session.Valid) :
    next.Valid ∧ next.mutator.seeds.maxData = session.mutator.seeds.maxData := by
  induction run with
  | refl => exact ⟨valid, rfl⟩
  | tail _ step ih =>
      rcases step.valid ih.1 with ⟨nextValid, limit⟩
      exact ⟨nextValid, limit.trans ih.2⟩

/-- In every session the data seeds are the first numbers, at most as many as allowed, each
with data.  Every seed that was made passes the assertion of `update_data_seeds` and has
data, `add_data` finds a seed, and when the list is full this is the least recently used
one. -/
theorem dataSeeds_valid {maxDataSeeds corpusSize : Nat} {noGuide : Bool}
    (positive : 1 ≤ maxDataSeeds)
    (run : Run anyFile (init maxDataSeeds corpusSize noGuide) session) :
    (∃ m ≤ maxDataSeeds, session.mutator.seeds.dataSeeds.Perm (List.range m) ∧
      ∀ seed, seed ∈ session.mutator.seeds.randomData.keys ↔ seed < m) ∧
    (∀ input ∈ session.made ++ session.mutator.corpus,
      session.mutator.seeds.dataSeeds.count input.dataSeed = 1 ∧
      (session.mutator.seeds.updateDataSeeds input.dataSeed).isSome ∧
      (session.mutator.seeds.randomData.get? input.dataSeed).isSome) ∧
    ∃ seed rest, session.mutator.seeds.nextSeed = some (seed, rest) ∧
      (session.mutator.seeds.dataSeeds.length = maxDataSeeds → LeastRecent session.uses seed) := by
  rcases run.valid (valid_init maxDataSeeds corpusSize noGuide) with ⟨valid, limit⟩
  have isLimit : session.mutator.seeds.maxData = maxDataSeeds := limit
  refine ⟨⟨_, isLimit ▸ valid.seeds.bound, valid.seeds.perm, valid.seeds.keys⟩, ?_, ?_⟩
  · intro input mem
    have isMade : input ∈ session.made :=
      (List.mem_append.mp mem).elim id (valid.corpus input)
    have small := valid.made input isMade
    rcases valid.seeds.exists_data small with ⟨data, found⟩
    refine ⟨valid.seeds.count_eq_one small, ?_, ?_⟩
    · rw [valid.seeds.updateDataSeeds_eq small]
      rfl
    · rw [found]
      rfl
  · rw [DataSeeds.nextSeed, isLimit]
    split
    · rename_i full
      cases queue : session.mutator.seeds.dataSeeds with
      | nil =>
          rw [queue] at full
          exact absurd positive (by rw [← full]; decide)
      | cons seed rest =>
          refine ⟨seed, rest, rfl, fun _ => ?_⟩
          apply leastRecent_of_dedup
          rw [← valid.seeds.recency, queue]
    · rename_i room
      exact ⟨_, _, rfl, fun full => absurd full room⟩

/-- Two data sections of which the second replaces the first. -/
def replaced : Session :=
  ⟨{ Mutator.init 1 10 false with seeds := ⟨1, Dict.empty.set 0 [7], [0]⟩ }, [], [0, 0]⟩

theorem dataSeeds_valid_replaced :
    (∃ m ≤ 1, replaced.mutator.seeds.dataSeeds.Perm (List.range m) ∧
      ∀ seed, seed ∈ replaced.mutator.seeds.randomData.keys ↔ seed < m) ∧
    (∀ input ∈ replaced.made ++ replaced.mutator.corpus,
      replaced.mutator.seeds.dataSeeds.count input.dataSeed = 1 ∧
      (replaced.mutator.seeds.updateDataSeeds input.dataSeed).isSome ∧
      (replaced.mutator.seeds.randomData.get? input.dataSeed).isSome) ∧
    ∃ seed rest, replaced.mutator.seeds.nextSeed = some (seed, rest) ∧
      (replaced.mutator.seeds.dataSeeds.length = 1 → LeastRecent replaced.uses seed) := by
  have first : Step anyFile (init 1 10 false)
      ⟨{ Mutator.init 1 10 false with seeds := ⟨1, Dict.empty.set 0 [5], [0]⟩ }, [], [0]⟩ :=
    @Step.addData anyFile _ [5] _ _ ⟨[], [], rfl⟩
  have second : Step anyFile
      ⟨{ Mutator.init 1 10 false with seeds := ⟨1, Dict.empty.set 0 [5], [0]⟩ }, [], [0]⟩
      replaced := @Step.addData anyFile _ [7] _ _ ⟨[], [], rfl⟩
  exact dataSeeds_valid (by decide) ((Relation.ReflTransGen.single first).tail second)

end Session

end Difftest.Fuzzer
