import Difftest.Data.MoveToFront

/-!
# Decoding instructions

A processor finds the function of an instruction in a table of matches and masks, which it
searches from the front.  Some of what a search finds is moved to the front of the table, and
everything a search finds is remembered in a cache that has one place for all words with the
same remainder.  Both only save time, but for the word zero, whose place in the cache is taken
for an answer before any search was made.
-/

namespace Difftest.Spike

open MoveToFront

variable {φ : Type}

/-- `insn_desc_t`. -/
structure InsnDesc (φ : Type) where
  matchBits : BitVec 64
  mask : BitVec 64
  rv32 : φ
  rv64 : φ
deriving DecidableEq, Repr

/-- The test of the search in `decode_insn`. -/
def InsnDesc.matches (desc : InsnDesc φ) (bits : BitVec 64) : Bool :=
  bits &&& desc.mask = desc.matchBits

/-- `{0, 0, &illegal_instruction, &illegal_instruction}`. -/
def illegalDesc (illegal : φ) : InsnDesc φ :=
  { matchBits := 0, mask := 0, rv32 := illegal, rv64 := illegal }

/-- The function for the register width `xlen`. -/
def InsnDesc.func (xlen : Nat) (desc : InsnDesc φ) : φ :=
  if xlen = 64 then desc.rv64 else desc.rv32

/-- What the cache keeps of an instruction that was found for some word. -/
def InsnDesc.withMatch (desc : InsnDesc φ) (bits : BitVec 64) : InsnDesc φ :=
  { desc with matchBits := bits }

/-- `OPCODE_CACHE_SIZE`. -/
def opcodeCacheSize : Nat := 8191

/-- `instructions` and `opcode_cache` of a processor. -/
structure Decoder (φ : Type) where
  instructions : List (InsnDesc φ)
  opcodeCache : Nat → InsnDesc φ

/-- Move what was found to the front of the list, unless it is there, matches everything, or
has a neighbour with the same match.  What matches everything is the last of the list, so the
others have a neighbour behind them. -/
def reduceMissPenalty (before : List (InsnDesc φ)) (desc : InsnDesc φ)
    (after : List (InsnDesc φ)) : List (InsnDesc φ) :=
  if desc.mask ≠ 0 ∧ before ≠ [] ∧
      before.getLast?.all (fun prev => desc.matchBits ≠ prev.matchBits) ∧
        after.head?.all (fun next => desc.matchBits ≠ next.matchBits) then
    desc :: (before ++ after)
  else before ++ desc :: after

/-- `decode_insn`; the search that finds nothing leaves the list. -/
def decodeInsn (xlen : Nat) (bits : BitVec 64) (decoder : Decoder φ) : Option (φ × Decoder φ) :=
  let idx := bits.toNat % opcodeCacheSize
  let desc := decoder.opcodeCache idx
  if bits = desc.matchBits then some (desc.func xlen, decoder)
  else
    (seek (·.matches bits) decoder.instructions).map fun (before, desc, after) =>
      (desc.func xlen,
        { instructions := reduceMissPenalty before desc after
          opcodeCache := Function.update decoder.opcodeCache idx (desc.withMatch bits) })

/-! ## The table -/

/-- The order in which `build_opcode_map` sorts. -/
def cmp (lhs rhs : InsnDesc φ) : Bool :=
  if lhs.matchBits = rhs.matchBits then decide (rhs.mask < lhs.mask)
  else decide (rhs.matchBits < lhs.matchBits)

/-- The instructions that are registered besides the illegal one.  Every one masks some bits,
and two that match one word have the same match: they are variants of one encoding, of which
the one with the larger mask comes first. -/
structure InsnSet (φ : Type) where
  insns : List (InsnDesc φ)
  illegal : φ
  masked : ∀ desc ∈ insns, desc.mask ≠ 0
  share : ∀ desc ∈ insns, ∀ other ∈ insns, ∀ bits, desc.matches bits = true →
    other.matches bits = true → desc.matchBits = other.matchBits

/-- What `build_opcode_map` makes of the registered instructions, in whatever order the sort
leaves those that it does not distinguish. -/
structure Built (set : InsnSet φ) (decoder : Decoder φ) : Prop where
  perm : decoder.instructions.Perm (illegalDesc set.illegal :: set.insns)
  sorted : decoder.instructions.Pairwise fun desc later => cmp later desc = false
  cache : ∀ idx, decoder.opcodeCache idx = illegalDesc set.illegal

/-- `build_opcode_map`. -/
def buildOpcodeMap (illegal : φ) (instructions : List (InsnDesc φ)) : Decoder φ where
  instructions := instructions.mergeSort fun desc later => !cmp later desc
  opcodeCache := fun _ => illegalDesc illegal

theorem cmp_eq_false {desc later : InsnDesc φ} :
    cmp later desc = false ↔ later.matchBits < desc.matchBits ∨
      later.matchBits = desc.matchBits ∧ later.mask ≤ desc.mask := by
  by_cases same : later.matchBits = desc.matchBits
  · simp [cmp, same]
  · have differ : later.matchBits.toNat ≠ desc.matchBits.toNat :=
      fun equal => same (BitVec.eq_of_toNat_eq equal)
    rw [cmp, if_neg same, decide_eq_false_iff_not]
    simp only [BitVec.lt_def, same, false_and, or_false]
    omega

/-- The table that the sort leaves is built. -/
theorem built_buildOpcodeMap (set : InsnSet φ) {instructions : List (InsnDesc φ)}
    (registered : instructions.Perm (illegalDesc set.illegal :: set.insns)) :
    Built set (buildOpcodeMap set.illegal instructions) := by
  constructor
  · exact (List.mergeSort_perm instructions _).trans registered
  · have trans : ∀ a b c : InsnDesc φ, (!cmp b a) = true → (!cmp c b) = true →
        (!cmp c a) = true := by
      intro a b c ab bc
      simp only [Bool.not_eq_true', cmp_eq_false, BitVec.lt_def, BitVec.le_def] at ab bc ⊢
      rcases ab with ab | ⟨ab, abMask⟩ <;> rcases bc with bc | ⟨bc, bcMask⟩
      · exact Or.inl (bc.trans ab)
      · exact Or.inl (bc ▸ ab)
      · exact Or.inl (ab ▸ bc)
      · exact Or.inr ⟨bc.trans ab, bcMask.trans abMask⟩
    have total : ∀ a b : InsnDesc φ, (!cmp b a || !cmp a b) = true := by
      intro a b
      simp only [Bool.or_eq_true, Bool.not_eq_true', cmp_eq_false]
      bv_omega
    have sorted := List.pairwise_mergeSort trans total instructions
    simp only [Bool.not_eq_true'] at sorted
    exact sorted
  · exact fun _ => rfl

theorem matches_illegalDesc (illegal : φ) (bits : BitVec 64) :
    (illegalDesc illegal).matches bits = true := by
  simp [illegalDesc, InsnDesc.matches]

/-- The table ends in the illegal instruction. -/
theorem Built.ends {set : InsnSet φ} {decoder : Decoder φ} (built : Built set decoder) :
    ∃ body, decoder.instructions = body ++ [illegalDesc set.illegal] ∧ body.Perm set.insns := by
  have there : illegalDesc set.illegal ∈ decoder.instructions :=
    built.perm.mem_iff.mpr List.mem_cons_self
  obtain ⟨body, after, parts⟩ := List.append_of_mem there
  have others : (body ++ after).Perm set.insns := by
    have whole := built.perm
    rw [parts] at whole
    exact (List.perm_middle.symm.trans whole).cons_inv
  have last : after = [] := by
    rw [List.eq_nil_iff_forall_not_mem]
    intro desc mem
    have behind := built.sorted
    rw [parts, List.pairwise_append] at behind
    have order := (List.pairwise_cons.mp behind.2.1).1 desc mem
    have masked := set.masked desc (others.subset (List.mem_append_right body mem))
    simp only [cmp_eq_false, illegalDesc] at order
    bv_omega
  subst last
  exact ⟨body, parts, by simpa using others⟩

/-- Variants of one encoding stand together. -/
theorem Built.grouped {set : InsnSet φ} {decoder : Decoder φ} (built : Built set decoder) :
    Grouped (fun desc : InsnDesc φ => desc.matchBits.toNat) decoder.instructions := by
  apply grouped_of_pairwise
  apply built.sorted.imp
  intro desc later order
  rw [cmp_eq_false] at order
  rcases order with less | ⟨same, -⟩
  · exact Nat.le_of_lt less
  · exact (congrArg BitVec.toNat same).le

/-! ## Searches -/

/-- What a search of the table finds. -/
def lookup (set : InsnSet φ) (table : List (InsnDesc φ)) (bits : BitVec 64) : InsnDesc φ :=
  (table.find? (·.matches bits)).getD (illegalDesc set.illegal)

/-- The list after some searches of the table: it ends as the table does, and what stands
before its end is the rest of the table in another order, in which the variants of one encoding
stand together and have kept their order. -/
structure Rearranged (set : InsnSet φ) (table instructions : List (InsnDesc φ)) : Prop where
  grouped : Grouped (fun desc : InsnDesc φ => desc.matchBits.toNat) instructions
  parts : ∃ body body', table = body ++ [illegalDesc set.illegal] ∧
    instructions = body' ++ [illegalDesc set.illegal] ∧ (∀ desc ∈ body, desc ∈ set.insns) ∧
      SameOrder (fun desc : InsnDesc φ => desc.matchBits.toNat) body body'

theorem Built.rearranged {set : InsnSet φ} {decoder : Decoder φ} (built : Built set decoder) :
    Rearranged set decoder.instructions decoder.instructions := by
  obtain ⟨body, parts, perm⟩ := built.ends
  exact ⟨built.grouped, body, body, parts, parts, fun desc mem => perm.subset mem, fun _ => rfl⟩

/-- A search of the list finds what a search of the table does. -/
theorem Rearranged.find?_eq {set : InsnSet φ} {table instructions : List (InsnDesc φ)}
    (rearranged : Rearranged set table instructions) (bits : BitVec 64) :
    instructions.find? (·.matches bits) = some (lookup set table bits) := by
  obtain ⟨body, body', rfl, rfl, registered, order⟩ := rearranged.parts
  have same : body'.find? (·.matches bits) = body.find? (·.matches bits) := by
    apply order.find?_eq
    intro desc mem other member hits otherHits
    exact congrArg BitVec.toNat
      (set.share desc (registered desc mem) other (registered other member) bits hits otherHits)
  have last : [illegalDesc set.illegal].find? (·.matches bits) = some (illegalDesc set.illegal) :=
    List.find?_cons_of_pos (matches_illegalDesc set.illegal bits)
  rw [lookup, List.find?_append, List.find?_append, same, last]
  cases body.find? (·.matches bits) with
  | none => rfl
  | some desc => rfl

/-- What a search moves keeps the list rearranged. -/
theorem Rearranged.reduceMissPenalty {set : InsnSet φ} {table before after : List (InsnDesc φ)}
    {desc : InsnDesc φ} (rearranged : Rearranged set table (before ++ desc :: after)) :
    Rearranged set table (reduceMissPenalty before desc after) := by
  unfold Spike.reduceMissPenalty
  split
  case isFalse => exact rearranged
  case isTrue movable =>
    obtain ⟨masks, -, left, right⟩ := movable
    obtain ⟨body, body', isTable, isList, registered, order⟩ := rearranged.parts
    have alone : ∀ other ∈ before ++ after, other.matchBits.toNat ≠ desc.matchBits.toNat := by
      apply rearranged.grouped.alone
      · intro prev isPrev same
        rw [Option.mem_def] at isPrev
        simp only [isPrev, Option.all_some, decide_eq_true_eq] at left
        exact left (BitVec.eq_of_toNat_eq same.symm)
      · intro next isNext same
        rw [Option.mem_def] at isNext
        simp only [isNext, Option.all_some, decide_eq_true_eq] at right
        exact right (BitVec.eq_of_toNat_eq same.symm)
    rcases List.eq_nil_or_concat' after with rfl | ⟨middle, last, rfl⟩
    · have isLast : desc = illegalDesc set.illegal := by
        have tails := congrArg List.getLast? isList
        simpa using tails
      exact absurd (isLast ▸ rfl) masks
    · have cut : before ++ desc :: middle = body' ∧ last = illegalDesc set.illegal := by
        have both : (before ++ desc :: middle) ++ [last] = body' ++ [illegalDesc set.illegal] := by
          simpa using isList
        simpa using List.append_inj' both rfl
      obtain ⟨rfl, rfl⟩ := cut
      have within : ∀ other ∈ before ++ middle, other.matchBits.toNat ≠ desc.matchBits.toNat := by
        intro other mem
        apply alone other
        rw [← List.append_assoc]
        exact List.mem_append_left _ mem
      refine ⟨rearranged.grouped.moved alone, body, desc :: (before ++ middle), isTable, by simp,
        registered, ?_⟩
      intro k
      rw [sameOrder_moved within k]
      exact order k

/-! ## Runs of decodes -/

/-- No word was decoded that took the place of zero in the cache. -/
abbrev ZeroCached (history : List (Nat × BitVec 64)) : Prop :=
  ∀ word ∈ history, word.2.toNat % opcodeCacheSize = 0 → word.2 = 0

/-- What the places of the cache hold: what a search found for some word of the place, or what
they held when the cache was built.  Place 0 is as it was built until another word than zero is
decoded there. -/
def Fills (set : InsnSet φ) (table : List (InsnDesc φ)) (history : List (Nat × BitVec 64))
    (cache : Nat → InsnDesc φ) : Prop :=
  ∀ idx, cache idx = illegalDesc set.illegal ∧ (idx = 0 → ZeroCached history) ∨
    ∃ bits : BitVec 64, bits.toNat % opcodeCacheSize = idx ∧
      cache idx = (lookup set table bits).withMatch bits ∧
        (idx = 0 → ¬ ZeroCached history)

/-- The function that a word is decoded to after some others. -/
def decodedFunc (set : InsnSet φ) (table : List (InsnDesc φ)) (history : List (Nat × BitVec 64))
    (xlen : Nat) (bits : BitVec 64) : φ :=
  if bits = 0 ∧ ZeroCached history then set.illegal else (lookup set table bits).func xlen

theorem zeroCached_concat {history : List (Nat × BitVec 64)} {xlen : Nat} {bits : BitVec 64} :
    ZeroCached (history ++ [(xlen, bits)]) ↔
      ZeroCached history ∧ (bits.toNat % opcodeCacheSize = 0 → bits = 0) := by
  simp only [ZeroCached, List.forall_mem_append, List.forall_mem_singleton]

section Step

variable {set : InsnSet φ} {table : List (InsnDesc φ)} {history : List (Nat × BitVec 64)}
variable {decoder : Decoder φ} {xlen : Nat} {bits : BitVec 64}

/-- A word that is answered from the cache. -/
theorem decodeInsn_hit (fills : Fills set table history decoder.opcodeCache)
    (hit : bits = (decoder.opcodeCache (bits.toNat % opcodeCacheSize)).matchBits) :
    decodeInsn xlen bits decoder = some (decodedFunc set table history xlen bits, decoder) ∧
      (ZeroCached (history ++ [(xlen, bits)]) ↔ ZeroCached history) := by
  rw [decodeInsn, if_pos hit, zeroCached_concat]
  rcases fills (bits.toNat % opcodeCacheSize) with ⟨place, early⟩ | ⟨bits', -, place, late⟩
  · have zero : bits = 0 := by rwa [place] at hit
    have cached : ZeroCached history := early (by rw [zero]; rfl)
    constructor
    · rw [place, decodedFunc, if_pos ⟨zero, cached⟩, InsnDesc.func]
      split <;> rfl
    · exact ⟨And.left, fun kept => ⟨kept, fun _ => zero⟩⟩
  · have same : bits = bits' := by rwa [place] at hit
    subst same
    constructor
    · have other : ¬ (bits = 0 ∧ ZeroCached history) := by
        rintro ⟨rfl, cached⟩
        exact late rfl cached
      rw [place, decodedFunc, if_neg other]
      rfl
    · exact ⟨And.left, fun kept => ⟨kept, fun atZero => absurd kept (late atZero)⟩⟩

/-- A word that is searched for. -/
theorem decodeInsn_miss (rearranged : Rearranged set table decoder.instructions)
    (fills : Fills set table history decoder.opcodeCache)
    (miss : bits ≠ (decoder.opcodeCache (bits.toNat % opcodeCacheSize)).matchBits) :
    ∃ decoder', decodeInsn xlen bits decoder =
        some (decodedFunc set table history xlen bits, decoder') ∧
      Rearranged set table decoder'.instructions ∧
        Fills set table (history ++ [(xlen, bits)]) decoder'.opcodeCache := by
  have evicted : bits = 0 → ¬ ZeroCached history := by
    rintro rfl
    rcases fills 0 with ⟨place, -⟩ | ⟨bits', -, -, late⟩
    · refine absurd ?_ miss
      show (0 : BitVec 64) = (decoder.opcodeCache 0).matchBits
      rw [place]
      rfl
    · exact late rfl
  have found := rearranged.find?_eq bits
  cases sought : seek (·.matches bits) decoder.instructions with
  | none =>
      rw [seek_eq_none.mp sought] at found
      cases found
  | some pieces =>
      obtain ⟨before, desc, after⟩ := pieces
      obtain ⟨parts, first⟩ := seek_spec sought
      have isLookup : desc = lookup set table bits := Option.some.inj (first.symm.trans found)
      subst isLookup
      have other : ¬ (bits = 0 ∧ ZeroCached history) := fun both => evicted both.1 both.2
      refine ⟨{ instructions := Spike.reduceMissPenalty before (lookup set table bits) after
                opcodeCache := Function.update decoder.opcodeCache (bits.toNat % opcodeCacheSize)
                  ((lookup set table bits).withMatch bits) }, ?_, ?_, ?_⟩
      · rw [decodeInsn, if_neg miss, sought, decodedFunc, if_neg other]
        rfl
      · rw [parts] at rearranged
        exact rearranged.reduceMissPenalty
      · intro idx
        by_cases here : bits.toNat % opcodeCacheSize = idx
        · right
          subst here
          refine ⟨bits, rfl, Function.update_self .., ?_⟩
          intro atZero kept
          obtain ⟨before, only⟩ := zeroCached_concat.mp kept
          exact evicted (only atZero) before
        · have unchanged : idx = 0 →
              (ZeroCached (history ++ [(xlen, bits)]) ↔ ZeroCached history) := by
            rintro rfl
            rw [zeroCached_concat]
            exact ⟨And.left, fun kept => ⟨kept, fun atZero => absurd atZero here⟩⟩
          have place : Function.update decoder.opcodeCache (bits.toNat % opcodeCacheSize)
              ((lookup set table bits).withMatch bits) idx = decoder.opcodeCache idx :=
            Function.update_of_ne (Ne.symm here) _ _
          dsimp only
          rw [place]
          rcases fills idx with ⟨initial, early⟩ | ⟨bits', isPlace, filled, late⟩
          · exact Or.inl ⟨initial, fun isZero => (unchanged isZero).mpr (early isZero)⟩
          · refine Or.inr ⟨bits', isPlace, filled, fun isZero => ?_⟩
            rw [unchanged isZero]
            exact late isZero

/-- A decode gives the function of a search of the table, or that of the illegal instruction for
the word zero while nothing else took its place in the cache. -/
theorem decodeInsn_spec (rearranged : Rearranged set table decoder.instructions)
    (fills : Fills set table history decoder.opcodeCache) (xlen : Nat) (bits : BitVec 64) :
    ∃ decoder', decodeInsn xlen bits decoder =
        some (decodedFunc set table history xlen bits, decoder') ∧
      Rearranged set table decoder'.instructions ∧
        Fills set table (history ++ [(xlen, bits)]) decoder'.opcodeCache := by
  by_cases hit : bits = (decoder.opcodeCache (bits.toNat % opcodeCacheSize)).matchBits
  · obtain ⟨answer, unchanged⟩ := @decodeInsn_hit _ _ _ _ _ xlen _ fills hit
    refine ⟨decoder, answer, rearranged, ?_⟩
    intro idx
    simp only [unchanged]
    exact fills idx
  · exact decodeInsn_miss rearranged fills hit

end Step

/-- Decode some words, each for the register width at its time. -/
def decodeRun : List (Nat × BitVec 64) → Decoder φ → Option (List φ)
  | [], _ => some []
  | (xlen, bits) :: rest, decoder => do
      let (func, decoder) ← decodeInsn xlen bits decoder
      return func :: (← decodeRun rest decoder)

theorem decodeRun_spec {set : InsnSet φ} {table : List (InsnDesc φ)}
    {words : List (Nat × BitVec 64)} :
    ∀ {history : List (Nat × BitVec 64)} {decoder : Decoder φ},
      Rearranged set table decoder.instructions → Fills set table history decoder.opcodeCache →
        ∃ funcs, decodeRun words decoder = some funcs ∧
          ∀ before xlen bits after, words = before ++ (xlen, bits) :: after →
            funcs[before.length]? = some (decodedFunc set table (history ++ before) xlen bits) := by
  induction words with
  | nil =>
      intro history decoder _ _
      refine ⟨[], rfl, ?_⟩
      intro before xlen bits after parts
      simp at parts
  | cons word rest inductionHypothesis =>
      intro history decoder rearranged fills
      obtain ⟨xlen, bits⟩ := word
      obtain ⟨decoder', decoded, rearranged', fills'⟩ :=
        decodeInsn_spec rearranged fills xlen bits
      obtain ⟨funcs, run, each⟩ := inductionHypothesis rearranged' fills'
      refine ⟨decodedFunc set table history xlen bits :: funcs, ?_, ?_⟩
      · simp [decodeRun, decoded, run]
      · intro before xlen' bits' after parts
        cases before with
        | nil =>
            obtain ⟨⟨rfl, rfl⟩, -⟩ : (xlen = xlen' ∧ bits = bits') ∧ rest = after := by
              simpa using parts
            simp
        | cons first others =>
            obtain ⟨rfl, parts'⟩ := List.cons.inj parts
            have later := each others xlen' bits' after parts'
            simpa using later

/-- In every run of decodes on a table that was built, each word gets the function that a search
of that table finds, whatever was moved and remembered before; the word zero gets that of the
illegal instruction, until the first decode of another multiple of the size of the cache. -/
theorem decodeRun_answers {set : InsnSet φ} {decoder : Decoder φ} (built : Built set decoder)
    (words : List (Nat × BitVec 64)) :
    ∃ funcs, decodeRun words decoder = some funcs ∧
      ∀ before xlen bits after, words = before ++ (xlen, bits) :: after →
        funcs[before.length]? = some (if bits = 0 ∧ ZeroCached before then set.illegal
          else (lookup set decoder.instructions bits).func xlen) := by
  have fills : Fills set decoder.instructions [] decoder.opcodeCache := by
    intro idx
    refine Or.inl ⟨built.cache idx, fun _ => ?_⟩
    intro word mem
    cases mem
  obtain ⟨funcs, run, each⟩ := @decodeRun_spec _ _ _ words _ _ built.rearranged fills
  exact ⟨funcs, run, each⟩

/-- Two patterns that agree where both mask match one word; so it is enough to compare those. -/
theorem matchBits_of_agree {desc other : InsnDesc φ}
    (agree : desc.matchBits &&& other.mask = other.matchBits &&& desc.mask →
      desc.matchBits = other.matchBits) (bits : BitVec 64) (hits : desc.matches bits = true)
    (otherHits : other.matches bits = true) : desc.matchBits = other.matchBits := by
  simp only [InsnDesc.matches, decide_eq_true_eq] at hits otherHits
  apply agree
  rw [← hits, ← otherHits, BitVec.and_assoc, BitVec.and_assoc, BitVec.and_comm desc.mask]

/-- Some compressed instructions, three of which are variants of one encoding, and `lui`. -/
def compressedSet : InsnSet (String × Nat) where
  insns := [("c_add", 0x9002, 0xf003), ("c_jalr", 0x9002, 0xf07f), ("c_ebreak", 0x9002, 0xffff),
    ("c_addi4spn", 0, 0xe003), ("lui", 0x37, 0x7f)].map fun (name, matchBits, mask) =>
      { matchBits, mask, rv32 := (name, 32), rv64 := (name, 64) }
  illegal := ("illegal_instruction", 0)
  masked := by decide
  share := by
    intro desc mem other member bits
    apply matchBits_of_agree
    revert desc other
    decide

/-- The word zero and a word of its place, a word with three variants, and words that move. -/
def compressedWords : List (Nat × BitVec 64) :=
  [(64, 0), (64, 0x9002), (32, 0x9086), (64, 0x1137), (64, 8191), (64, 0), (32, 0x9002)]

/-- Some words are decoded on a small table. -/
theorem decodeRun_answers_compressed :
    ∃ funcs, decodeRun compressedWords (buildOpcodeMap compressedSet.illegal
        (illegalDesc compressedSet.illegal :: compressedSet.insns)) = some funcs ∧
      ∀ before xlen bits after, compressedWords = before ++ (xlen, bits) :: after →
        funcs[before.length]? = some (if bits = 0 ∧ ZeroCached before then compressedSet.illegal
          else (lookup compressedSet (buildOpcodeMap compressedSet.illegal
            (illegalDesc compressedSet.illegal :: compressedSet.insns)).instructions bits).func
              xlen) :=
  decodeRun_answers (built_buildOpcodeMap compressedSet (List.Perm.refl _)) compressedWords

end Difftest.Spike
