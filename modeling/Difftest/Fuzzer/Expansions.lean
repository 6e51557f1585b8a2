import Difftest.Fuzzer.Drafts

/-!
# Expansions of opcodes

Whatever is drawn, the expansion of an opcode of the tables is a draft.
-/

namespace Difftest.Fuzzer

open Difftest.Text

/-! ## Bits of control registers -/

/-- The instructions that set bits are templates that stay in line. -/
def SetsBits (inst : Text) : Prop := PlainTemplate inst ∧ opcodeOf inst ∉ transferOpcodes

instance (inst : Text) : Decidable (SetsBits inst) := inferInstanceAs (Decidable (_ ∧ _))

theorem setsBits_addi : ∀ n ∈ [2, 3, 4], ∀ bits ∈ [1, 3],
    SetsBits ("addi ".toList ++ ("xreg".toList ++ str n) ++ ", zero, ".toList ++ str bits) := by
  decide +kernel

theorem setsBits_slli : ∀ n ∈ [2, 3, 4], ∀ offset < 32,
    SetsBits ("slli ".toList ++ ("xreg".toList ++ str n) ++ ", ".toList ++
      ("xreg".toList ++ str n) ++ ", ".toList ++ str offset) := by
  decide +kernel

theorem setsBits_add : ∀ n ∈ [2, 3, 4],
    SetsBits ("add xreg1, xreg1, ".toList ++ ("xreg".toList ++ str n)) := by
  decide +kernel

/-- What `word_csr_r` adds for one number of bits. -/
theorem setBits_returns {n : Nat} (isRegister : n ∈ [2, 3, 4]) {result : List Text × Text}
    (returned : Random.Returns (setBits n) result) :
    (∀ inst ∈ result.1, SetsBits inst) ∧ result.2 ∈ registerNames := by
  rw [setBits] at returned
  rcases returned.bind with ⟨bits, isBits, returned⟩
  rcases returned.bind with ⟨offset, isOffset, returned⟩
  cases Random.returns_pure.mp returned
  have names : ∀ n ∈ [2, 3, 4], "xreg".toList ++ str n ∈ registerNames := by decide
  refine ⟨?_, names n isRegister⟩
  rw [List.forall_mem_cons, List.forall_mem_cons, List.forall_mem_singleton]
  exact ⟨setsBits_addi n isRegister bits isBits.choice,
    setsBits_slli n isRegister offset (Nat.lt_succ_of_le isOffset.randint.2),
    setsBits_add n isRegister⟩

/-- Further instructions that stay in line, and registers that they use. -/
theorem Drafts.insert {tpe : WordType} {front back insts : List Text} {op : Opcode}
    {registers : List Text} (drafts : Drafts (tpe, front ++ back, op))
    (plain : ∀ inst ∈ insts, SetsBits inst) (names : ∀ name ∈ registers, name ∈ registerNames) :
    Drafts (tpe, front ++ insts ++ back, { op with xregs := op.xregs ++ registers }) where
  registers := by
    intro name mem
    rcases List.mem_append.mp mem with isX | isF
    · rcases List.mem_append.mp isX with old | new
      · exact drafts.registers name (List.mem_append_left _ old)
      · exact names name new
    · exact drafts.registers name (List.mem_append_right _ isF)
  immediates := drafts.immediates
  symbols := drafts.symbols
  nonempty := by
    have nonempty := drafts.nonempty
    simp only [ne_eq, List.append_eq_nil_iff, not_and] at nonempty ⊢
    exact fun noFront => nonempty noFront.1
  insts := by
    intro inst mem
    rw [List.append_assoc, List.mem_append, List.mem_append] at mem
    rcases mem with isFront | isNew | isBack
    · exact drafts.insts inst (List.mem_append_left _ isFront)
    · exact Or.inl (plain inst isNew).1
    · exact drafts.insts inst (List.mem_append_right _ isBack)
  jumps := by
    rintro ⟨inst, mem, transfers⟩
    rw [List.append_assoc, List.mem_append, List.mem_append] at mem
    have inOld : inst ∈ front ++ back := by
      rcases mem with isFront | isNew | isBack
      · exact List.mem_append_left _ isFront
      · exact absurd transfers (plain inst isNew).2
      · exact List.mem_append_right _ isBack
    rcases drafts.jumps ⟨inst, inOld, transfers⟩ with ⟨notMemory, symbols, label, isLabel, shape⟩
    refine ⟨notMemory, symbols, label, ?_, shape⟩
    rcases List.mem_append.mp isLabel with isFront | isBack
    · exact List.mem_append_left _ (List.mem_append_left _ isFront)
    · exact List.mem_append_right _ isBack

/-! ## All expansions -/

section Expand

variable {opcode : Text} {op : Opcode} {expansion : Expansion}

theorem wordMem_returns {tpe : WordType} (returned : Random.Returns (wordMem op tpe) expansion) :
    ∃ masked, expansion = memExpansion op tpe masked := by
  rw [wordMem] at returned
  rcases returned.bind with ⟨rand, _, returned⟩
  by_cases masked : rand < 10
  · rw [if_pos masked] at returned
    exact ⟨true, Random.returns_pure.mp returned⟩
  · rw [if_neg masked] at returned
    exact ⟨false, Random.returns_pure.mp returned⟩

theorem wordAtomic_returns (returned : Random.Returns (wordAtomic op opcode) expansion) :
    ∃ masked, expansion = atomicExpansion op opcode masked := by
  rw [wordAtomic] at returned
  rcases returned.bind with ⟨rand, _, returned⟩
  by_cases masked : rand < 10
  · rw [if_pos masked] at returned
    exact ⟨true, Random.returns_pure.mp returned⟩
  · rw [if_neg masked] at returned
    exact ⟨false, Random.returns_pure.mp returned⟩

theorem drafts_wordCsrR (returned : Random.Returns (wordCsrR op) expansion)
    (rows : ∀ csr ∈ csrNames, Drafts (addressExpansion op csr) ∧ Drafts (registerExpansion op csr)) :
    Drafts expansion := by
  rw [wordCsrR] at returned
  rcases returned.bind with ⟨csr, isCsr, returned⟩
  have rows := rows csr isCsr.choice
  split at returned
  · cases Random.returns_pure.mp returned
    exact rows.1
  · rcases returned.bind with ⟨count, isCount, returned⟩
    rcases returned.bind with ⟨sets, isSets, returned⟩
    cases Random.returns_pure.mp returned
    have each : ∀ set ∈ sets, (∀ inst ∈ set.1, SetsBits inst) ∧ set.2 ∈ registerNames := by
      intro set mem
      rcases exists_of_forall₂ isSets.mapM mem with ⟨i, isIndex, isSet⟩
      have small := List.mem_range.mp isIndex
      have few := isCount.randint.2
      apply setBits_returns _ isSet
      have cases' : i = 0 ∨ i = 1 ∨ i = 2 := by omega
      rcases cases' with rfl | rfl | rfl <;> decide
    refine @Drafts.insert _ _ [format csr op.form] _ _ _ rows.2 ?_ ?_
    · intro inst mem
      rcases List.mem_flatMap.mp mem with ⟨set, isSet, isInst⟩
      exact (each set isSet).1 inst isInst
    · intro name mem
      rcases List.mem_map.mp mem with ⟨set, isSet, rfl⟩
      exact (each set isSet).2

/-- Every expansion of an instruction of the tables is a draft. -/
theorem drafts_expand (isRow : (opcode, op) ∈ rv64g)
    (returned : Random.Returns (expand op opcode) expansion) : Drafts expansion := by
  rcases drafts_rows _ isRow with
    ⟨jal, jalr, branch, ret, memory, atomic, csrR, csrI, sfence, fp, plain⟩
  rw [expand] at returned
  by_cases isJal : opcode = "jal".toList
  · rw [if_pos isJal] at returned
    rw [Random.returns_pure.mp returned]
    exact jal isJal
  rw [if_neg isJal] at returned
  by_cases isJalr : opcode = "jalr".toList
  · rw [if_pos isJalr] at returned
    rw [Random.returns_pure.mp returned]
    exact jalr isJalr
  rw [if_neg isJalr] at returned
  by_cases isBranch : opcode ∈ opcodesOf rv32iBtype
  · rw [if_pos isBranch] at returned
    rw [Random.returns_pure.mp returned]
    exact branch isBranch
  rw [if_neg isBranch] at returned
  by_cases isRet : opcode ∈ ["mret", "sret", "uret"].map String.toList
  · rw [if_pos isRet] at returned
    rw [Random.returns_pure.mp returned]
    exact ret isRet
  rw [if_neg isRet] at returned
  by_cases isLoad : opcode ∈ ["lb", "lh", "lw", "ld", "lbu", "lhu", "lwu", "flw", "fld",
      "flq"].map String.toList
  · rw [if_pos isLoad] at returned
    rcases wordMem_returns returned with ⟨masked, rfl⟩
    exact memory (List.mem_append_left _ isLoad) .memR (by decide) masked
  rw [if_neg isLoad] at returned
  by_cases isStore : opcode ∈ ["sb", "sh", "sw", "sd", "fsw", "fsd", "fsq"].map String.toList
  · rw [if_pos isStore] at returned
    rcases wordMem_returns returned with ⟨masked, rfl⟩
    exact memory (List.mem_append_right _ isStore) .memW (by decide) masked
  rw [if_neg isStore] at returned
  by_cases isAtomic : opcode ∈ opcodesOf (rv32aRtype ++ rv64aRtype)
  · rw [if_pos isAtomic] at returned
    rcases wordAtomic_returns returned with ⟨masked, rfl⟩
    exact atomic isAtomic masked
  rw [if_neg isAtomic] at returned
  by_cases isCsrR : opcode ∈ ["csrrw", "csrrs", "csrrc"].map String.toList
  · rw [if_pos isCsrR] at returned
    exact drafts_wordCsrR returned (csrR isCsrR)
  rw [if_neg isCsrR] at returned
  by_cases isCsrI : opcode ∈ ["csrrwi", "csrrsi", "csrrci"].map String.toList
  · rw [if_pos isCsrI] at returned
    rw [wordCsrI] at returned
    rcases returned.bind with ⟨csr, isCsr, returned⟩
    rw [Random.returns_pure.mp returned]
    exact csrI isCsrI csr isCsr.choice
  rw [if_neg isCsrI] at returned
  by_cases isSfence : opcode = "sfence.vma".toList
  · rw [if_pos isSfence] at returned
    rw [wordSfence] at returned
    rcases returned.bind with ⟨pt, isPt, returned⟩
    rw [Random.returns_pure.mp returned]
    exact sfence isSfence pt isPt.choice
  rw [if_neg isSfence] at returned
  by_cases isFp : opcode ∈ opcodesOf (rv32f ++ rv64fRtype)
  · rw [if_pos isFp] at returned
    rw [Random.returns_pure.mp returned]
    exact fp isFp
  rw [if_neg isFp] at returned
  rw [Random.returns_pure.mp returned]
  apply plain
  intro listed
  rw [listedOpcodes, memoryOpcodes] at listed
  repeat rw [List.mem_append] at listed
  rcases listed with (((((((isPair | listed) | listed) | isLoad' | isStore') | listed) | listed) |
    listed) | listed) | listed
  · rcases List.mem_cons.mp isPair with listed | listed
    · exact isJal listed
    · exact isJalr (List.mem_singleton.mp listed)
  · exact isBranch listed
  · exact isRet listed
  · exact isLoad isLoad'
  · exact isStore isStore'
  · exact isAtomic listed
  · exact isCsrR listed
  · exact isCsrI listed
  · exact isSfence (List.mem_singleton.mp listed)
  · exact isFp listed

end Expand

end Difftest.Fuzzer
