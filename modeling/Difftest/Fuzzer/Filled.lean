import Difftest.Fuzzer.Expansions
import Mathlib.Data.Nat.Bitwise

/-!
# Filling in the operands of a draft

The drawn registers and numbers are values of their placeholders, whatever was drawn before.
Filling them in keeps the templates, and the label of a word comes last.
-/

namespace Difftest.Fuzzer

open Difftest.Text

/-! ## Drawn values -/

/-- The registers that are reused exist. -/
structure Generator.Small (gen : Generator) : Prop where
  xregs : ∀ n ∈ gen.usedXNums, n < 32
  fregs : ∀ n ∈ gen.usedFNums, n < 32

theorem Generator.small_reset : Generator.reset.Small := ⟨nofun, nofun⟩

theorem mem_addUsed {new n : Nat} {used : List Nat} (mem : n ∈ addUsed new used) :
    n ∈ used ∨ n = new := by
  rw [addUsed] at mem
  split at mem
  · exact Or.inl mem
  · simpa using mem

theorem fillsIn_register {name : Text} (isName : name ∈ registerNames) {n : Nat} (small : n < 32)
    {letter : Char} (isLetter : letter ∈ ['x', 'f']) : FillsIn name (letter :: str n) := by
  have names : ∀ name ∈ registerNames, weightOf name = 5 := by decide
  have values : ∀ letter ∈ ['x', 'f'], ∀ n < 32,
      (∀ c ∈ letter :: str n, c ∈ valueChars) ∧ weightOf (letter :: str n) ≤ 5 := by decide +kernel
  rcases values letter isLetter n small with ⟨chars, light⟩
  refine ⟨List.mem_append_left _ isName, chars, ?_⟩
  rw [names name isName]
  exact light

section Draw

variable {gen gen' : Generator} {value name : Text}

theorem getXregs_eq (gen : Generator) (low high : Nat) (noZero : Bool) :
    gen.getXregs low high noZero =
      ((if (low, high) = (0, 31) ∧ gen.usedXNums ≠ [] then
          (fun rand => decide (rand < 20)) <$> Random.hundredths
        else pure false) >>= fun reuse =>
      (if reuse = true then (fun xNum => (xNum, gen)) <$> Random.choice gen.usedXNums
        else (fun xNum => (xNum, { gen with usedXNums := addUsed xNum gen.usedXNums })) <$>
          Random.choice (List.range' low (high - low))) >>= fun chosen =>
      (if noZero = true ∧ chosen.1 = 0 then Random.choice (List.range' 1 31) else pure chosen.1) >>=
        fun xNum => pure ('x' :: str xNum, chosen.2)) := by
  rw [Generator.getXregs]
  split <;>
  · apply bind_congr
    intro reuse
    dsimp only
    split <;>
    · apply bind_congr
      intro chosen
      split <;> rfl

theorem getXregs_returns {low high : Nat} {noZero : Bool} (inside : high ≤ 32) (small : gen.Small)
    (isName : name ∈ registerNames)
    (returned : Random.Returns (gen.getXregs low high noZero) (value, gen')) :
    FillsIn name value ∧ gen'.Small := by
  rw [getXregs_eq] at returned
  rcases returned.bind with ⟨reuse, _, returned⟩
  rcases returned.bind with ⟨⟨xNum, middle⟩, drawn, returned⟩
  rcases returned.bind with ⟨xNum', final, returned⟩
  cases Random.returns_pure.mp returned
  have first : xNum < 32 ∧ middle.Small := by
    split at drawn
    · rcases drawn.map with ⟨n, chosen, same⟩
      cases same
      exact ⟨small.xregs _ chosen.choice, small⟩
    · rcases drawn.map with ⟨n, chosen, same⟩
      cases same
      have bounds := List.mem_range'_1.mp chosen.choice
      have below : xNum < 32 := by omega
      refine ⟨below, ?_, small.fregs⟩
      intro other mem
      rcases mem_addUsed mem with old | rfl
      · exact small.xregs other old
      · exact below
  refine ⟨fillsIn_register isName ?_ (by decide), first.2⟩
  split at final
  · have bounds := List.mem_range'_1.mp final.choice
    omega
  · rw [Random.returns_pure.mp final]
    exact first.1

theorem getFregs_eq (gen : Generator) :
    gen.getFregs =
      ((if gen.usedFNums ≠ [] then (fun rand => decide (rand < 20)) <$> Random.hundredths
        else pure false) >>= fun reuse =>
      if reuse = true then (fun fNum => ('f' :: str fNum, gen)) <$> Random.choice gen.usedFNums
      else (fun fNum => ('f' :: str fNum, { gen with usedFNums := addUsed fNum gen.usedFNums })) <$>
        Random.choice (List.range 32)) := by
  rw [Generator.getFregs]
  split <;> rfl

theorem getFregs_returns (small : gen.Small) (isName : name ∈ registerNames)
    (returned : Random.Returns gen.getFregs (value, gen')) : FillsIn name value ∧ gen'.Small := by
  rw [getFregs_eq] at returned
  rcases returned.bind with ⟨reuse, _, returned⟩
  split at returned
  · rcases returned.map with ⟨n, chosen, same⟩
    cases same
    exact ⟨fillsIn_register isName (small.fregs n chosen.choice) (by decide), small⟩
  · rcases returned.map with ⟨n, chosen, same⟩
    cases same
    have below : n < 32 := List.mem_range.mp chosen.choice
    refine ⟨fillsIn_register isName below (by decide), small.xregs, ?_⟩
    intro other mem
    rcases mem_addUsed mem with old | rfl
    · exact small.fregs other old
    · exact below

/-- The sign and the width that a placeholder gives to its numbers. -/
def Shape (name sign : Text) (width : Nat) : Prop :=
  if contains "uimm".toList name = true then sign = [] ∧ natOf (name.drop 4) = some width
  else sign ∈ [[], ['-']] ∧ (natOf (name.drop 3)).map (· - 1) = some width

theorem getImm_shape (gen : Generator) (name : Text) (align : Nat)
    (returned : Random.Returns (gen.getImm name align) (value, gen')) :
    ∃ sign width n, Shape name sign width ∧
      value = sign ++ str (Nat.ldiff (2 ^ width - 1) (align - 1) &&& n) ∧
      gen'.usedXNums = gen.usedXNums ∧ gen'.usedFNums = gen.usedFNums := by
  have drawn : ∀ sign width, Random.Returns (do
      let _ ← Random.hundredths
      let mask := Nat.ldiff (2 ^ width - 1) (align - 1)
      let rand ← Random.hundredths
      if gen.usedImms ≠ [] ∧ rand < 20 then do
        let imm ← Random.choice gen.usedImms
        pure (sign ++ str (mask &&& imm), gen)
      else if rand < 40 then do
        let imm ← Random.choice [0, 0xffffffff]
        pure (sign ++ str (mask &&& imm), gen)
      else do
        let imm ← Random.randint 0 mask
        pure (sign ++ str (mask &&& imm), { gen with usedImms := addUsed imm gen.usedImms }))
      (value, gen') →
      ∃ n, value = sign ++ str (Nat.ldiff (2 ^ width - 1) (align - 1) &&& n) ∧
        gen'.usedXNums = gen.usedXNums ∧ gen'.usedFNums = gen.usedFNums := by
    intro sign width returned
    rcases returned.bind with ⟨_, _, returned⟩
    rcases returned.bind with ⟨rand, _, returned⟩
    split at returned
    · rcases returned.bind with ⟨imm, _, returned⟩
      cases Random.returns_pure.mp returned
      exact ⟨imm, rfl, rfl, rfl⟩
    · split at returned
      · rcases returned.bind with ⟨imm, _, returned⟩
        cases Random.returns_pure.mp returned
        exact ⟨imm, rfl, rfl, rfl⟩
      · rcases returned.bind with ⟨imm, _, returned⟩
        cases Random.returns_pure.mp returned
        exact ⟨imm, rfl, rfl, rfl⟩
  rw [Generator.getImm] at returned
  split at returned
  · rcases returned.bind with ⟨_, raised, _⟩
    exact absurd raised Random.not_returns_raise
  · dsimp only at returned
    by_cases unsigned : contains "uimm".toList name = true
    · rw [if_pos unsigned] at returned
      rcases returned.bind with ⟨width, isWidth, returned⟩
      rcases drawn [] width returned with ⟨n, parts⟩
      refine ⟨[], width, n, ?_, parts⟩
      rw [Shape, if_pos unsigned]
      exact ⟨rfl, Random.returns_ofOption.mp isWidth⟩
    · rw [if_neg unsigned] at returned
      rcases returned.bind with ⟨sign, isSign, returned⟩
      rcases returned.bind with ⟨width, isWidth, returned⟩
      rcases drawn sign (width - 1) returned with ⟨n, parts⟩
      refine ⟨sign, width - 1, n, ?_, parts⟩
      rw [Shape, if_neg unsigned, Random.returns_ofOption.mp isWidth]
      exact ⟨isSign.choice, rfl⟩

/-- The digits of a number. -/
theorem mem_digits_of_mem_str {n : Nat} {c : Char} (mem : c ∈ str n) : c ∈ "0123456789".toList := by
  have digits : ∀ d < 10, Nat.digitChar d ∈ "0123456789".toList := by decide
  rw [str] at mem
  induction n using Nat.strongRecOn with
  | ind n inductionHypothesis =>
      by_cases small : n < 10
      · rw [Nat.toDigits_of_lt_base small, List.mem_singleton] at mem
        rw [mem]
        exact digits n small
      · rw [Nat.toDigits_of_base_le (by decide) (Nat.not_lt.mp small), List.mem_append,
          List.mem_singleton] at mem
        rcases mem with front | rfl
        · exact inductionHypothesis _ (Nat.div_lt_self (by omega) (by decide)) front
        · exact digits _ (Nat.mod_lt n (by decide))

theorem weightOf_eq_length {text : Text} (noU : 'u' ∉ text) : weightOf text = text.length := by
  induction text with
  | nil => rfl
  | cons c text inductionHypothesis =>
      rw [List.mem_cons, not_or] at noU
      have rest := inductionHypothesis noU.2
      rw [weightOf] at rest
      rw [weightOf, List.map_cons, List.sum_cons, rest, if_neg (Ne.symm noU.1), List.length_cons,
        Nat.add_comm]

/-- The widths of the placeholders leave room for their numbers. -/
theorem room_of_shape : ∀ name ∈ immediateNames,
    (∀ width ∈ natOf (name.drop 4), contains "uimm".toList name = true →
      2 ^ width - 1 < 10 ^ weightOf name) ∧
    ∀ width ∈ natOf (name.drop 3), contains "uimm".toList name = false →
      2 ^ (width - 1) - 1 < 10 ^ (weightOf name - 1) ∧ 1 < weightOf name := by
  decide +kernel

theorem fillsIn_immediate (isName : name ∈ immediateNames) {sign : Text} {width : Nat}
    (shape : Shape name sign width) {n : Nat} (small : n ≤ 2 ^ width - 1) :
    FillsIn name (sign ++ str n) := by
  have digits : ∀ c ∈ str n, c ∈ "0123456789".toList := fun c mem => mem_digits_of_mem_str mem
  have parts : (∀ c ∈ sign, c = '-') ∧ ∃ columns, n < 10 ^ columns ∧ 0 < columns ∧
      sign.length + columns ≤ weightOf name := by
    rw [Shape] at shape
    split at shape
    · rename_i unsigned
      rcases shape with ⟨rfl, isWidth⟩
      have room := (room_of_shape name isName).1 width isWidth unsigned
      refine ⟨nofun, weightOf name, lt_of_le_of_lt small room, ?_, by simp⟩
      exact (by decide : ∀ name ∈ immediateNames, 0 < weightOf name) name isName
    · rename_i signed
      rcases shape with ⟨isSign, isWidth⟩
      rcases Option.map_eq_some_iff.mp isWidth with ⟨whole, isWhole, rfl⟩
      have room := (room_of_shape name isName).2 whole isWhole (Bool.not_eq_true _ ▸ signed)
      have signs : ∀ sign ∈ [[], ['-']], (∀ c ∈ sign, c = '-') ∧ sign.length ≤ 1 := by decide
      have one := (signs sign isSign).2
      refine ⟨(signs sign isSign).1, weightOf name - 1, lt_of_le_of_lt small room.1, by omega,
        by omega⟩
  rcases parts with ⟨minus, columns, few, positive, room⟩
  have chars : ∀ c ∈ sign ++ str n, c ∈ valueChars := by
    intro c mem
    rcases List.mem_append.mp mem with inSign | inNumber
    · rw [minus c inSign]
      decide
    · exact (by decide : ∀ c ∈ "0123456789".toList, c ∈ valueChars) c (digits c inNumber)
  have noU : 'u' ∉ sign ++ str n := fun mem => absurd (chars 'u' mem) (by decide)
  have length := (Nat.length_toDigits_le_iff (by decide : 1 < 10) positive).mpr few
  refine ⟨List.mem_append_right _ isName, chars, ?_⟩
  rw [weightOf_eq_length noU, List.length_append, str]
  omega

theorem ldiff_le (a b : Nat) : Nat.ldiff a b ≤ a := by
  have same : Nat.ldiff a b = a &&& Nat.ldiff a b := by
    apply Nat.eq_of_testBit_eq
    intro i
    rw [Nat.testBit_and, Nat.testBit_ldiff]
    cases a.testBit i <;> rfl
  rw [same]
  exact Nat.and_le_left

theorem getImm_returns {align : Nat} (small : gen.Small) (isName : name ∈ immediateNames)
    (returned : Random.Returns (gen.getImm name align) (value, gen')) :
    FillsIn name value ∧ gen'.Small := by
  rcases getImm_shape gen name align returned with ⟨sign, width, n, shape, rfl, xregs, fregs⟩
  refine ⟨fillsIn_immediate isName shape (Nat.and_le_left.trans (ldiff_le _ _)), ?_, ?_⟩
  · rw [xregs]
    exact small.xregs
  · rw [fregs]
    exact small.fregs

end Draw

/-! ## Values of all operands -/

section Values

/-- A list of operands is filled in one by one. -/
theorem fillIn_returns {α : Type} {name : α → Text}
    {value : Generator → α → Random (Text × Generator)} {list : List α}
    (step : ∀ operand ∈ list, ∀ gen drawn gen', gen.Small →
      Random.Returns (value gen operand) (drawn, gen') →
      FillsIn (name operand) drawn ∧ gen'.Small)
    {opvals opvals' : Dict Text Text} {gen gen' : Generator}
    (fills : ∀ entry ∈ opvals.entries, FillsIn entry.1 entry.2) (small : gen.Small)
    (returned : Random.Returns (Generator.fillIn name value list opvals gen) (opvals', gen')) :
    (∀ entry ∈ opvals'.entries, FillsIn entry.1 entry.2) ∧ gen'.Small := by
  induction list generalizing opvals gen with
  | nil =>
      cases Random.returns_pure.mp returned
      exact ⟨fills, small⟩
  | cons operand rest inductionHypothesis =>
      rw [Generator.fillIn] at returned
      rcases returned.bind with ⟨⟨drawn, middle⟩, isDrawn, returned⟩
      rcases step operand List.mem_cons_self gen drawn middle small isDrawn with ⟨isValue, still⟩
      refine inductionHypothesis (fun other mem => step other (List.mem_cons_of_mem _ mem)) ?_ still
        returned
      intro entry mem
      rcases Dict.mem_of_mem_assign mem with rfl | old
      · exact isValue
      · exact fills entry old

/-- What a label operand may become. -/
inductive SymbolValue (part : Part) (tpe : WordType) (label maxLabel : Nat) : Text → Prop where
  | label {n : Nat} (bound : n ≤ maxLabel)
      (ahead : tpe ∉ [WordType.memR, WordType.memW] → label < n) :
      SymbolValue part tpe label maxLabel (part.mark ++ str n)
  | data {n k : Nat} (memory : tpe ∈ [WordType.memR, WordType.memW]) (few : n ≤ 5) (near : k ≤ 27) :
      SymbolValue part tpe label maxLabel ("d_".toList ++ str n ++ ['_'] ++ str k)

theorem getSymbol_returns {tpe : WordType} {label maxLabel : Nat} {part : Part} {value : Text}
    (returned : Random.Returns (Generator.getSymbol tpe label maxLabel part) value) :
    SymbolValue part tpe label maxLabel value := by
  have data : ∀ {value : Text}, tpe ∈ [WordType.memR, WordType.memW] →
      Random.Returns Generator.dataSymbol value → SymbolValue part tpe label maxLabel value := by
    intro value memory returned
    rw [Generator.dataSymbol] at returned
    rcases returned.bind with ⟨n, isN, returned⟩
    rcases returned.bind with ⟨k, isK, returned⟩
    cases Random.returns_pure.mp returned
    exact .data memory isN.randint.2 isK.randint.2
  have ahead : ∀ {value : Text}, Random.Returns (do
      let num ← Random.randint (label + 1) maxLabel
      pure (part.mark ++ str num)) value → SymbolValue part tpe label maxLabel value := by
    intro value returned
    rcases returned.bind with ⟨num, isNum, returned⟩
    cases Random.returns_pure.mp returned
    exact .label isNum.randint.2 fun _ => isNum.randint.1
  cases tpe with
  | memW => exact data (by decide) returned
  | memR =>
      rw [Generator.getSymbol] at returned
      rcases returned.bind with ⟨rand, _, returned⟩
      split at returned
      · rcases returned.bind with ⟨n, isN, returned⟩
        cases Random.returns_pure.mp returned
        exact .label isN.randint.2 fun notMemory => absurd (by decide) notMemory
      · exact data (by decide) returned
  | none => exact ahead returned
  | cfJ => exact ahead returned
  | cfBr => exact ahead returned
  | cfRet => exact ahead returned
  | csr => exact ahead returned

end Values

end Difftest.Fuzzer
