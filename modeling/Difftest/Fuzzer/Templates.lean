import Difftest.Fuzzer.Labels

/-!
# Templates of instructions

The instructions of a word are templates in which placeholders are replaced one after the
other.  A replacement works on the parts between blanks and commas, leaves parts without
placeholders as they are, brings in only the characters of registers and numbers, and does not
make the text longer but for the letters `u` that it removes.  These facts are kept when
replacements are composed, and they are all that is needed to know the opcode, the label and
the register names of an instruction after its operands are filled in.
-/

namespace Difftest.Fuzzer

open Difftest.Text

/-! ## Replacements -/

/-- The placeholders of registers. -/
def registerNames : List Text :=
  ["xreg0", "xreg1", "xreg2", "xreg3", "xreg4", "freg0", "freg1", "freg2", "freg3"].map
    String.toList

/-- The placeholders of numbers. -/
def immediateNames : List Text :=
  ["imm6", "imm12", "uimm1", "uimm5", "uimm6", "uimm20"].map String.toList

/-- The placeholders of registers and numbers. -/
def operandNames : List Text := registerNames ++ immediateNames

/-- The placeholder of labels. -/
def symbolName : Text := "symbol".toList

/-- The characters of registers and numbers. -/
def valueChars : List Char := "xf-0123456789".toList

/-- No placeholder occurs in the text, because nothing of it reads `reg` or `imm`. -/
def Fixed (text : Text) : Prop :=
  contains "reg".toList text = false ∧ contains "imm".toList text = false

instance (text : Text) : Decidable (Fixed text) :=
  inferInstanceAs (Decidable (_ ∧ _))

theorem contains_mono {needle text whole : Text} (found : contains needle text = true)
    (inside : text <:+: whole) : contains needle whole = true :=
  decide_eq_true ((of_decide_eq_true found).trans inside)

theorem Fixed.noName {text : Text} (isFixed : Fixed text) {name : Text}
    (isName : name ∈ operandNames) : contains name text = false := by
  have reads : ∀ name ∈ operandNames, contains "reg".toList name = true ∨
      contains "imm".toList name = true := by decide
  rw [Bool.eq_false_iff]
  intro found
  rcases reads name isName with isRegister | isImmediate
  · have reg := contains_mono isRegister (of_decide_eq_true found)
    rw [isFixed.1] at reg
    cases reg
  · have imm := contains_mono isImmediate (of_decide_eq_true found)
    rw [isFixed.2] at imm
    cases imm

/-- The letter `u` counts twice, because only numbers without a sign can be longer than their
placeholder. -/
def weightOf (text : Text) : Nat := (text.map fun c => if c = 'u' then 2 else 1).sum

theorem weightOf_append (first second : Text) :
    weightOf (first ++ second) = weightOf first + weightOf second := by
  rw [weightOf, List.map_append, List.sum_append]
  rfl

theorem length_le_weightOf (text : Text) : text.length ≤ weightOf text := by
  induction text with
  | nil => exact Nat.zero_le _
  | cons c text inductionHypothesis =>
      rw [weightOf, List.map_cons, List.sum_cons, List.length_cons, Nat.add_comm]
      apply Nat.add_le_add _ inductionHypothesis
      split <;> decide

/-- What replacements of placeholders by registers and numbers have in common. -/
structure Filling (fill : Text → Text) : Prop where
  parts : ∀ c ∈ [' ', ','], ∀ front back, fill (front ++ c :: back) = fill front ++ c :: fill back
  fixed : ∀ text, Fixed text → fill text = text
  chars : ∀ text, ∀ c ∈ fill text, c ∈ text ∨ c ∈ valueChars
  light : ∀ text, weightOf (fill text) ≤ weightOf text

theorem filling_id : Filling id :=
  ⟨fun _ _ _ _ => rfl, fun _ _ => rfl, fun _ _ => Or.inl, fun _ => Nat.le_refl _⟩

theorem Filling.comp {first second : Text → Text} (left : Filling first) (right : Filling second) :
    Filling (second ∘ first) where
  parts c mem front back := by
    rw [Function.comp_apply, left.parts c mem, right.parts c mem]
    rfl
  fixed text isFixed := by
    rw [Function.comp_apply, left.fixed text isFixed, right.fixed text isFixed]
  chars text c mem := by
    rcases right.chars _ c mem with before | value
    · exact left.chars text c before
    · exact Or.inr value
  light text := (right.light _).trans (left.light text)

/-- The value of an operand. -/
structure FillsIn (name value : Text) : Prop where
  isName : name ∈ operandNames
  chars : ∀ c ∈ value, c ∈ valueChars
  light : weightOf value ≤ weightOf name

theorem filling_replace {name value : Text} (fills : FillsIn name value) :
    Filling (replace name value) where
  parts c mem front back := by
    have absent : ∀ name ∈ operandNames, ∀ c ∈ [' ', ','], c ∉ name := by decide
    have nonempty : ∀ name ∈ operandNames, name ≠ [] := by decide
    exact replace_append_cons (absent name fills.isName c mem) (nonempty name fills.isName) value
      front back
  fixed text isFixed := replace_of_contains value (isFixed.noName fills.isName)
  chars text c mem := (mem_replace mem).imp_right (fills.chars c)
  light text := sum_replace_le _ fills.light text

/-- The values of all operands are filled in one after the other. -/
theorem filling_foldl {entries : List (Text × Text)}
    (fills : ∀ entry ∈ entries, FillsIn entry.1 entry.2) :
    Filling fun inst => entries.foldl (fun inst entry => replace entry.1 entry.2 inst) inst := by
  induction entries with
  | nil => exact filling_id
  | cons entry entries inductionHypothesis =>
      exact (filling_replace (fills entry List.mem_cons_self)).comp
        (inductionHypothesis fun other mem => fills other (List.mem_cons_of_mem entry mem))

/-! ## Opcodes and operands -/

/-- The opcode of an instruction. -/
def opcodeOf (text : Text) : Text := text.takeWhile (· ≠ ' ')

/-- The operands of an instruction with the blank in front of them. -/
def operandsOf (text : Text) : Text := text.dropWhile (· ≠ ' ')

/-- The opcode and the operands of a text. -/
theorem opcode_append_operands (text : Text) : opcodeOf text ++ operandsOf text = text :=
  List.takeWhile_append_dropWhile

theorem blank_notMem_opcodeOf (text : Text) : ' ' ∉ opcodeOf text := by
  intro mem
  have other := List.mem_takeWhile_imp mem
  exact absurd other (by decide)

theorem opcodeOf_append_cons {opcode : Text} (noBlank : ' ' ∉ opcode) (rest : Text) :
    opcodeOf (opcode ++ ' ' :: rest) = opcode := by
  have plain : ∀ c ∈ opcode, decide (c ≠ ' ') = true := by
    intro c mem
    rw [decide_eq_true_eq]
    rintro rfl
    exact noBlank mem
  rw [opcodeOf, List.takeWhile_append_of_pos plain, List.takeWhile_cons_of_neg (by decide),
    List.append_nil]

/-- Operands start with a blank. -/
theorem operandsOf_cases (text : Text) :
    operandsOf text = [] ∨ ∃ rest, operandsOf text = ' ' :: rest := by
  cases operands : operandsOf text with
  | nil => exact Or.inl rfl
  | cons c rest =>
      have head := List.head?_dropWhile_not (fun c : Char => decide (c ≠ ' ')) text
      rw [← operandsOf, operands, List.head?_cons] at head
      have blank : c = ' ' := by simpa using head
      exact Or.inr ⟨rest, by rw [blank]⟩

/-- What follows an operand does not change the opcode. -/
theorem opcodeOf_append {text : Text} (blank : ' ' ∈ text) (rest : Text) :
    opcodeOf (text ++ rest) = opcodeOf text := by
  have parts := opcode_append_operands text
  rcases operandsOf_cases text with none | ⟨operands, isOperands⟩
  · rw [none, List.append_nil] at parts
    rw [← parts] at blank
    exact absurd blank (blank_notMem_opcodeOf text)
  · rw [isOperands] at parts
    calc
      opcodeOf (text ++ rest) = opcodeOf (opcodeOf text ++ ' ' :: (operands ++ rest)) := by
        rw [← List.cons_append, ← List.append_assoc, parts]
      _ = opcodeOf text := opcodeOf_append_cons (blank_notMem_opcodeOf text) _

/-! ## Templates -/

/-- The characters that only labels and files have. -/
def reserved : List Char := ['_', 'y', ':', '\n', '\r']

/-- An instruction without its label, before its placeholders are replaced. -/
structure Template (text : Text) : Prop where
  plain : ∀ c ∈ text, c ∉ reserved
  fixed : Fixed (opcodeOf text)

instance (text : Text) : Decidable (Template text) :=
  decidable_of_iff ((∀ c ∈ text, c ∉ reserved) ∧ Fixed (opcodeOf text))
    ⟨fun ⟨plain, isFixed⟩ => ⟨plain, isFixed⟩, fun template => ⟨template.plain, template.fixed⟩⟩

namespace Template

variable {text : Text} {fill : Text → Text}

/-- The operands are filled in behind the opcode. -/
theorem fill_eq (template : Template text) (filling : Filling fill) :
    fill text = opcodeOf text ∧ operandsOf text = [] ∨
      ∃ operands, fill text = opcodeOf text ++ ' ' :: operands ∧
        fill (operandsOf text) = ' ' :: operands := by
  have parts := opcode_append_operands text
  have nothing : fill [] = [] := filling.fixed [] (by decide)
  rcases operandsOf_cases text with none | ⟨operands, isOperands⟩
  · left
    rw [none, List.append_nil] at parts
    refine ⟨?_, none⟩
    rw [← filling.fixed _ template.fixed, parts]
  · right
    have blank := filling.parts ' ' (by decide) [] operands
    rw [List.nil_append, nothing, List.nil_append] at blank
    refine ⟨fill operands, ?_, by rw [isOperands, blank]⟩
    rw [isOperands] at parts
    calc
      fill text = fill (opcodeOf text ++ ' ' :: operands) := by rw [parts]
      _ = fill (opcodeOf text) ++ ' ' :: fill operands := filling.parts ' ' (by decide) _ _
      _ = opcodeOf text ++ ' ' :: fill operands := by rw [filling.fixed _ template.fixed]

theorem opcodeOf_fill (template : Template text) (filling : Filling fill) :
    opcodeOf (fill text) = opcodeOf text := by
  rcases template.fill_eq filling with ⟨same, none⟩ | ⟨operands, same, _⟩
  · have parts := opcode_append_operands text
    rw [none, List.append_nil] at parts
    exact congrArg opcodeOf (same.trans parts)
  · rw [same, opcodeOf_append_cons (blank_notMem_opcodeOf text)]

/-- An instruction with operands keeps the blank in front of them. -/
theorem blank_mem_fill (template : Template text) (filling : Filling fill) (blank : ' ' ∈ text) :
    ' ' ∈ fill text := by
  rcases template.fill_eq filling with ⟨_, none⟩ | ⟨operands, same, _⟩
  · have parts := opcode_append_operands text
    rw [none, List.append_nil] at parts
    rw [← parts] at blank
    exact absurd blank (blank_notMem_opcodeOf text)
  · rw [same]
    simp

theorem plain_fill (template : Template text) (filling : Filling fill) :
    ∀ c ∈ fill text, c ∉ reserved := by
  intro c mem
  have values : ∀ c ∈ valueChars, c ∉ reserved := by decide
  exact (filling.chars text c mem).elim (template.plain c) (values c)

theorem length_fill_le (filling : Filling fill) (text : Text) :
    (fill text).length ≤ weightOf text :=
  (length_le_weightOf _).trans (filling.light text)

end Template

end Difftest.Fuzzer
