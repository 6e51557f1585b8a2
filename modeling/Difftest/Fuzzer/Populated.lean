import Difftest.Fuzzer.Closed

/-!
# Filled in words

Filling in a draft gives a word whose labels exist and lie ahead.  All labels of a word are the
same one, because the placeholder is replaced by one drawn value, and the value of a word that
transfers control is a label behind the word.
-/

namespace Difftest.Fuzzer

open Difftest.Text

/-! ## One instruction -/

theorem contains_of_notMem {c : Char} {needle text : Text} (needs : c ∈ needle) (absent : c ∉ text) :
    contains needle text = false := by
  rw [contains, decide_eq_false_iff_not]
  exact fun found => absent (found.subset needs)

/-- Replace the placeholder of the label, if the word has one. -/
def finish : Option Text → Text → Text
  | none => id
  | some value => replace symbolName value

theorem finish_of_notMem {text : Text} (noY : 'y' ∉ text) (value : Option Text) :
    finish value text = text := by
  cases value with
  | none => rfl
  | some value => exact replace_of_contains value (contains_of_notMem (by decide) noY)

/-- A placeholder at the end is replaced. -/
theorem replace_symbol {front : Text} (noY : 'y' ∉ front) (value : Text) :
    replace symbolName value (front ++ symbolName) = front ++ value := by
  -- the second letter of the placeholder stands nowhere in front of it
  have noY' : 'y' ∉ front ++ ['s'] := by
    rw [List.mem_append, not_or]
    exact ⟨noY, by decide⟩
  have absent : ∀ k < front.length, ¬ symbolName <+: (front ++ symbolName).drop k := by
    intro k small
    have inside : k + 1 < (front ++ ['s']).length := by
      rw [List.length_append]
      exact Nat.add_lt_add_right small 1
    have start := @not_prefix_drop 'y' _ noY' ['s'] "mbol".toList "ymbol".toList k inside
    rwa [List.append_assoc] at start
  have nothing : replace symbolName value [] = [] := rfl
  have only := @replace_self_append symbolName (by decide) value []
  rw [nothing, List.append_nil, List.append_nil] at only
  rw [replace_append _ absent, only]

/-- What an instruction becomes: an item with its text. -/
structure Fills (part : Part) (tpe : WordType) (label maxLabel : Nat) (inst text : Text)
    (item : Item) : Prop where
  spells : item.Spells part text
  sound : item.Sound
  transfers : item.Transfers → opcodeOf inst ∈ transferOpcodes
  bounded : ∀ n ∈ item.target, n ≤ maxLabel
  ahead : tpe ∉ [WordType.memR, WordType.memW] → ∀ n ∈ item.target, label < n
  /-- A label operand of a word that does not access memory becomes a label. -/
  named : tpe ∉ [WordType.memR, WordType.memW] → LabelTemplate inst → item.target ≠ none

/-- Numbers do not look like labels or lines. -/
theorem plain_str (n : Nat) : ∀ c ∈ str n, c ∉ [':', '\n', '\r'] := by
  intro c mem isListed
  have listed : ∀ c ∈ [':', '\n', '\r'], (digitValue 10 c).isSome = false := by decide
  have digit := digitValue_of_mem_str mem
  rw [listed c isListed] at digit
  cases digit

section Instruction

variable {part : Part} {tpe : WordType} {label maxLabel : Nat} {inst : Text} {fill : Text → Text}

/-- The characters of a template with its operands filled in. -/
theorem Template.notMem_fill {text : Text} (template : Template text) (filling : Filling fill)
    {c : Char} (isReserved : c ∈ reserved) : c ∉ fill text :=
  fun mem => template.plain_fill filling c mem isReserved

theorem Template.chars_fill {text : Text} (template : Template text) (filling : Filling fill) :
    ∀ c ∈ fill text, c ∉ [':', '\n', '\r'] := by
  have listed : ∀ c ∈ [':', '\n', '\r'], c ∈ reserved := by decide
  exact fun c mem isListed => template.notMem_fill filling (listed c isListed) mem

/-- An instruction without a label operand. -/
theorem PlainTemplate.fills (plain : PlainTemplate inst) (filling : Filling fill)
    (value : Option Text) :
    Fills part tpe label maxLabel inst (finish value (fill inst)) ⟨fill inst, none⟩ := by
  rcases mark_eq part with ⟨c, mark, _, _⟩
  have noMark : '_' ∉ fill inst := plain.template.notMem_fill filling (by decide)
  have clear : Item.Clear part ⟨fill inst, none⟩ :=
    contains_of_notMem (by rw [mark]; exact List.mem_cons_self) noMark
  rw [finish_of_notMem (plain.template.notMem_fill filling (by decide))]
  constructor
  case spells => exact ⟨clear, rfl⟩
  case sound =>
    constructor
    · exact plain.template.chars_fill filling
    · intro _
      exact (Template.length_fill_le filling inst).trans plain.short
    · intro isLabel
      exact absurd rfl isLabel
  case transfers =>
    intro transfer
    rwa [Item.Transfers, plain.template.opcodeOf_fill filling] at transfer
  case bounded =>
    intro m isLabel
    cases isLabel
  case ahead =>
    intro _ m isLabel
    cases isLabel
  case named =>
    intro _ isLabel
    have isY : 'y' ∈ inst := by
      rw [isLabel.parts]
      exact List.mem_append_right _ (by decide)
    exact absurd (by decide) (plain.template.plain 'y' isY)

/-- The operands in front of a label are filled in, and the label behind them. -/
theorem LabelTemplate.finish_fill (isLabel : LabelTemplate inst) (filling : Filling fill)
    (value : Text) :
    finish (some value) (fill inst) = fill (stemOf inst) ++ (", ".toList ++ value) := by
  have nothing : fill [] = [] := filling.fixed [] (by decide)
  have symbol : fill symbolName = symbolName := filling.fixed symbolName (by decide)
  have blank := filling.parts ' ' (by decide) [] symbolName
  rw [List.nil_append, nothing, List.nil_append, symbol] at blank
  have filled : fill inst = fill (stemOf inst) ++ ", ".toList ++ symbolName := by
    have comma := filling.parts ',' (by decide) (stemOf inst) (' ' :: symbolName)
    rw [blank] at comma
    rw [List.append_assoc]
    exact (congrArg fill isLabel.parts).trans comma
  have noY : 'y' ∉ fill (stemOf inst) ++ ", ".toList := by
    rw [List.mem_append, not_or]
    exact ⟨isLabel.template.notMem_fill filling (by decide), by decide⟩
  rw [finish, filled, replace_symbol noY, List.append_assoc]

/-- The opcode in front of a label. -/
theorem LabelTemplate.opcodeOf_eq (isLabel : LabelTemplate inst) :
    opcodeOf inst = opcodeOf (stemOf inst) :=
  (congrArg opcodeOf isLabel.parts).trans (opcodeOf_append isLabel.blank _)

/-- An instruction with a label operand that becomes a label. -/
theorem LabelTemplate.fills_label (isLabel : LabelTemplate inst) (filling : Filling fill) {n : Nat}
    (bound : n ≤ maxLabel) (ahead : tpe ∉ [WordType.memR, WordType.memW] → label < n) :
    Fills part tpe label maxLabel inst (finish (some (part.mark ++ str n)) (fill inst))
      ⟨fill (stemOf inst), some n⟩ := by
  have noMark : '_' ∉ fill (stemOf inst) := isLabel.template.notMem_fill filling (by decide)
  have short : (fill (stemOf inst)).length ≤ 30 :=
    (Template.length_fill_le filling _).trans isLabel.short
  rw [isLabel.finish_fill filling]
  constructor
  case spells => exact ⟨noMark, rfl⟩
  case sound =>
    constructor
    · exact isLabel.template.chars_fill filling
    · intro isNone
      cases isNone
    · intro _
      exact ⟨short.trans (by decide), isLabel.template.blank_mem_fill filling isLabel.blank⟩
  case transfers =>
    intro transfer
    rwa [Item.Transfers, isLabel.template.opcodeOf_fill filling, ← isLabel.opcodeOf_eq] at transfer
  case bounded =>
    rintro m ⟨⟩
    exact bound
  case ahead =>
    rintro notMemory m ⟨⟩
    exact ahead notMemory
  case named => exact fun _ _ => Option.some_ne_none n

/-- An instruction with a label operand that becomes a place in the memory sections. -/
theorem LabelTemplate.fills_data (isLabel : LabelTemplate inst) (filling : Filling fill) {n k : Nat}
    (memory : tpe ∈ [WordType.memR, WordType.memW]) (few : n ≤ 5) (near : k ≤ 27) :
    Fills part tpe label maxLabel inst
      (finish (some ("d_".toList ++ str n ++ ['_'] ++ str k)) (fill inst))
      ⟨fill (stemOf inst) ++ (", ".toList ++ ("d_".toList ++ str n ++ ['_'] ++ str k)), none⟩ := by
  rcases mark_eq part with ⟨c, mark, _, notMark⟩
  have digits : ∀ m, ∀ d ∈ str m, (digitValue 10 d).isSome := fun m d => digitValue_of_mem_str
  have noMark : '_' ∉ fill (stemOf inst) ++ ", d".toList := by
    rw [List.mem_append, not_or]
    exact ⟨isLabel.template.notMem_fill filling (by decide), by decide⟩
  have clear : contains part.mark (fill (stemOf inst) ++ (", ".toList ++ ("d_".toList ++ str n ++
      ['_'] ++ str k))) = false := by
    have notDigit : ∀ m, c ∉ str m := by
      intro m mem
      have digit := digits m c mem
      cases part <;> cases mark <;> cases digit
    have after : c ∉ '_' :: (str n ++ '_' :: str k) := by
      rw [List.mem_cons, List.mem_append, List.mem_cons, not_or, not_or, not_or]
      exact ⟨notMark, notDigit n, notMark, notDigit k⟩
    have parts : fill (stemOf inst) ++ (", ".toList ++ ("d_".toList ++ str n ++ ['_'] ++ str k)) =
        fill (stemOf inst) ++ ", d".toList ++ '_' :: (str n ++ '_' :: str k) := by
      simp
    rw [parts, mark, contains_append_of_head _ noMark]
    exact contains_of_notMem (List.mem_cons_of_mem _ List.mem_cons_self) after
  have short : (fill (stemOf inst)).length ≤ 30 :=
    (Template.length_fill_le filling _).trans isLabel.short
  rw [isLabel.finish_fill filling]
  constructor
  case spells => exact ⟨clear, rfl⟩
  case sound =>
    constructor
    · intro d mem isListed
      rcases List.mem_append.mp mem with inStem | inValue
      · exact isLabel.template.chars_fill filling d inStem isListed
      · rcases List.mem_append.mp inValue with inComma | inValue
        · exact absurd isListed ((by decide : ∀ d ∈ ", ".toList, d ∉ [':', '\n', '\r']) d inComma)
        rcases List.mem_append.mp inValue with inFront | inNumber
        · rcases List.mem_append.mp inFront with inFront | inLine
          · rcases List.mem_append.mp inFront with inMark | inNumber
            · exact absurd isListed ((by decide : ∀ d ∈ "d_".toList, d ∉ [':', '\n', '\r']) d inMark)
            · exact plain_str n d inNumber isListed
          · exact absurd isListed ((by decide : ∀ d ∈ ['_'], d ∉ [':', '\n', '\r']) d inLine)
        · exact plain_str k d inNumber isListed
    · intro _
      have first : (str n).length ≤ 3 := length_str_le (by omega)
      have second : (str k).length ≤ 3 := length_str_le (by omega)
      simp only [List.length_append]
      simp
      omega
    · exact fun isLabel => absurd rfl isLabel
  case transfers =>
    intro transfer
    rwa [Item.Transfers, opcodeOf_append (isLabel.template.blank_mem_fill filling isLabel.blank),
      isLabel.template.opcodeOf_fill filling, ← isLabel.opcodeOf_eq] at transfer
  case bounded =>
    intro m isLabel
    cases isLabel
  case ahead =>
    intro _ m isLabel
    cases isLabel
  case named => exact fun notMemory => absurd memory notMemory

end Instruction

/-! ## One word -/

section Values

variable {part : Part} {word : Word} {maxLabel : Nat} {fill : Text → Text}

/-- The drawn value of the label operand, if the word has one. -/
def Finishes (part : Part) (word : Word) (maxLabel : Nat) (value : Option Text) : Prop :=
  match value with
  | none => word.symbols = []
  | some value => word.symbols = [symbolName] ∧ SymbolValue part word.tpe word.label maxLabel value

/-- Every instruction of a draft becomes an item. -/
theorem Word.Drafted.fills (drafted : word.Drafted) (filling : Filling fill) {value : Option Text}
    (finishes : Finishes part word maxLabel value) :
    ∀ inst ∈ word.insts, ∃ item,
      Fills part word.tpe word.label maxLabel inst (finish value (fill inst)) item := by
  intro inst mem
  rcases drafted.drafts with ⟨form, drafts⟩
  rcases drafts.insts inst mem with plain | ⟨symbols, isLabel⟩
  · exact ⟨_, plain.fills filling value⟩
  · cases value with
    | none =>
        have none : word.symbols = [] := finishes
        rw [none] at symbols
        cases symbols
    | some value =>
        rcases finishes.2 with ⟨bound, ahead⟩ | ⟨memory, few, near⟩
        · exact ⟨_, isLabel.fills_label filling bound ahead⟩
        · exact ⟨_, isLabel.fills_data filling memory few near⟩

/-- The items of a filled in draft name existing labels, and labels ahead if it transfers
control. -/
theorem Word.Drafted.ahead (drafted : word.Drafted) {value : Option Text} {items : List Item}
    (fills : List.Forall₂ (fun inst => Fills part word.tpe word.label maxLabel inst
      (finish value (fill inst))) word.insts items) :
    LabelsAhead word.label items ∧ Bounded maxLabel items := by
  rcases drafted.drafts with ⟨form, drafts⟩
  have jumps : (∃ item ∈ items, item.Transfers) →
      word.tpe ∉ [WordType.memR, WordType.memW] ∧ ∃ inst ∈ word.insts, LabelTemplate inst := by
    rintro ⟨item, isItem, transfer⟩
    rcases exists_of_forall₂ fills isItem with ⟨inst, isInst, filled⟩
    have jump := drafts.jumps ⟨inst, isInst, filled.transfers transfer⟩
    exact ⟨jump.1, jump.2.2⟩
  constructor
  · constructor
    case sound =>
      intro item isItem
      rcases exists_of_forall₂ fills isItem with ⟨inst, _, filled⟩
      exact filled.sound
    case named =>
      intro transfer
      rcases jumps transfer with ⟨notMemory, inst, isInst, isLabel⟩
      rcases exists_right_of_forall₂ fills isInst with ⟨item, isItem, filled⟩
      exact ⟨item, isItem, filled.named notMemory isLabel⟩
    case ahead =>
      intro transfer item isItem
      rcases exists_of_forall₂ fills isItem with ⟨inst, _, filled⟩
      exact filled.ahead (jumps transfer).1
  · intro item isItem
    rcases exists_of_forall₂ fills isItem with ⟨inst, _, filled⟩
    exact filled.bounded

/-- A draft that is filled in is closed. -/
theorem Word.Drafted.populate (drafted : word.Drafted) (small : word.label < 10 ^ 3)
    {opvals : Dict Text Text} {value : Option Text} (filling : Filling fill)
    (values : ∀ inst, Word.popInst opvals inst = finish value (fill inst))
    (finishes : Finishes part word maxLabel value) {filled : Word}
    (populated : word.populate opvals part = some filled) :
    filled.label = word.label ∧ filled.insts = word.insts ∧ filled.Closed part maxLabel := by
  rcases exists_forall₂ (drafted.fills filling finishes) with ⟨items, fills⟩
  rw [Word.populate] at populated
  split at populated
  · split at populated
    · cases populated
    · rename_i isInsts
      cases populated
      refine ⟨rfl, rfl, items, ⟨?_, (drafted.ahead fills).1, fills.length_eq⟩,
        (drafted.ahead fills).2⟩
      refine ⟨rfl, small, ?_, _, rfl, ?_⟩
      · apply List.ne_nil_of_length_pos
        rw [← fills.length_eq, isInsts]
        exact Nat.succ_pos _
      · rw [List.forall₂_map_right_iff]
        apply fills.flip.imp
        intro item inst filled
        rw [values inst]
        exact filled.spells.ljust 42
  · cases populated

end Values

/-! ## The generator -/

section Populate

variable {part : Part} {word after : Word} {maxLabel : Nat} {gen gen' : Generator}

/-- What is filled in for the label operand. -/
theorem finishes_of_fillIn (drafted : word.Drafted) {opvals opvals' : Dict Text Text}
    (fills : ∀ entry ∈ opvals.entries, FillsIn entry.1 entry.2)
    (returned : Random.Returns (Generator.fillIn id (fun gen _ =>
      (fun symbol => (symbol, gen)) <$> Generator.getSymbol word.tpe word.label maxLabel part)
      word.symbols opvals gen) (opvals', gen')) :
    gen' = gen ∧ ∃ value, Finishes part word maxLabel value ∧
      ∀ inst, Word.popInst opvals' inst = finish value (Word.popInst opvals inst) := by
  rcases drafted.drafts with ⟨form, drafts⟩
  rcases drafts.symbols with isEmpty | isOne
  · have noSymbols : word.symbols = [] := isEmpty
    rw [noSymbols, Generator.fillIn] at returned
    cases Random.returns_pure.mp returned
    exact ⟨rfl, none, noSymbols, fun _ => rfl⟩
  · have oneSymbol : word.symbols = [symbolName] := isOne
    rw [oneSymbol, Generator.fillIn] at returned
    rcases returned.bind with ⟨⟨value, middle⟩, drawn, returned⟩
    rcases drawn.map with ⟨symbol, isSymbol, same⟩
    cases same
    cases Random.returns_pure.mp returned
    refine ⟨rfl, some value, ⟨oneSymbol, getSymbol_returns isSymbol⟩, ?_⟩
    intro inst
    have new : symbolName ∉ opvals.entries.map Prod.fst := by
      intro mem
      rcases List.mem_map.mp mem with ⟨entry, isEntry, isSymbol⟩
      have isName := (fills entry isEntry).isName
      rw [isSymbol] at isName
      exact absurd isName (by decide)
    rw [Word.popInst, Dict.set]
    dsimp only [id]
    rw [Dict.assign_of_notMem new, List.foldl_append]
    rfl

/-- `populate_word` closes a draft. -/
theorem populateWord_drafted (drafted : word.Drafted) (small : word.label < 10 ^ 3)
    (ready : gen.Small)
    (returned : Random.Returns (gen.populateWord word maxLabel part) (after, gen')) :
    after.label = word.label ∧ after.insts = word.insts ∧ after.Closed part maxLabel ∧
      gen'.Small := by
  rcases drafted.drafts with ⟨form, drafts⟩
  rw [Generator.populateWord, drafted.empty, if_neg Bool.false_ne_true] at returned
  rcases returned.bind with ⟨⟨xvals, gen1⟩, isX, returned⟩
  rcases returned.bind with ⟨⟨fvals, gen2⟩, isF, returned⟩
  rcases returned.bind with ⟨⟨ivals, gen3⟩, isI, returned⟩
  rcases returned.bind with ⟨⟨opvals, gen4⟩, isS, returned⟩
  rcases returned.bind with ⟨filled, isFilled, returned⟩
  cases Random.returns_pure.mp returned
  have xregs := fillIn_returns (fun name isName gen value gen' small drawn => by
    have isRegister : name ∈ registerNames := drafts.registers name (List.mem_append_left _ isName)
    split at drawn
    · exact getXregs_returns (by decide) small isRegister drawn
    · split at drawn
      · exact getXregs_returns (by decide) small isRegister drawn
      · exact getXregs_returns (by decide) small isRegister drawn) (List.forall_mem_nil _) ready isX
  have fregs := fillIn_returns (fun name isName gen value gen' small drawn =>
    getFregs_returns small (drafts.registers name (List.mem_append_right _ isName)) drawn)
    xregs.1 xregs.2 isF
  have imms := fillIn_returns (fun imm isImm gen value gen' small drawn =>
    getImm_returns small (drafts.immediates imm isImm) drawn) fregs.1 fregs.2 isI
  rcases finishes_of_fillIn drafted imms.1 isS with ⟨rfl, value, finishes, values⟩
  have closed := drafted.populate small (filling_foldl imms.1) values finishes
    (Random.returns_ofOption.mp isFilled)
  exact ⟨closed.1, closed.2.1, closed.2.2, imms.2⟩

end Populate

end Difftest.Fuzzer
