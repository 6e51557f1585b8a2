import Difftest.Text.Line
import Mathlib.Data.List.DropRight

/-!
# Columns and substitution

Padding to a column, cutting trailing blanks, splitting and replacing, as a scripting
language does on strings.
-/

namespace Difftest.Text

/-! ## Columns -/

/-- `'{:<width}'.format(text)`: blanks behind the text up to the width. -/
def ljust (width : Nat) (text : Text) : Text :=
  text ++ List.replicate (width - text.length) ' '

/-- `text.rstrip(' ')`: the text without the blanks at its end. -/
def rstrip (text : Text) : Text := text.rdropWhile (· = ' ')

theorem ljust_eq_self {width : Nat} {text : Text} (long : width ≤ text.length) :
    ljust width text = text := by
  rw [ljust, Nat.sub_eq_zero_of_le long, List.replicate_zero, List.append_nil]

theorem le_length_ljust (width : Nat) (text : Text) : width ≤ (ljust width text).length := by
  rw [ljust, List.length_append, List.length_replicate]
  omega

theorem length_ljust {width : Nat} {text : Text} (short : text.length ≤ width) :
    (ljust width text).length = width := by
  rw [ljust, List.length_append, List.length_replicate]
  omega

/-- A column in front is not padded. -/
theorem ljust_append {column : Text} {width : Nat} (length : column.length = width) (more : Nat)
    (text : Text) : ljust (width + more) (column ++ text) = column ++ ljust more text := by
  have same : width + more - (width + text.length) = more - text.length := by omega
  rw [ljust, ljust, List.length_append, length, same, List.append_assoc]

theorem rstrip_append_blanks (text : Text) (n : Nat) :
    rstrip (text ++ List.replicate n ' ') = rstrip text := by
  induction n with
  | zero => rw [List.replicate_zero, List.append_nil]
  | succ n ih =>
      rw [List.replicate_succ', ← List.append_assoc, rstrip,
        List.rdropWhile_concat_pos _ _ _ (by decide)]
      exact ih

@[simp]
theorem rstrip_ljust (width : Nat) (text : Text) : rstrip (ljust width text) = rstrip text :=
  rstrip_append_blanks text _

/-- A text is its stripped part and blanks. -/
theorem exists_rstrip_append (text : Text) :
    ∃ n, text = rstrip text ++ List.replicate n ' ' := by
  refine ⟨(text.rtakeWhile (· = ' ')).length, ?_⟩
  have blanks : text.rtakeWhile (· = ' ') =
      List.replicate (text.rtakeWhile (· = ' ')).length ' ' := by
    apply List.eq_replicate_of_mem
    intro c mem
    have blank := List.mem_rtakeWhile_imp mem
    exact of_decide_eq_true blank
  rw [← blanks]
  exact List.rdropWhile_append_rtakeWhile.symm

/-- Cutting behind the stripped part loses only blanks. -/
theorem rstrip_take {text : Text} {width : Nat} (short : (rstrip text).length ≤ width) :
    rstrip (text.take width) = rstrip text := by
  obtain ⟨n, parts⟩ := exists_rstrip_append text
  calc
    rstrip (text.take width) = rstrip ((rstrip text ++ List.replicate n ' ').take width) := by
      rw [← parts]
    _ = rstrip (rstrip text ++ List.replicate (min (width - (rstrip text).length) n) ' ') := by
      rw [List.take_append, List.take_of_length_le short, List.take_replicate]
    _ = rstrip (rstrip text) := rstrip_append_blanks _ _
    _ = rstrip text := List.rdropWhile_idempotent _ _

/-! ## Searching -/

/-- `needle in text`. -/
def contains (needle text : Text) : Bool := decide (needle <:+: text)

/-- An occurrence does not start in a text without its first character. -/
theorem contains_append_of_head {c : Char} {needle front : Text} (text : Text)
    (absent : c ∉ front) : contains (c :: needle) (front ++ text) = contains (c :: needle) text := by
  induction front with
  | nil => rfl
  | cons first front ih =>
      rw [List.mem_cons, not_or] at absent
      rw [← ih absent.2, contains, contains, List.cons_append, decide_eq_decide,
        List.infix_cons_iff]
      apply or_iff_right
      intro start
      exact absent.1 (List.cons_prefix_cons.mp start).1

/-- An occurrence does not end in a text without its last character. -/
theorem contains_append_of_last {c : Char} {needle back : Text} (text : Text)
    (absent : c ∉ back) : contains (needle ++ [c]) (text ++ back) = contains (needle ++ [c]) text := by
  have absent' : c ∉ back.reverse := fun mem => absent (List.mem_reverse.mp mem)
  have reversed := @contains_append_of_head c needle.reverse back.reverse text.reverse absent'
  rw [contains, contains, decide_eq_decide, ← List.reverse_append, ← List.reverse_concat,
    List.reverse_infix, List.reverse_infix] at reversed
  rw [contains, contains, decide_eq_decide]
  exact reversed

/-- A start of a text does not reach over a character that it does not have. -/
theorem prefix_append_cons {c : Char} {needle : Text} (absent : c ∉ needle) (front back : Text) :
    needle <+: front ++ c :: back ↔ needle <+: front := by
  constructor
  · intro start
    have reach : front ++ [c] <+: front ++ c :: back := by
      rw [List.prefix_append_right_inj]
      exact ⟨back, rfl⟩
    rcases List.prefix_or_prefix_of_prefix start reach with short | long
    · rcases List.prefix_concat_iff.mp short with whole | inside
      · exact absurd (whole ▸ List.mem_concat_self) absent
      · exact inside
    · exact absurd (long.subset List.mem_concat_self) absent
  · exact fun start => start.trans (List.prefix_append front _)

/-- An occurrence lies on one side of a character that it does not have. -/
theorem contains_append_cons {c : Char} {needle : Text} (absent : c ∉ needle)
    (front back : Text) :
    contains needle (front ++ c :: back) = (contains needle front || contains needle back) := by
  have sides : needle <:+: front ++ c :: back ↔ needle <:+: front ∨ needle <:+: back := by
    induction front with
    | nil =>
        rw [List.nil_append, List.infix_cons_iff, List.infix_nil]
        have start := prefix_append_cons absent [] back
        rw [List.nil_append, List.prefix_nil] at start
        rw [start]
    | cons first front ih =>
        have start := prefix_append_cons absent (first :: front) back
        rw [List.cons_append] at start ⊢
        rw [List.infix_cons_iff, List.infix_cons_iff, ih, start, or_assoc]
  rw [contains, contains, contains, ← Bool.decide_or, decide_eq_decide]
  exact sides

/-- An occurrence that starts in a text reaches its characters in their places. -/
theorem not_prefix_drop {c : Char} {plain : Text} (absent : c ∉ plain) (lead more rest : Text)
    {k : Nat} (small : k + lead.length < plain.length) :
    ¬ lead ++ c :: more <+: (plain ++ rest).drop k := by
  rintro ⟨behind, parts⟩
  have inside : plain[k + lead.length]? = some c := by
    calc
      plain[k + lead.length]? = ((plain ++ rest).drop k)[lead.length]? := by
        rw [List.getElem?_drop, List.getElem?_append_left small]
      _ = (lead ++ c :: more ++ behind)[lead.length]? := by rw [parts]
      _ = some c := by
        rw [List.append_assoc, List.getElem?_append_right le_rfl, Nat.sub_self]
        rfl
  exact absent (List.mem_of_getElem? inside)

/-! ## Splitting and replacing -/

/-- The scan of `text.split(separator)` after the given number of characters of the last
separator. -/
def splitFrom (separator : Text) : Nat → Text → List Text
  | _, [] => [[]]
  | skip + 1, _ :: rest => splitFrom separator skip rest
  | 0, c :: rest =>
      if separator <+: c :: rest then [] :: splitFrom separator (separator.length - 1) rest
      else
        match splitFrom separator 0 rest with
        | [] => [[c]]
        | first :: others => (c :: first) :: others

/-- `text.split(separator)`, for a separator that is not empty. -/
def split (separator text : Text) : List Text := splitFrom separator 0 text

/-- The scan of `text.replace(old, new)` after the given number of characters of the last
occurrence. -/
def replaceFrom (old new : Text) : Nat → Text → Text
  | _, [] => []
  | skip + 1, _ :: rest => replaceFrom old new skip rest
  | 0, c :: rest =>
      if old <+: c :: rest then new ++ replaceFrom old new (old.length - 1) rest
      else c :: replaceFrom old new 0 rest

/-- `text.replace(old, new)`, for a text to be replaced that is not empty. -/
def replace (old new text : Text) : Text := replaceFrom old new 0 text

theorem splitFrom_ne_nil (separator : Text) (skip : Nat) (text : Text) :
    splitFrom separator skip text ≠ [] := by
  induction text generalizing skip with
  | nil => cases skip <;> exact List.cons_ne_nil _ _
  | cons c rest ih =>
      cases skip with
      | succ skip => exact ih skip
      | zero =>
          rw [splitFrom]
          split
          · exact List.cons_ne_nil _ _
          · split
            · exact List.cons_ne_nil _ _
            · exact List.cons_ne_nil _ _

theorem splitFrom_length_append (separator skipped rest : Text) :
    splitFrom separator skipped.length (skipped ++ rest) = splitFrom separator 0 rest := by
  induction skipped with
  | nil => rfl
  | cons c skipped ih => exact ih

/-- The text before the first separator. -/
theorem split_append {separator front rest : Text}
    (absent : ∀ k < front.length, ¬ separator <+: (front ++ rest).drop k) :
    split separator (front ++ rest) = (split separator rest).modifyHead (front ++ ·) := by
  rw [split, split]
  induction front with
  | nil =>
      cases parts : splitFrom separator 0 rest with
      | nil => rw [List.nil_append, parts, List.modifyHead]
      | cons first others => rw [List.nil_append, parts, List.modifyHead, List.nil_append]
  | cons c front ih =>
      have start : ¬ separator <+: c :: (front ++ rest) := absent 0 (Nat.succ_pos _)
      have later := ih fun k small => absent (k + 1) (Nat.succ_lt_succ small)
      rw [List.cons_append, splitFrom, if_neg start, later]
      cases parts : splitFrom separator 0 rest with
      | nil => exact absurd parts (splitFrom_ne_nil separator 0 rest)
      | cons first others => rfl

/-- A separator starts a new piece. -/
theorem split_self_append {separator : Text} (nonempty : separator ≠ []) (rest : Text) :
    split separator (separator ++ rest) = [] :: split separator rest := by
  cases separator with
  | nil => exact absurd rfl nonempty
  | cons c separator =>
      have start : c :: separator <+: c :: (separator ++ rest) := List.prefix_append _ rest
      rw [split, List.cons_append, splitFrom, if_pos start, List.length_cons,
        Nat.add_sub_cancel, splitFrom_length_append]
      rfl

/-- A text without the separator is one piece. -/
theorem split_of_contains {separator text : Text} (absent : contains separator text = false) :
    split separator text = [text] := by
  have pieces := @split_append separator text [] (by
    intro k _ start
    rw [List.append_nil] at start
    exact of_decide_eq_false absent (start.isInfix.trans (List.drop_suffix k text).isInfix))
  rw [List.append_nil] at pieces
  rw [pieces, split, splitFrom, List.modifyHead, List.append_nil]

theorem replaceFrom_length_append (old new skipped rest : Text) :
    replaceFrom old new skipped.length (skipped ++ rest) = replaceFrom old new 0 rest := by
  induction skipped with
  | nil => rfl
  | cons c skipped ih => exact ih

/-- The text before the first occurrence stays. -/
theorem replace_append {old front rest : Text} (new : Text)
    (absent : ∀ k < front.length, ¬ old <+: (front ++ rest).drop k) :
    replace old new (front ++ rest) = front ++ replace old new rest := by
  rw [replace, replace]
  induction front with
  | nil => rfl
  | cons c front ih =>
      have start : ¬ old <+: c :: (front ++ rest) := absent 0 (Nat.succ_pos _)
      have later := ih fun k small => absent (k + 1) (Nat.succ_lt_succ small)
      rw [List.cons_append, replaceFrom, if_neg start, later]
      rfl

/-- An occurrence is replaced. -/
theorem replace_self_append {old : Text} (nonempty : old ≠ []) (new rest : Text) :
    replace old new (old ++ rest) = new ++ replace old new rest := by
  cases old with
  | nil => exact absurd rfl nonempty
  | cons c old =>
      have start : c :: old <+: c :: (old ++ rest) := List.prefix_append _ rest
      rw [replace, List.cons_append, replaceFrom, if_pos start, List.length_cons,
        Nat.add_sub_cancel, replaceFrom_length_append]
      rfl

/-- A text without the first character of what is replaced stays. -/
theorem replace_of_notMem {c : Char} {old text : Text} (new : Text) (absent : c ∉ text) :
    replace (c :: old) new text = text := by
  have stays := @replace_append (c :: old) text [] new (by
    intro k _ start
    rw [List.append_nil] at start
    exact absent (List.mem_of_mem_drop (start.subset List.mem_cons_self)))
  rw [List.append_nil] at stays
  exact stays.trans (List.append_nil text)

/-- A text without what is replaced stays. -/
theorem replace_of_contains {old text : Text} (new : Text) (absent : contains old text = false) :
    replace old new text = text := by
  have stays := @replace_append old text [] new (by
    intro k _ start
    rw [List.append_nil] at start
    exact of_decide_eq_false absent (start.isInfix.trans (List.drop_suffix k text).isInfix))
  rw [List.append_nil] at stays
  exact stays.trans (List.append_nil text)

theorem replaceFrom_append_cons {c : Char} {old : Text} (absent : c ∉ old) (nonempty : old ≠ [])
    (new front back : Text) {skip : Nat} (short : skip ≤ front.length) :
    replaceFrom old new skip (front ++ c :: back) =
      replaceFrom old new skip front ++ c :: replaceFrom old new 0 back := by
  induction front generalizing skip with
  | nil =>
      obtain rfl := Nat.le_zero.mp short
      have start := prefix_append_cons absent [] back
      rw [List.nil_append, List.prefix_nil] at start
      have stays : replaceFrom old new 0 (c :: back) = c :: replaceFrom old new 0 back := by
        rw [replaceFrom, if_neg fun isStart => nonempty (start.mp isStart)]
      exact stays
  | cons first front ih =>
      cases skip with
      | succ skip => exact ih (Nat.le_of_succ_le_succ short)
      | zero =>
          have start := prefix_append_cons absent (first :: front) back
          rw [List.cons_append] at start ⊢
          rw [replaceFrom, replaceFrom]
          by_cases isStart : old <+: first :: front
          · have length : old.length ≤ front.length + 1 := isStart.length_le
            rw [if_pos (start.mpr isStart), if_pos isStart, ih (by omega), List.append_assoc]
          · rw [if_neg (isStart ∘ start.mp), if_neg isStart, ih (Nat.zero_le _)]
            rfl

/-- Replacing works on both sides of a character that is not replaced. -/
theorem replace_append_cons {c : Char} {old : Text} (absent : c ∉ old) (nonempty : old ≠ [])
    (new front back : Text) :
    replace old new (front ++ c :: back) = replace old new front ++ c :: replace old new back :=
  replaceFrom_append_cons absent nonempty new front back (Nat.zero_le _)

/-- Replacing only brings in the characters of the new text. -/
theorem mem_replace {old new text : Text} {c : Char} (mem : c ∈ replace old new text) :
    c ∈ text ∨ c ∈ new := by
  have inside : ∀ skip, c ∈ replaceFrom old new skip text → c ∈ text ∨ c ∈ new := by
    clear mem
    induction text with
    | nil =>
        intro skip mem
        cases skip <;> cases mem
    | cons first text ih =>
        intro skip mem
        cases skip with
        | succ skip => exact (ih skip mem).imp_left (List.mem_cons_of_mem first)
        | zero =>
            rw [replaceFrom] at mem
            split at mem
            · rcases List.mem_append.mp mem with isNew | later
              · exact Or.inr isNew
              · exact (ih _ later).imp_left (List.mem_cons_of_mem first)
            · rcases List.mem_cons.mp mem with rfl | later
              · exact Or.inl List.mem_cons_self
              · exact (ih 0 later).imp_left (List.mem_cons_of_mem first)
  exact inside 0 mem

/-- Replacing by a text of at most the same weight does not add weight. -/
theorem sum_replace_le (weight : Char → Nat) {old new : Text}
    (light : (new.map weight).sum ≤ (old.map weight).sum) (text : Text) :
    ((replace old new text).map weight).sum ≤ (text.map weight).sum := by
  have inside : ∀ skip, ((replaceFrom old new skip text).map weight).sum ≤
      ((text.drop skip).map weight).sum := by
    induction text with
    | nil =>
        intro skip
        cases skip <;> exact Nat.zero_le _
    | cons first text inductionHypothesis =>
        intro skip
        cases skip with
        | succ skip => exact inductionHypothesis skip
        | zero =>
            have rest := inductionHypothesis (old.length - 1)
            rw [replaceFrom, List.drop_zero]
            by_cases start : old <+: first :: text
            · rcases start with ⟨after, parts⟩
              have behind : ((text.drop (old.length - 1)).map weight).sum ≤
                  (after.map weight).sum := by
                cases old with
                | nil =>
                    rw [List.nil_append] at parts
                    simp [parts]
                | cons head old =>
                    rw [List.cons_append] at parts
                    rw [← (List.cons.inj parts).2, List.length_cons, Nat.add_sub_cancel,
                      List.drop_left]
              rw [if_pos ⟨after, parts⟩, ← parts, List.map_append, List.map_append,
                List.sum_append, List.sum_append]
              exact Nat.add_le_add light (rest.trans behind)
            · have later := inductionHypothesis 0
              rw [if_neg start, List.map_cons, List.map_cons, List.sum_cons, List.sum_cons]
              exact Nat.add_le_add_left later _
  have whole := inside 0
  rwa [List.drop_zero] at whole

end Difftest.Text
