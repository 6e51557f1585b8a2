import Mathlib.Tactic

/-!
# Numerals as text

Printing a natural number in a base with zero padding, and reading an integer
back the way a scripting language's `int(text, base)` does: surrounding
whitespace, a sign, a base prefix and single underscores between digits are all
accepted.  The main results say that a padded numeral reads back as the number
it was printed from, also when whitespace follows it.
-/

namespace Difftest

/-- Text is the list of its characters. -/
abbrev Text := List Char

namespace Text

instance : LawfulBEq Text := inferInstance

/-- What holds of every character of a text is decided from the text, not from all characters. -/
instance decidableForallMem {p : Char → Prop} [DecidablePred p] (text : List Char) :
    Decidable (∀ c ∈ text, p c) :=
  List.decidableBAll p text

/-! ## Printing -/

/-- `n` in the given base, padded with zeros on the left to `width` digits. -/
def numeral (base width n : Nat) : Text :=
  List.leftpad width '0' (Nat.toDigits base n)

theorem numeral_length {base width n : Nat} (one_lt : 1 < base) (pos : 0 < width)
    (small : n < base ^ width) : (numeral base width n).length = width := by
  have short := (Nat.length_toDigits_le_iff one_lt pos).mpr small
  rw [numeral, List.length_leftpad]
  omega

theorem numeral_ne_nil (base width n : Nat) : numeral base width n ≠ [] := by
  simp [numeral, List.leftpad]

/-- The last digit of a numeral of at least two columns. -/
theorem numeral_succ {base width : Nat} (one_lt : 1 < base) (pos : 0 < width) (n : Nat) :
    numeral base (width + 1) n = numeral base width (n / base) ++ [(n % base).digitChar] := by
  by_cases small : n < base
  · obtain ⟨k, rfl⟩ := Nat.exists_eq_add_of_lt pos
    rw [numeral, numeral, Nat.toDigits_of_lt_base small, Nat.div_eq_of_lt small,
      Nat.mod_eq_of_lt small, Nat.toDigits_of_lt_base (by omega)]
    simp [List.leftpad, List.replicate_succ', Nat.digitChar]
  · rw [numeral, numeral, Nat.toDigits_of_base_le one_lt (by omega)]
    simp only [List.leftpad, List.length_append, List.length_singleton, Nat.add_sub_add_right,
      List.append_assoc]

/-- A numeral in columns: the high part, then the low part. -/
theorem numeral_append {base high low width : Nat} (one_lt : 1 < base) (highWidth : 0 < high)
    (pos : 0 < width) (m n : Nat) (small : n < base ^ width) (columns : high + width = low) :
    numeral base low (m * base ^ width + n) = numeral base high m ++ numeral base width n := by
  subst columns
  induction width, pos using Nat.le_induction generalizing n with
  | base =>
      rw [Nat.succ_eq_add_one, Nat.zero_add, Nat.pow_one] at small
      have single : numeral base 1 n = [n.digitChar] := by
        rw [numeral, Nat.toDigits_of_lt_base small]
        rfl
      rw [Nat.succ_eq_add_one, Nat.zero_add, Nat.pow_one, numeral_succ one_lt highWidth, single,
        Nat.mul_comm m base, Nat.mul_add_div (by omega), Nat.div_eq_of_lt small, Nat.add_zero,
        Nat.mul_add_mod, Nat.mod_eq_of_lt small]
  | succ width pos ih =>
      have shorter : n / base < base ^ width := by
        rw [Nat.div_lt_iff_lt_mul (by omega), ← Nat.pow_succ]
        exact small
      have shape : m * base ^ (width + 1) + n = base * (m * base ^ width) + n := by
        rw [Nat.pow_succ]
        ring
      rw [← Nat.add_assoc, numeral_succ one_lt (by omega), numeral_succ one_lt pos, shape,
        Nat.mul_add_div (by omega), Nat.mul_add_mod, ih _ shorter, List.append_assoc]

/-! ## Reading digits -/

/-- The value of a digit character, when it is a digit of the base. -/
def digitValue (base : Nat) (c : Char) : Option Nat :=
  let value :=
    if '0' ≤ c ∧ c ≤ '9' then c.toNat - '0'.toNat
    else if 'a' ≤ c ∧ c ≤ 'z' then c.toNat - 'a'.toNat + 10
    else if 'A' ≤ c ∧ c ≤ 'Z' then c.toNat - 'A'.toNat + 10
    else base
  if value < base then some value else none

/-- Read the digits after the first one; one underscore may precede a digit. -/
def readDigits (base : Nat) : Nat → Text → Option Nat
  | acc, [] => some acc
  | acc, '_' :: c :: rest =>
      (digitValue base c).bind fun d => readDigits base (acc * base + d) rest
  | acc, c :: rest =>
      (digitValue base c).bind fun d => readDigits base (acc * base + d) rest

/-- A nonempty run of digits. -/
def readNat (base : Nat) : Text → Option Nat
  | [] => none
  | c :: rest => (digitValue base c).bind fun d => readDigits base d rest

theorem digitValue_digitChar {base d : Nat} (base_le : base ≤ 16) (small : d < base) :
    digitValue base d.digitChar = some d := by
  have digits : ∀ e < 16, ∀ b ≤ 16, e < b → digitValue b e.digitChar = some e := by
    decide
  exact digits d (by omega) base base_le small

theorem digitValue_underscore (base : Nat) : digitValue base '_' = none := by
  simp [digitValue]

theorem readDigits_cons (base acc : Nat) {c : Char} (rest : Text) (digit : c ≠ '_') :
    readDigits base acc (c :: rest) =
      (digitValue base c).bind fun d => readDigits base (acc * base + d) rest := by
  rw [readDigits]
  intro d tail clash
  exact absurd clash digit

/-- A digit character of the base is consumed by the digit reader. -/
theorem readDigits_digitChar {base d : Nat} (base_le : base ≤ 16) (small : d < base)
    (acc : Nat) (rest : Text) :
    readDigits base acc (d.digitChar :: rest) = readDigits base (acc * base + d) rest := by
  have value := digitValue_digitChar base_le small
  have digit : d.digitChar ≠ '_' := by
    intro clash
    rw [clash, digitValue_underscore] at value
    cases value
  rw [readDigits_cons base acc rest digit, value, Option.bind_some]

/-- Reading the digits of `n` shifts the accumulator past them and adds `n`. -/
theorem readDigits_toDigits {base : Nat} (one_lt : 1 < base) (base_le : base ≤ 16)
    (n acc : Nat) (rest : Text) :
    readDigits base acc (Nat.toDigits base n ++ rest) =
      readDigits base (acc * base ^ (Nat.toDigits base n).length + n) rest := by
  induction n using Nat.strongRecOn generalizing acc rest with
  | ind n ih =>
      by_cases small : n < base
      · rw [Nat.toDigits_of_lt_base small]
        simpa using readDigits_digitChar base_le small acc rest
      · have smaller : n / base < n := Nat.div_lt_self (by omega) one_lt
        rw [Nat.toDigits_of_base_le one_lt (by omega), List.append_assoc, ih _ smaller,
          List.cons_append, List.nil_append,
          readDigits_digitChar base_le (Nat.mod_lt n (by omega))]
        have value := Nat.div_add_mod n base
        congr 1
        rw [List.length_append, List.length_singleton, Nat.pow_succ, Nat.add_mul]
        nlinarith

/-- Leading zeros do not change what the digit reader computes. -/
theorem readDigits_zeros {base : Nat} (one_lt : 1 < base) (base_le : base ≤ 16)
    (k : Nat) (rest : Text) :
    readDigits base 0 (List.replicate k '0' ++ rest) = readDigits base 0 rest := by
  induction k with
  | zero => rfl
  | succ k ih =>
      have first : readDigits base 0 ('0' :: (List.replicate k '0' ++ rest)) =
          readDigits base (0 * base + 0) (List.replicate k '0' ++ rest) :=
        readDigits_digitChar base_le (show 0 < base by omega) 0 _
      rw [List.replicate_succ, List.cons_append, first]
      simpa using ih

theorem readNat_eq_readDigits {base : Nat} {c : Char} {rest : Text} (digit : c ≠ '_') :
    readNat base (c :: rest) = readDigits base 0 (c :: rest) := by
  rw [readNat, readDigits_cons base 0 rest digit]
  simp

/-! ## Reading integers -/

/-- The whitespace that surrounds a number (ASCII). -/
def isSpace (c : Char) : Bool :=
  c = ' ' || (9 ≤ c.toNat && c.toNat ≤ 13) || (28 ≤ c.toNat && c.toNat ≤ 31)

/-- Remove whitespace at both ends. -/
def strip (text : Text) : Text :=
  ((text.dropWhile isSpace).reverse.dropWhile isSpace).reverse

/-- The letter of the prefix that announces a base (`0x`, `0o`, `0b`). -/
def isBaseMark (base : Nat) (c : Char) : Bool :=
  match base with
  | 16 => c = 'x' || c = 'X'
  | 8 => c = 'o' || c = 'O'
  | 2 => c = 'b' || c = 'B'
  | _ => false

/-- Drop the prefix that announces the base, with an underscore after it. -/
def dropBasePrefix (base : Nat) : Text → Text
  | '0' :: mark :: rest =>
      if isBaseMark base mark then
        match rest with
        | '_' :: digits => digits
        | digits => digits
      else '0' :: mark :: rest
  | text => text

/-- Python's `int(text, base)`; `none` is its `ValueError`. -/
def parseInt (base : Nat) (text : Text) : Option Int :=
  match strip text with
  | '-' :: digits => (readNat base (dropBasePrefix base digits)).map fun n => -(n : Int)
  | '+' :: digits => (readNat base (dropBasePrefix base digits)).map Int.ofNat
  | digits => (readNat base (dropBasePrefix base digits)).map Int.ofNat

theorem not_isSpace_of_digit {base : Nat} {c : Char} (digit : (digitValue base c).isSome) :
    isSpace c = false := by
  by_contra space
  have code : c.toNat = 32 ∨ (9 ≤ c.toNat ∧ c.toNat ≤ 31) := by
    simp only [isSpace, Bool.not_eq_false, Bool.or_eq_true, Bool.and_eq_true,
      decide_eq_true_eq] at space
    rcases space with (blank | control) | separator
    · left; rw [blank]; rfl
    · right; omega
    · right; omega
  have low : c.toNat < 48 := by omega
  have notDigit : ¬ '0' ≤ c := by
    intro le
    have : (48 : Nat) ≤ c.toNat := le
    omega
  have notLower : ¬ 'a' ≤ c := by
    intro le
    have : (97 : Nat) ≤ c.toNat := le
    omega
  have notUpper : ¬ 'A' ≤ c := by
    intro le
    have : (65 : Nat) ≤ c.toNat := le
    omega
  simp [digitValue, notDigit, notLower, notUpper] at digit

theorem not_isBaseMark_of_digit {base : Nat} {c : Char} (digit : (digitValue base c).isSome) :
    isBaseMark base c = false := by
  unfold isBaseMark
  split
  · by_contra mark
    have cases : c = 'x' ∨ c = 'X' := by
      simpa [or_iff_not_imp_left] using mark
    rcases cases with rfl | rfl <;> exact absurd digit (by decide)
  · by_contra mark
    have cases : c = 'o' ∨ c = 'O' := by
      simpa [or_iff_not_imp_left] using mark
    rcases cases with rfl | rfl <;> exact absurd digit (by decide)
  · by_contra mark
    have cases : c = 'b' ∨ c = 'B' := by
      simpa [or_iff_not_imp_left] using mark
    rcases cases with rfl | rfl <;> exact absurd digit (by decide)
  · rfl

theorem strip_append_spaces {text spaces : Text}
    (solid : ∀ c ∈ text, isSpace c = false) (blank : ∀ c ∈ spaces, isSpace c = true) :
    strip (text ++ spaces) = text := by
  have dropBlank : ∀ blanks tail : Text, (∀ c ∈ blanks, isSpace c = true) →
      (blanks ++ tail).dropWhile isSpace = tail.dropWhile isSpace := by
    intro blanks tail all
    induction blanks with
    | nil => rfl
    | cons c blanks ih =>
        rw [List.cons_append, List.dropWhile_cons_of_pos (all c List.mem_cons_self)]
        exact ih fun d mem => all d (List.mem_cons_of_mem c mem)
  have keepSolid : ∀ letters : Text, (∀ c ∈ letters, isSpace c = false) →
      letters.dropWhile isSpace = letters := by
    intro letters all
    cases letters with
    | nil => rfl
    | cons c letters =>
        exact List.dropWhile_cons_of_neg (by simp [all c List.mem_cons_self])
  cases text with
  | nil =>
      have empty : spaces.dropWhile isSpace = [] := by
        simpa using dropBlank spaces [] blank
      simp [strip, empty]
  | cons c text =>
      have front : ((c :: text) ++ spaces).dropWhile isSpace = (c :: text) ++ spaces :=
        List.dropWhile_cons_of_neg (by simp [solid c List.mem_cons_self])
      have back : ((c :: text) ++ spaces).reverse.dropWhile isSpace = (c :: text).reverse := by
        rw [List.reverse_append, dropBlank _ _ fun d mem => blank d (List.mem_reverse.mp mem),
          keepSolid _ fun d mem => solid d (List.mem_reverse.mp mem)]
      rw [strip, front, back, List.reverse_reverse]

/-- On text that starts with a digit and continues with digits, reading an
integer is reading digits: there is no sign and no prefix. -/
theorem parseInt_of_digits {base : Nat} {text spaces : Text} (nonempty : text ≠ [])
    (digits : ∀ c ∈ text, (digitValue base c).isSome)
    (blank : ∀ c ∈ spaces, isSpace c = true) :
    parseInt base (text ++ spaces) = (readDigits base 0 text).map Int.ofNat := by
  have stripped : strip (text ++ spaces) = text :=
    strip_append_spaces (fun c mem => not_isSpace_of_digit (digits c mem)) blank
  obtain ⟨c, rest, rfl⟩ := List.exists_cons_of_ne_nil nonempty
  have first := digits c List.mem_cons_self
  have notMinus : c ≠ '-' := by
    rintro rfl
    simp [digitValue] at first
  have notPlus : c ≠ '+' := by
    rintro rfl
    simp [digitValue] at first
  have notUnderscore : c ≠ '_' := by
    rintro rfl
    simp [digitValue_underscore] at first
  have noPrefix : dropBasePrefix base (c :: rest) = c :: rest := by
    unfold dropBasePrefix
    split
    · rename_i mark tail eq
      obtain ⟨rfl, rfl⟩ := List.cons.inj eq
      have markDigit := digits mark (by simp)
      simp [not_isBaseMark_of_digit markDigit]
    · rfl
  rw [parseInt, stripped]
  split
  · rename_i eq
    exact absurd (List.cons.inj eq).1 notMinus
  · rename_i eq
    exact absurd (List.cons.inj eq).1 notPlus
  · rw [noPrefix, readNat_eq_readDigits notUnderscore]

/-! ## Numerals read back -/

theorem digit_of_mem_toDigits {base : Nat} (one_lt : 1 < base) (base_le : base ≤ 16)
    (n : Nat) : ∀ c ∈ Nat.toDigits base n, (digitValue base c).isSome := by
  induction n using Nat.strongRecOn with
  | ind n ih =>
      intro c mem
      by_cases small : n < base
      · rw [Nat.toDigits_of_lt_base small, List.mem_singleton] at mem
        rw [mem, digitValue_digitChar base_le small]
        rfl
      · rw [Nat.toDigits_of_base_le one_lt (by omega), List.mem_append,
          List.mem_singleton] at mem
        rcases mem with mem | rfl
        · exact ih _ (Nat.div_lt_self (by omega) one_lt) c mem
        · rw [digitValue_digitChar base_le (Nat.mod_lt n (by omega))]
          rfl

theorem digit_of_mem_numeral {base : Nat} (one_lt : 1 < base) (base_le : base ≤ 16)
    (width n : Nat) : ∀ c ∈ numeral base width n, (digitValue base c).isSome := by
  intro c mem
  rw [numeral, List.leftpad, List.mem_append] at mem
  rcases mem with mem | mem
  · rw [List.eq_of_mem_replicate mem]
    have zero : digitValue base (Nat.digitChar 0) = some 0 :=
      digitValue_digitChar base_le (by omega)
    exact Option.isSome_of_eq_some zero
  · exact digit_of_mem_toDigits one_lt base_le n c mem

/-- A padded numeral, followed by any whitespace, reads back as its number. -/
theorem parseInt_numeral_append {base : Nat} (one_lt : 1 < base) (base_le : base ≤ 16)
    (width n : Nat) {spaces : Text} (blank : ∀ c ∈ spaces, isSpace c = true) :
    parseInt base (numeral base width n ++ spaces) = some (n : Int) := by
  rw [parseInt_of_digits (numeral_ne_nil base width n)
    (digit_of_mem_numeral one_lt base_le width n) blank, numeral, List.leftpad,
    readDigits_zeros one_lt base_le]
  have whole := readDigits_toDigits one_lt base_le n 0 []
  rw [List.append_nil] at whole
  rw [whole]
  simp [readDigits]

theorem parseInt_numeral {base : Nat} (one_lt : 1 < base) (base_le : base ≤ 16)
    (width n : Nat) : parseInt base (numeral base width n) = some (n : Int) := by
  have parsed : parseInt base (numeral base width n ++ []) = some (n : Int) :=
    parseInt_numeral_append one_lt base_le width n (by simp)
  simpa using parsed

theorem readNat_numeral {base : Nat} (one_lt : 1 < base) (base_le : base ≤ 16) (width n : Nat) :
    readNat base (numeral base width n) = some n := by
  rcases List.exists_cons_of_ne_nil (numeral_ne_nil base width n) with ⟨c, rest, shape⟩
  have digit := digit_of_mem_numeral one_lt base_le width n c (shape ▸ List.mem_cons_self)
  have notUnderscore : c ≠ '_' := by
    rintro rfl
    simp [digitValue_underscore] at digit
  have whole := readDigits_toDigits one_lt base_le n 0 []
  rw [List.append_nil, Nat.zero_mul, Nat.zero_add] at whole
  rw [shape, readNat_eq_readDigits notUnderscore, ← shape, numeral, List.leftpad,
    readDigits_zeros one_lt base_le, whole, readDigits]

/-- `'0x%0*x'`: a numeral behind the prefix that announces base sixteen. -/
def hexNumeral (width n : Nat) : Text := '0' :: 'x' :: numeral 16 width n

theorem plain_hexNumeral (width n : Nat) : ∀ c ∈ hexNumeral width n, isSpace c = false := by
  intro c mem
  rcases List.mem_cons.mp mem with rfl | mem
  · decide
  · rcases List.mem_cons.mp mem with rfl | digit
    · decide
    · exact not_isSpace_of_digit (digit_of_mem_numeral (by decide) (le_refl 16) width n c digit)

/-- A numeral reads back behind its prefix. -/
theorem parseInt_hexNumeral (width n : Nat) : parseInt 16 (hexNumeral width n) = some (n : Int) := by
  have stripped : strip (hexNumeral width n) = hexNumeral width n := by
    have padded := @strip_append_spaces (hexNumeral width n) [] (plain_hexNumeral width n)
      (List.forall_mem_nil _)
    rwa [List.append_nil] at padded
  have dropped : dropBasePrefix 16 (hexNumeral width n) = numeral 16 width n := by
    rcases List.exists_cons_of_ne_nil (numeral_ne_nil 16 width n) with ⟨c, rest, shape⟩
    have digit := digit_of_mem_numeral (by decide) (le_refl 16) width n c
      (shape ▸ List.mem_cons_self)
    have notUnderscore : c ≠ '_' := by
      rintro rfl
      simp [digitValue_underscore] at digit
    rw [hexNumeral, shape, dropBasePrefix, if_pos (by decide)]
    intro digits same
    exact notUnderscore (List.cons.inj same).1
  rw [parseInt, stripped]
  change (readNat 16 (dropBasePrefix 16 (hexNumeral width n))).map Int.ofNat = _
  rw [dropped, readNat_numeral (by decide) (le_refl 16)]
  rfl

end Text

end Difftest
