import Difftest.Text.Number

/-!
# Scanning an unsigned integer

The C library reads the longest numeral at the front of a text and returns where it
stopped.  With base zero the numeral announces its base by a prefix.  A number that does
not fit is the greatest one, and text without a numeral is zero and left as it is.
-/

namespace Difftest.Text

/-- Whitespace in the C locale. -/
def isCSpace (c : Char) : Bool := c = ' ' || (9 ≤ c.toNat && c.toNat ≤ 13)

/-- Read the digits at the front of a text, from an accumulated value. -/
def scanDigits (base : Nat) : (acc : Nat) → Text → Nat × Text
  | acc, [] => (acc, [])
  | acc, c :: rest =>
      match digitValue base c with
      | some digit => scanDigits base (acc * base + digit) rest
      | none => (acc, c :: rest)

/-- The base that a numeral announces, and the numeral from its digits on. -/
def scanBase : Text → Nat × Text
  | '0' :: mark :: c :: rest =>
      if (mark = 'x' ∨ mark = 'X') ∧ (digitValue 16 c).isSome then (16, c :: rest)
      else (8, '0' :: mark :: c :: rest)
  | '0' :: rest => (8, '0' :: rest)
  | text => (10, text)

/-- The sign of a numeral, and the numeral after it. -/
def scanSign : Text → Bool × Text
  | '-' :: rest => (true, rest)
  | '+' :: rest => (false, rest)
  | text => (false, text)

/-- `strtoull(text, &end, 0)`: the value and the text at `end`. -/
def strtoull (text : Text) : Nat × Text :=
  let signed := scanSign (text.dropWhile isCSpace)
  let numeral := scanBase signed.2
  if (numeral.2.head?.bind (digitValue numeral.1)).isSome then
    let scanned := scanDigits numeral.1 0 numeral.2
    if 2 ^ 64 ≤ scanned.1 then (2 ^ 64 - 1, scanned.2)
    else if signed.1 then ((2 ^ 64 - scanned.1) % 2 ^ 64, scanned.2)
    else scanned
  else (0, text)

theorem length_scanDigits_le (base acc : Nat) (text : Text) :
    (scanDigits base acc text).2.length ≤ text.length := by
  induction text generalizing acc with
  | nil => exact Nat.le_refl _
  | cons c rest inductionHypothesis =>
      rw [scanDigits]
      split
      · exact (inductionHypothesis _).trans (Nat.le_succ _)
      · exact Nat.le_refl _

theorem length_scanBase_le (text : Text) : (scanBase text).2.length ≤ text.length := by
  rw [scanBase.eq_def]
  split
  · split
    · simp only [List.length_cons]
      omega
    · exact Nat.le_refl _
  · exact Nat.le_refl _
  · exact Nat.le_refl _

theorem length_scanSign_le (text : Text) : (scanSign text).2.length ≤ text.length := by
  rw [scanSign.eq_def]
  split
  · exact Nat.le_succ _
  · exact Nat.le_succ _
  · exact Nat.le_refl _

/-- What is left is no longer than the text. -/
theorem length_strtoull_le (text : Text) : (strtoull text).2.length ≤ text.length := by
  have scanned : ∀ base acc, (scanDigits base acc
      (scanBase (scanSign (text.dropWhile isCSpace)).2).2).2.length ≤ text.length := fun base acc =>
    calc _ ≤ (scanBase (scanSign (text.dropWhile isCSpace)).2).2.length :=
          length_scanDigits_le base acc _
      _ ≤ (scanSign (text.dropWhile isCSpace)).2.length := length_scanBase_le _
      _ ≤ (text.dropWhile isCSpace).length := length_scanSign_le _
      _ ≤ text.length := (List.dropWhile_suffix isCSpace).length_le
  rw [strtoull]
  dsimp only
  split
  · split
    · exact scanned _ _
    · split
      · exact scanned _ _
      · exact scanned _ _
  · exact Nat.le_refl _

/-- The text does not begin with a digit of the base. -/
def StopsDigits (base : Nat) (text : Text) : Prop :=
  ∀ c ∈ text.head?, digitValue base c = none

theorem scanDigits_stop {base acc : Nat} {text : Text} (stops : StopsDigits base text) :
    scanDigits base acc text = (acc, text) := by
  cases text with
  | nil => rfl
  | cons c rest => rw [scanDigits, stops c rfl]

/-- Scanning the digits of `n` shifts the accumulator past them and adds `n`. -/
theorem scanDigits_toDigits {base : Nat} (one_lt : 1 < base) (base_le : base ≤ 16) (n acc : Nat)
    (rest : Text) :
    scanDigits base acc (Nat.toDigits base n ++ rest) =
      scanDigits base (acc * base ^ (Nat.toDigits base n).length + n) rest := by
  have single : ∀ digit acc rest, digit < base →
      scanDigits base acc (digit.digitChar :: rest) = scanDigits base (acc * base + digit) rest := by
    intro digit acc rest small
    rw [scanDigits, digitValue_digitChar base_le small]
  induction n using Nat.strongRecOn generalizing acc rest with
  | ind n inductionHypothesis =>
      by_cases small : n < base
      · rw [Nat.toDigits_of_lt_base small]
        simpa using single n acc rest small
      · have smaller : n / base < n := Nat.div_lt_self (by omega) one_lt
        rw [Nat.toDigits_of_base_le one_lt (by omega), List.append_assoc,
          inductionHypothesis _ smaller, List.cons_append, List.nil_append,
          single _ _ _ (Nat.mod_lt n (by omega))]
        have value := Nat.div_add_mod n base
        congr 1
        rw [List.length_append, List.length_singleton, Nat.pow_succ, Nat.add_mul]
        nlinarith

/-- A hexadecimal numeral behind its prefix is scanned up to the first character that is no
digit. -/
theorem strtoull_hexNumeral {n : Nat} (fits : n < 2 ^ 64) {rest : Text} (stops : StopsDigits 16 rest) :
    strtoull (hexNumeral 0 n ++ rest) = (n, rest) := by
  have digits : numeral 16 0 n = Nat.toDigits 16 n := by
    rw [numeral, List.leftpad, Nat.zero_sub]
    rfl
  obtain ⟨c, tail, shape⟩ := List.exists_cons_of_ne_nil (numeral_ne_nil 16 0 n)
  have digit := digit_of_mem_numeral (by decide) (le_refl 16) 0 n c (shape ▸ List.mem_cons_self)
  have announced : scanBase (hexNumeral 0 n ++ rest) = (16, numeral 16 0 n ++ rest) := by
    rw [hexNumeral, shape]
    exact if_pos ⟨Or.inl rfl, digit⟩
  have unsigned : scanSign ((hexNumeral 0 n ++ rest).dropWhile isCSpace) =
      (false, hexNumeral 0 n ++ rest) := rfl
  have scanned : scanDigits 16 0 (numeral 16 0 n ++ rest) = (n, rest) := by
    rw [digits, scanDigits_toDigits (by decide) (le_refl 16), scanDigits_stop stops, Nat.zero_mul,
      Nat.zero_add]
  have first : ((numeral 16 0 n ++ rest).head?.bind (digitValue 16)).isSome = true := by
    rw [shape]
    exact digit
  simp only [strtoull, unsigned, announced, first, if_true, scanned, if_neg (Nat.not_le.mpr fits),
    Bool.false_eq_true, if_false]

end Difftest.Text
