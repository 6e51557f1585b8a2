import Difftest.Text.Number

/-!
# Lines, slices and columns

Text files are read as lists of lines that keep their line terminator, and lines
are cut by column.  Writing a list of lines and reading the file back returns
the same lines when no line contains a terminator of its own.
-/

namespace Difftest.Text

/-- `text[start:stop]` for nonnegative bounds. -/
def slice (start stop : Nat) (text : Text) : Text := (text.drop start).take (stop - start)

/-- `file.readlines()`: the lines of a file, each with its terminator. -/
def readlines : Text → List Text
  | [] => []
  | c :: rest =>
      if c = '\n' then ['\n'] :: readlines rest
      else
        match readlines rest with
        | [] => [[c]]
        | line :: lines => (c :: line) :: lines

/-- One line of a file: `body` followed by the line terminator. -/
def line (body : Text) : Text := body ++ ['\n']

theorem readlines_line_append {body : Text} (plain : '\n' ∉ body) (rest : Text) :
    readlines (line body ++ rest) = line body :: readlines rest := by
  induction body with
  | nil => simp [line, readlines]
  | cons c body ih =>
      rw [List.mem_cons, not_or] at plain
      have tail := ih plain.2
      have shape : line (c :: body) ++ rest = c :: (line body ++ rest) := rfl
      rw [shape, readlines, if_neg (Ne.symm plain.1), tail]
      rfl

/-- A file written line by line reads back as these lines. -/
theorem readlines_flatten_lines {bodies : List Text} (plain : ∀ body ∈ bodies, '\n' ∉ body) :
    readlines (bodies.map line).flatten = bodies.map line := by
  induction bodies with
  | nil => rfl
  | cons body bodies ih =>
      rw [List.map_cons, List.flatten_cons,
        readlines_line_append (plain body List.mem_cons_self),
        ih fun other mem => plain other (List.mem_cons_of_mem body mem)]

theorem newline_notMem_numeral {base : Nat} (one_lt : 1 < base) (base_le : base ≤ 16)
    (width n : Nat) : '\n' ∉ numeral base width n := by
  intro mem
  have digit := digit_of_mem_numeral one_lt base_le width n _ mem
  simp [digitValue] at digit

/-- The columns of the first of two adjacent fields. -/
theorem slice_first {first : Text} {width : Nat} (length : first.length = width)
    (rest : Text) : slice 0 width (first ++ rest) = first := by
  simp [slice, ← length]

/-- The columns of the second of two adjacent fields. -/
theorem slice_second {first second : Text} {start stop : Nat} (firstLength : first.length = start)
    (secondLength : second.length = stop - start) (rest : Text) :
    slice start stop (first ++ second ++ rest) = second := by
  rw [slice, List.append_assoc, List.drop_left' firstLength, List.take_left' secondLength]

end Difftest.Text
