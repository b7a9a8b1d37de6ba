/-
  File:      AndroidLint/Text/CodeRange.lean
  Subject:   Runs of code points, the rows of a character property table.

  A property of characters that is a table of a standard is written as a list of runs: the first
  code point and how many there are. They follow each other, or every second one counts, as in the
  alphabets in which capital and small letters alternate. All tables are those of version 15.0 of
  the character standard.
-/

namespace AndroidLint.Text

/-- Whether one of some runs holds a character, where neighbours in a run are `step` apart. -/
def anyRunHolds (step : Nat) (runs : List (Nat × Nat)) (c : Char) : Bool :=
  runs.any fun (first, count) =>
    first ≤ c.toNat && (c.toNat - first) % step == 0 && (c.toNat - first) / step < count

end AndroidLint.Text
