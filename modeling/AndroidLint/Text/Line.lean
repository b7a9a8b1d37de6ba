/-
  File:      AndroidLint/Text/Line.lean
  Subject:   Lines of a text, and the line and column of a position.

  A line ends at a line feed, and a carriage return in front of the line feed belongs to the line
  end. Nothing after the last line feed is no line. Lines count from one, columns from zero in
  characters.
-/
import AndroidLint.Text.Offset

namespace AndroidLint.Text

/-! ## 1. Lines -/

/-- A line without the carriage return of its line end, the line given last character first. -/
def endLine : List Char → List Char
  | '\r' :: cs => cs.reverse
  | cs => cs.reverse

/-- The lines of a text, where `line` holds the characters of the current line so far, the last one
    first. -/
def linesFrom (line : List Char) : List Char → List (List Char)
  | [] => if line.isEmpty then [] else [line.reverse]
  | c :: cs => if c = '\n' then endLine line :: linesFrom [] cs else linesFrom (c :: line) cs

/-- The lines of a text. -/
def lines (cs : List Char) : List (List Char) := linesFrom [] cs

/-! ## 2. Line and column -/

/-- Line and column after one more character. -/
def advance (p : Nat × Nat) (c : Char) : Nat × Nat :=
  if c = '\n' then (p.1 + 1, 0) else (p.1, p.2 + 1)

/-- Line and column at the end of the characters that stand before a position. -/
def lineColumn (before : List Char) : Nat × Nat := before.foldl advance (1, 0)

/-! ## 3. Joining -/

/-- Texts joined with a separator between neighbours. -/
def joinWith (separator : List Char) : List (List Char) → List Char
  | [] => []
  | [l] => l
  | l :: ls => l ++ separator ++ joinWith separator ls

end AndroidLint.Text
