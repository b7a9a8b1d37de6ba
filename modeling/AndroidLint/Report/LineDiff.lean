/-
  File:      AndroidLint/Report/LineDiff.lean
  Subject:   The difference between two texts, line by line.

  The lines that the texts share in front and at the end are left out. What remains of the old text
  is printed as removed lines and what remains of the new one as added lines, between up to `window`
  shared lines on each side. The header gives the number of the first printed line.
-/
import AndroidLint.Text.Line

namespace AndroidLint.Report

open AndroidLint.Text

/-- How many elements two lists share in front. -/
def sharedLength : List (List Char) → List (List Char) → Nat
  | a :: as, b :: bs => if a = b then sharedLength as bs + 1 else 0
  | _, _ => 0

/-- Lines printed behind a mark, each with its line end. -/
def marked (mark : List Char) (lines : List (List Char)) : List Char :=
  lines.flatMap fun l => mark ++ l ++ ['\n']

/-- The lines from `start` up to `stop`. -/
def between (start stop : Nat) (lines : List (List Char)) : List (List Char) :=
  (lines.drop start).take (stop - start)

/-- The difference between two texts, empty when their lines agree. -/
def lineDiff (old new : List Char) (window : Nat) : List Char :=
  let old := lines old
  let new := lines new
  let head := sharedLength old new
  if head = old.length ∧ head = new.length then []
  else
    let tail := min (min old.length new.length - head) (sharedLength old.reverse new.reverse)
    let first := head - window
    let last := min (old.length - tail + window) old.length
    s!"@@ -{first + 1} +{first + 1}\n".toList ++
      marked [' ', ' '] (between first head old) ++
      marked ['-', ' '] (between head (old.length - tail) old) ++
      marked ['+', ' '] (between head (new.length - tail) new) ++
      marked [' ', ' '] (between (old.length - tail) last old)

end AndroidLint.Report
