/-
  File:      AndroidLint/Glob.lean
  Subject:   Patterns for paths.

  In a pattern `**` stands for any number of whole segments and `*` for any run of characters inside
  one segment. A pattern without a slash is held against the last segment only, so `*.xml` applies
  at any depth. Empty segments do not count, neither in the pattern nor in the path.
-/
import AndroidLint.Text.Split

namespace AndroidLint.Glob

/-! ## 1. Lists with wild places -/

/-- The ends of a list, the longest first. -/
def suffixes {α : Type} : List α → List (List α)
  | [] => [[]]
  | x :: xs => (x :: xs) :: suffixes xs

/-- Whether a pattern covers a list: a part for which `isWild` holds takes any run of elements, any
    other part takes one element that `fits` it. -/
def covers {π α : Type} (isWild : π → Bool) (fits : π → α → Bool) : List π → List α → Bool
  | [], xs => xs.isEmpty
  | p :: ps, xs =>
    if isWild p then (suffixes xs).any (covers isWild fits ps)
    else
      match xs with
      | [] => false
      | x :: xs => fits p x && covers isWild fits ps xs

/-! ## 2. Paths -/

/-- Whether a pattern for one segment covers it. -/
def segmentMatches (pattern segment : String) : Bool :=
  covers (· == '*') (· == ·) pattern.toList segment.toList

/-- The segments between slashes that are not empty. -/
def segments (text : String) : List String := (Text.split '/' text).filter (· != "")

/-- Whether a pattern covers a path with forward slashes. -/
def isMatch (pattern path : String) : Bool :=
  if pattern.toList.contains '/' then
    covers (· == "**") segmentMatches (segments pattern) (segments path)
  else
    match (segments path).getLast? with
    | some name => segmentMatches pattern name
    | none => false

end AndroidLint.Glob
