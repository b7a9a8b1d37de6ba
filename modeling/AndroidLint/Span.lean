/-
  File:      AndroidLint/Span.lean
  Subject:   A byte range resolved to lines and columns.

  Resolving never fails: an offset past the end stands for the end, one inside a character for the
  start of that character, and a range whose end lies before its start is empty at its start.
-/
import AndroidLint.Text.Line

namespace AndroidLint

/-- A position range inside a file. Lines count from one, columns from zero in characters. -/
structure Span where
  start : Nat
  stop : Nat
  line : Nat
  column : Nat
  endLine : Nat
  endColumn : Nat
  deriving DecidableEq, Repr

namespace Span

/-- Resolve byte offsets against the text of a file. -/
def resolve (contents : List Char) (range : ByteRange) : Span :=
  let start := Text.clamp range.start contents
  let stop := Text.clamp (max range.stop start) contents
  let first := Text.lineColumn (Text.before start contents)
  let last := Text.lineColumn (Text.before stop contents)
  ⟨start, stop, first.1, first.2, last.1, last.2⟩

/-- Whether the span holds no character. -/
def isEmpty (s : Span) : Bool := s.start == s.stop

end Span

end AndroidLint
