/-
  File:      AndroidLint/Yaml/Cursor.lean
  Subject:   A place in a YAML text.
-/
import AndroidLint.Text.Blank

namespace AndroidLint.Yaml

/-- A character that ends a line. -/
def isBreak (c : Char) : Bool := ['\n', '\r', '\u0085', '\u2028', '\u2029'].contains c

/-- The characters that a text may hold. -/
def isAllowed (c : Char) : Bool :=
  let n := c.toNat
  n == 0x09 || n == 0x0A || n == 0x0D || (0x20 ≤ n && n ≤ 0x7E) || n == 0x85 ||
    (0xA0 ≤ n && n ≤ 0xFFFD) || 0x10000 ≤ n

/-- A place in a text: what follows it, and where it is. Lines and columns count from zero. -/
structure Cursor where
  rest : List Char
  line : Nat := 0
  column : Nat := 0
  /-- The number of characters before it. -/
  index : Nat := 0

namespace Cursor

/-- The next character. -/
def head? (c : Cursor) : Option Char := c.rest.head?

/-- Whether a blank, a line end or the end of the text is `n` characters further on. -/
def isGapAt (c : Cursor) (n : Nat) : Bool :=
  match c.rest[n]? with
  | some ch => Text.isInlineBlank ch || isBreak ch
  | none => true

/-- Past `n` characters of the same line. -/
def skip (c : Cursor) (n : Nat) : Cursor :=
  { c with rest := c.rest.drop n, column := c.column + n, index := c.index + n }

/-- Past the characters in front that satisfy `p`. -/
def skipWhile (c : Cursor) (p : Char → Bool) : Cursor := c.skip (c.rest.takeWhile p).length

/-- Past the end of a line, which may take two characters. -/
def skipLine (c : Cursor) : Cursor :=
  match c.rest with
  | '\r' :: '\n' :: rest => { rest, line := c.line + 1, column := 0, index := c.index + 2 }
  | ch :: rest =>
    if isBreak ch then { rest, line := c.line + 1, column := 0, index := c.index + 1 } else c
  | [] => c

/-- The end of a line as it counts in a scalar. -/
def lineEnd (c : Cursor) : List Char :=
  match c.rest with
  | ch :: _ => if ch = '\u2028' ∨ ch = '\u2029' then [ch] else if isBreak ch then ['\n'] else []
  | [] => []

/-- Whether a line that separates documents begins with this mark. -/
def isMark (c : Cursor) (mark : String) : Bool :=
  c.column == 0 && mark.toList.isPrefixOf c.rest && c.isGapAt mark.length

/-- Whether a line that separates documents begins here. -/
def isDocumentMark (c : Cursor) : Bool := c.isMark "---" || c.isMark "..."

end Cursor

end AndroidLint.Yaml
