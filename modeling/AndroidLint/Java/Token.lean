/-
  File:      AndroidLint/Java/Token.lean
  Subject:   The tokens of Java.

  Words are not told apart from keywords here: what a word means depends on where it stands. A `>`
  is always a token of its own, because it may close several lists of type arguments; the readers
  of operators put neighbours together again.
-/
import AndroidLint.Syntax.Token
import AndroidLint.Text.Blank

namespace AndroidLint.Java

open Syntax

/-- The kinds of tokens. -/
inductive TokenKind where
  | word
  | integer
  | float
  | character
  | string
  | sign
  deriving DecidableEq, Repr

/-- A token of Java. -/
abbrev Token := Syntax.Token TokenKind

/-- Whether a character can begin a word. -/
def beginsWord (c : Char) : Bool :=
  c.isAlpha || c == '_' || c == '$' || (0x80 ≤ c.toNat && !Text.isBlank c)

/-! ## 1. Numbers -/

/-- The number of characters of a suffix, zero or one. -/
def suffixLength (letters : List Char) (cs : List Char) : Nat :=
  match cs with
  | c :: _ => if letters.contains c then 1 else 0
  | [] => 0

/-- The suffixes of floating-point numbers. -/
def floatSuffixes : List Char := ['f', 'F', 'd', 'D']

/-- The suffixes of whole numbers. -/
def longSuffixes : List Char := ['l', 'L']

/-- The kind and the number of characters of a number, given that its digits satisfy `digit` and its
    exponent begins with a letter in one of two cases. `decimal` says that a suffix alone may make
    the number a floating-point one. -/
def numberTail (digit : Char → Bool) (lower upper : Char) (decimal : Bool) (cs : List Char) :
    TokenKind × Nat :=
  let whole := runLength digit cs
  let fraction := match cs.drop whole with
    | '.' :: rest => 1 + runLength digit rest
    | _ => 0
  let body := whole + fraction
  let exponent := exponentLength lower upper (cs.drop body)
  let scaled := body + exponent
  let suffix := suffixLength floatSuffixes (cs.drop scaled)
  if 0 < fraction || 0 < exponent || (decimal && 0 < suffix) then (.float, scaled + suffix)
  else (.integer, whole + suffixLength longSuffixes (cs.drop whole))

/-- The kind and the number of characters of a number. -/
def number (cs : List Char) : TokenKind × Nat :=
  match cs with
  | '0' :: 'x' :: rest | '0' :: 'X' :: rest =>
    let (kind, length) := numberTail isHexOrMark 'p' 'P' false rest
    (kind, 2 + length)
  | '0' :: 'b' :: rest | '0' :: 'B' :: rest =>
    let digits := runLength isDigitOrMark rest
    (.integer, 2 + digits + suffixLength longSuffixes (rest.drop digits))
  | _ => numberTail isDigitOrMark 'e' 'E' true cs

/-! ## 2. All tokens -/

/-- The signs of more than one character, the longer ones first. -/
def longSigns : List (List Char) :=
  ["...", "<<=", "->", "::", "++", "--", "&&", "||", "==", "!=", "<=", "<<", "+=", "-=", "*=", "/=",
    "&=", "|=", "^=", "%="].map String.toList

/-- The number of further characters of a string. Three quotes begin one that runs over lines. -/
def stringLength (cs : List Char) : Nat :=
  match cs with
  | '"' :: '"' :: rest => 2 + textBlockLength rest
  | _ => quotedLength '"' cs
where
  /-- The number of characters of a text block after its opening quotes. -/
  textBlockLength : List Char → Nat
    | [] => 0
    | '\\' :: _ :: cs => 2 + textBlockLength cs
    | '"' :: '"' :: '"' :: _ => 3
    | _ :: cs => 1 + textBlockLength cs

/-- What begins with a character. -/
def lexeme (c : Char) (cs : List Char) : Lexeme TokenKind :=
  if Text.isBlank c || c == '\uFEFF' then .gap 0
  else if c == '/' && cs.head? == some '/' then .gap (runLength (· != '\n') cs)
  else if c == '/' && cs.head? == some '*' then
    .gap (1 + closedLength "*/".toList (cs.drop 1))
  else if beginsWord c then .token .word (runLength (continuesWord beginsWord) cs)
  else if c.isDigit || (c == '.' && ((cs.head?.map Char.isDigit).getD false)) then
    let (kind, length) := number (c :: cs)
    .token kind (length - 1)
  else if c == '"' then .token .string (stringLength cs)
  else if c == '\'' then .token .character (quotedLength '\'' cs)
  else .token .sign (signLength longSigns c cs)

/-- The tokens of a file. -/
def tokens (contents : List Char) : List Token := Syntax.tokens lexeme contents

end AndroidLint.Java
