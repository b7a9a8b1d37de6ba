/-
  File:      AndroidLint/Kotlin/Token.lean
  Subject:   The tokens of Kotlin.

  A string is one token, with the expressions inside it; `interpolations` finds them again. A line
  end counts only where a statement can end: not inside round or square brackets, and not before a
  sign that goes on with an expression.
-/
import AndroidLint.Syntax.Token
import AndroidLint.Text.Blank

namespace AndroidLint.Kotlin

open Syntax

/-- The kinds of tokens. -/
inductive TokenKind where
  | word
  | integer
  | long
  | unsigned
  | real
  | character
  | string
  | sign
  deriving DecidableEq, Repr

/-- A token of Kotlin. -/
abbrev Token := Syntax.Token TokenKind

/-- Whether a character can begin a word. -/
def beginsWord (c : Char) : Bool :=
  c.isAlpha || c == '_' || (0x80 ≤ c.toNat && !Text.isBlank c)

/-! ## 1. Numbers -/

/-- The kind of a whole number and the number of characters of its suffix. -/
def wholeSuffix (cs : List Char) : TokenKind × Nat :=
  match cs with
  | 'u' :: 'L' :: _ | 'U' :: 'L' :: _ => (.unsigned, 2)
  | 'u' :: _ | 'U' :: _ => (.unsigned, 1)
  | 'L' :: _ => (.long, 1)
  | _ => (.integer, 0)

/-- A whole number whose digits take so many characters. -/
def whole (digits : Nat) (cs : List Char) : TokenKind × Nat :=
  let (kind, suffix) := wholeSuffix (cs.drop digits)
  (kind, digits + suffix)

/-- The number of characters of a fraction: a dot that a digit follows. -/
def fractionLength (cs : List Char) : Nat :=
  match cs with
  | '.' :: d :: rest => if d.isDigit then 2 + runLength isDigitOrMark rest else 0
  | _ => 0

/-- The kind and the number of characters of a number. -/
def number (cs : List Char) : TokenKind × Nat :=
  match cs with
  | '0' :: 'x' :: rest | '0' :: 'X' :: rest => whole (2 + runLength isHexOrMark rest) cs
  | '0' :: 'b' :: rest | '0' :: 'B' :: rest => whole (2 + runLength isDigitOrMark rest) cs
  | _ =>
    let digits := runLength isDigitOrMark cs
    let body := digits + fractionLength (cs.drop digits)
    let scaled := body + exponentLength 'e' 'E' (cs.drop body)
    let suffix := match cs.drop scaled with
      | 'f' :: _ | 'F' :: _ => 1
      | _ => 0
    if digits < scaled + suffix then (.real, scaled + suffix) else whole digits cs

/-! ## 2. Strings -/

/-- What a place inside a string belongs to. -/
inductive StringMode where
  /-- A string on one line. -/
  | quoted
  /-- A string between three quotes. -/
  | raw
  /-- Code in braces. -/
  | code

/-- The number of characters up to the end of the outermost of some nested strings and pieces of
    code, the innermost first. -/
def nestedLength : List StringMode → List Char → Nat
  | [], _ => 0
  | _ :: _, [] => 0
  | .quoted :: outer, '\\' :: _ :: cs => 2 + nestedLength (.quoted :: outer) cs
  | .quoted :: outer, '$' :: '\x7b' :: cs => 2 + nestedLength (.code :: .quoted :: outer) cs
  | .quoted :: outer, c :: cs => 1 + nestedLength (if c = '"' then outer else .quoted :: outer) cs
  | .raw :: outer, '$' :: '\x7b' :: cs => 2 + nestedLength (.code :: .raw :: outer) cs
  | .raw :: outer, '"' :: '"' :: '"' :: cs =>
    if cs.head? = some '"' then 1 + nestedLength (.raw :: outer) ('"' :: '"' :: cs)
    else 3 + nestedLength outer cs
  | .raw :: outer, _ :: cs => 1 + nestedLength (.raw :: outer) cs
  | .code :: outer, '\'' :: '\\' :: _ :: '\'' :: cs => 4 + nestedLength (.code :: outer) cs
  | .code :: outer, '\'' :: _ :: '\'' :: cs => 3 + nestedLength (.code :: outer) cs
  | .code :: outer, '"' :: '"' :: '"' :: cs => 3 + nestedLength (.raw :: .code :: outer) cs
  | .code :: outer, c :: cs =>
    let modes := match c with
      | '\x7b' => .code :: .code :: outer
      | '\x7d' => outer
      | '"' => .quoted :: .code :: outer
      | _ => .code :: outer
    1 + nestedLength modes cs

/-- The number of further characters of a string. -/
def stringLength (cs : List Char) : Nat :=
  match cs with
  | '"' :: '"' :: rest => 2 + nestedLength [.raw] rest
  | _ => nestedLength [.quoted] cs

/-- The pieces of code in a string, each with its offset; `escapes` says whether a backslash takes
    the character after it along. -/
def interpolationsFrom (escapes : Bool) (offset : Nat) : List Char → List (Nat × List Char)
  | [] => []
  | '\\' :: d :: rest =>
    if escapes then interpolationsFrom escapes (offset + 1 + d.utf8Size) rest
    else interpolationsFrom escapes (offset + 1) (d :: rest)
  | '$' :: '\x7b' :: rest =>
    let length := nestedLength [.code] rest
    (offset + 2, rest.take (length - 1)) ::
      interpolationsFrom escapes (offset + 2 + Text.width (rest.take length)) (rest.drop length)
  | c :: cs => interpolationsFrom escapes (offset + c.utf8Size) cs
termination_by cs => cs.length
decreasing_by all_goals simp only [List.length_cons, List.length_drop]; omega

/-- The pieces of code in a string that begins at an offset. -/
def interpolations (offset : Nat) (text : String) : List (Nat × List Char) :=
  interpolationsFrom (!("\"\"\"".toList.isPrefixOf text.toList)) offset text.toList

/-! ## 3. All tokens -/

/-- The signs of more than one character, the longer ones first. -/
def longSigns : List (List Char) :=
  ["===", "!==", "..<", "?.", "?:", "!!", "::", "->", "..", "==", "!=", "<=", "&&", "||", "++", "--",
    "+=", "-=", "*=", "/=", "%="].map String.toList

/-- The number of characters up to the end of nested comments. -/
def commentLength : Nat → List Char → Nat
  | _, [] => 0
  | depth, '/' :: '*' :: cs => 2 + commentLength (depth + 1) cs
  | depth, '*' :: '/' :: cs => if depth = 0 then 2 else 2 + commentLength (depth - 1) cs
  | depth, _ :: cs => 1 + commentLength depth cs

/-- What begins with a character. -/
def lexeme (c : Char) (cs : List Char) : Lexeme TokenKind :=
  if Text.isBlank c || c == '\uFEFF' then .gap 0
  else if c == '/' && cs.head? == some '/' then .gap (runLength (· != '\n') cs)
  else if c == '/' && cs.head? == some '*' then .gap (1 + commentLength 0 (cs.drop 1))
  else if beginsWord c then .token .word (runLength (continuesWord beginsWord) cs)
  else if c == '\x60' then .token .word (closedLength ['\x60'] cs)
  else if c.isDigit || (c == '.' && (cs.head?.map Char.isDigit).getD false) then
    let (kind, length) := number (c :: cs)
    .token kind (length - 1)
  else if c == '"' then .token .string (stringLength cs)
  else if c == '\'' then .token .character (quotedLength '\'' cs)
  else .token .sign (signLength longSigns c cs)

/-! ## 4. Ends of lines -/

/-- Whether the text at the beginning of a line begins a new statement, and does not go on with the
    one before. -/
def beginsStatement (cs : List Char) : Bool :=
  match cs with
  | [] => true
  | '!' :: rest => rest.head? != some '='
  | 'e' :: 'l' :: 's' :: 'e' :: rest => (rest.head?.map (continuesWord beginsWord)).getD false
  | 'i' :: 'n' :: rest =>
    match rest with
    | c :: _ => c.isAlpha
    | [] => false
  | c :: rest =>
    if c = '+' ∨ c = '-' then
      match rest with
      | d :: _ => d == c || d.isDigit
      | [] => false
    else !(",.:*%><=\x7b[(?|&/".toList.contains c)

/-- Let only those ends of lines count at which a statement can end. The list holds the brackets
    that are open. -/
def settleLines : List Char → List Token → List Token
  | _, [] => []
  | brackets, t :: rest =>
    let inside := brackets.head?.any fun b => b == '(' || b == '['
    let settled := { t with afterNewline := t.afterNewline && !inside && beginsStatement t.source }
    let brackets := if t.kind == .sign then
        match t.text with
        | "(" => '(' :: brackets
        | "[" => '[' :: brackets
        | "\x7b" => '\x7b' :: brackets
        | ")" | "]" | "\x7d" => brackets.tail
        | _ => brackets
      else brackets
    settled :: settleLines brackets rest

/-- The tokens of a piece of a file that begins at an offset. -/
def tokensAt (offset : Nat) (contents : List Char) : List Token :=
  settleLines [] (tokensFrom lexeme offset false contents)

end AndroidLint.Kotlin
