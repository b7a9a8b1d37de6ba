/-
  File:      AndroidLint/Source/Literal.lean
  Subject:   The values that literals denote.
-/
import AndroidLint.Source.Expr
import AndroidLint.Text.Number
import AndroidLint.Text.Split

namespace AndroidLint.Source

/-! ## 1. Whole numbers -/

/-- Whether a character is a suffix of a whole number. -/
def isIntSuffix (c : Char) : Bool := c == 'l' || c == 'L' || c == 'u' || c == 'U'

/-- The digits and the base letters of a number, without suffixes and without marks between
    digits. -/
def bareNumber (isSuffix : Char → Bool) (text : String) : List Char :=
  (text.toList.reverse.dropWhile isSuffix).reverse.filter (· != '_')

/-- The value of a whole number in hexadecimal, binary, octal or decimal digits; `none` when it
    takes more than 63 bits. -/
def intLiteral? (text : String) : Option Int :=
  let bare := bareNumber isIntSuffix text
  match bare with
  | '0' :: 'x' :: digits | '0' :: 'X' :: digits => Text.int64? 16 digits
  | '0' :: 'b' :: digits | '0' :: 'B' :: digits => Text.int64? 2 digits
  | '0' :: c :: digits =>
    if (c :: digits).all Char.isDigit then Text.int64? 8 (c :: digits) else Text.int64? 10 bare
  | _ => Text.int64? 10 bare

/-! ## 2. Floating-point numbers -/

/-- Whether a character is a suffix of a floating-point number. -/
def isFloatSuffix (c : Char) : Bool := c == 'f' || c == 'F' || c == 'd' || c == 'D'

/-- The number nearest to `digits` times a power of ten. Powers beyond the range of floating-point
    numbers are not computed. -/
def scaled (digits : List Char) (exponent : Int) : Option Float := do
  let value ← Text.natural? 10 digits
  if value = 0 then return 0.0
  let magnitude := (Nat.toDigits 10 value).length + exponent
  if 400 < magnitude then return 1.0 / 0.0
  if magnitude < -400 then return 0.0
  return if exponent < 0 then Float.ofScientific value true exponent.natAbs
    else Float.ofScientific value false exponent.natAbs

/-- The power of ten that an exponent gives; none at all gives zero. -/
def exponent? (cs : List Char) : Option Int :=
  match cs with
  | [] => some 0
  | e :: rest =>
    if e = 'e' ∨ e = 'E' then
      match rest with
      | '-' :: digits => (Text.natural? 10 digits).map fun n => -(n : Int)
      | '+' :: digits => (Text.natural? 10 digits).map fun n => (n : Int)
      | digits => (Text.natural? 10 digits).map fun n => (n : Int)
    else none

/-- The value of a decimal floating-point number. -/
def floatLiteral? (text : String) : Option Float := do
  let bare := bareNumber isFloatSuffix text
  let whole := bare.takeWhile Char.isDigit
  let (fraction, rest) := match bare.dropWhile Char.isDigit with
    | '.' :: rest => (rest.takeWhile Char.isDigit, rest.dropWhile Char.isDigit)
    | rest => ([], rest)
  let exponent ← exponent? rest
  scaled (whole ++ fraction) (exponent - fraction.length)

/-! ## 3. Characters and strings -/

/-- What the body of a literal denotes: a backslash changes the meaning of the character after
    it. -/
def unescape : List Char → List Char
  | [] => []
  | '\\' :: rest =>
    match rest with
    | 'n' :: cs => '\n' :: unescape cs
    | 't' :: cs => '\t' :: unescape cs
    | 'r' :: cs => '\r' :: unescape cs
    | '0' :: cs => '\x00' :: unescape cs
    | c :: cs => c :: unescape cs
    | [] => ['\\']
  | c :: cs => c :: unescape cs

/-- A literal without the quotes at both ends, however many there are. -/
def literalBody (quote : Char) (text : String) : List Char :=
  ((text.toList.dropWhile (· == quote)).reverse.dropWhile (· == quote)).reverse

/-- The value of a string. -/
def stringLiteral (text : String) : String := String.ofList (unescape (literalBody '"' text))

/-- The value of a character: the first one that the literal denotes. -/
def charLiteral (text : String) : Char := (unescape (literalBody '\'' text)).head?.getD '\x00'

/-! ## 4. Numbers as expressions -/

/-- A whole number of a type. -/
def intExpr (type text : String) : ExprKind Expr × Option String :=
  match intLiteral? text with
  | some v => (.int v, some type)
  | none => (.other, some type)

/-- The type of a floating-point number, which its suffix tells. -/
def floatType (text : String) : String :=
  if Text.hasTail "f" text || Text.hasTail "F" text then "float" else "double"

/-- A floating-point number. -/
def floatExpr (text : String) : ExprKind Expr × Option String :=
  match floatLiteral? text with
  | some v => (.float v, some (floatType text))
  | none => (.other, some (floatType text))

end AndroidLint.Source
