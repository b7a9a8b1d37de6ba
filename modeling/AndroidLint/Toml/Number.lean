/-
  File:      AndroidLint/Toml/Number.lean
  Subject:   Numbers.

  An underscore may stand between two digits. Whole numbers have 64 bits; a number with a fraction or
  an exponent is refused when it is beyond the greatest one of 64 bits.
-/
import AndroidLint.Text.Number
import AndroidLint.Toml.Value

namespace AndroidLint.Toml

/-! ## 1. Digits -/

/-- The digits of a run in which an underscore may stand between two of them. -/
def digits? (isDigit : Char → Bool) : List Char → Option (List Char)
  | [] => none
  | [d] => if isDigit d then some [d] else none
  | d :: '_' :: rest => if isDigit d then (digits? isDigit rest).map (d :: ·) else none
  | d :: rest => if isDigit d then (digits? isDigit rest).map (d :: ·) else none

/-- The sign in front and what follows it; no sign counts as plus. -/
def splitSign : List Char → Bool × List Char
  | '+' :: rest => (false, rest)
  | '-' :: rest => (true, rest)
  | cs => (false, cs)

/-- The digits of a decimal number; only zero itself begins with a zero. -/
def decimalDigits? (cs : List Char) : Option (List Char) := do
  let digits ← digits? Char.isDigit cs
  if 1 < digits.length && digits.head? = some '0' then none else some digits

/-! ## 2. Whole numbers -/

/-- Whether a character is a digit of a base up to sixteen. -/
def isDigitOf (base : Nat) (c : Char) : Bool := (Text.natural? base [c]).isSome

/-- A whole number. -/
def integer? (cs : List Char) : Option Int :=
  let based (base : Nat) (rest : List Char) : Option Int :=
    digits? (isDigitOf base) rest >>= Text.int64? base
  match cs with
  | '0' :: 'x' :: rest => based 16 rest
  | '0' :: 'o' :: rest => based 8 rest
  | '0' :: 'b' :: rest => based 2 rest
  | _ => do
    let (negative, rest) := splitSign cs
    let digits ← decimalDigits? rest
    Text.int64? 10 (if negative then '-' :: digits else digits)

/-! ## 3. Numbers with a fraction or an exponent -/

/-- The least whole number that is rounded to infinity. -/
def overflow : Nat := Nat.pow 2 1024 - Nat.pow 2 970

/-- Whether `n · 10 ^ e` is rounded to infinity. The number of digits settles all but a few cases. -/
def overflows (n : Nat) (e : Int) : Bool :=
  let magnitude : Int := (Nat.toDigits 10 n).length + e
  if n = 0 || magnitude < 308 then false
  else if 310 < magnitude then true
  else if 0 ≤ e then overflow ≤ n * Nat.pow 10 e.toNat
  else overflow * Nat.pow 10 (-e).toNat ≤ n

/-- The exponent after its letter. -/
def exponent? (cs : List Char) : Option Int := do
  let (negative, rest) := splitSign cs
  let n ← digits? Char.isDigit rest >>= Text.natural? 10
  pure (if negative then -n else n)

/-- The fraction and the exponent of a number whose whole part is passed. At least one of them has to
    be there. -/
def fractionAndExponent? (cs : List Char) : Option (List Char × Int) :=
  let isMark (c : Char) : Bool := c == 'e' || c == 'E'
  match cs with
  | '.' :: rest => do
    let fraction ← digits? Char.isDigit (rest.takeWhile (!isMark ·))
    match rest.dropWhile (!isMark ·) with
    | [] => pure (fraction, 0)
    | _ :: rest => pure (fraction, ← exponent? rest)
  | c :: rest => if isMark c then (exponent? rest).map fun e => ([], e) else none
  | [] => none

/-- A number with a fraction or an exponent, infinity, or no number. -/
def isFloat (cs : List Char) : Bool :=
  let (negative, rest) := splitSign cs
  if rest = "inf".toList || rest = "nan".toList then true
  else
    let isWhole (c : Char) : Bool := c.isDigit || c == '_'
    match decimalDigits? (rest.takeWhile isWhole), fractionAndExponent? (rest.dropWhile isWhole) with
    | some whole, some (fraction, e) =>
      match Text.natural? 10 (whole ++ fraction) with
      | some n => negative || !overflows n (e - fraction.length)
      | none => false
    | _, _ => false

end AndroidLint.Toml
