/-
  File:      AndroidLint/Text/Number.lean
  Subject:   Numbers written in digits.
-/

namespace AndroidLint.Text

/-- The value of a digit: `0` to `9`, then the letters in either case. -/
def digitValue? (base : Nat) (c : Char) : Option Nat :=
  let value :=
    if '0' ≤ c ∧ c ≤ '9' then c.toNat - '0'.toNat
    else if 'a' ≤ c ∧ c ≤ 'z' then c.toNat - 'a'.toNat + 10
    else if 'A' ≤ c ∧ c ≤ 'Z' then c.toNat - 'A'.toNat + 10
    else base
  if value < base then some value else none

/-- The number that a run of digits denotes, following the digits already read. -/
def valueFrom? (base : Nat) : Nat → List Char → Option Nat
  | value, [] => some value
  | value, c :: cs =>
    match digitValue? base c with
    | some d => valueFrom? base (value * base + d) cs
    | none => none

/-- The number that a run of digits denotes; at least one digit has to be there. -/
def natural? (base : Nat) (cs : List Char) : Option Nat :=
  if cs.isEmpty then none else valueFrom? base 0 cs

/-- A decimal number below a limit; a plus sign may stand in front. -/
def boundedNatural? (limit : Nat) (text : String) : Option Nat := do
  let digits := match text.toList with
    | '+' :: digits => digits
    | digits => digits
  let value ← natural? 10 digits
  if value < limit then some value else none

/-- A whole number of 64 bits; a sign may stand in front. -/
def int64? (base : Nat) (cs : List Char) : Option Int := do
  let value : Int ← match cs with
    | '+' :: digits => (natural? base digits).map fun n => (n : Int)
    | '-' :: digits => (natural? base digits).map fun n => -(n : Int)
    | digits => (natural? base digits).map fun n => (n : Int)
  if -9223372036854775808 ≤ value ∧ value ≤ 9223372036854775807 then some value else none

/-- A platform level: a number below 2^32. -/
def level? (text : String) : Option Nat := boundedNatural? UInt32.size text

end AndroidLint.Text
