/-
  File:      AndroidLint/Decimal/Shortest.lean
  Subject:   The decimal with the fewest digits that stands for a floating point number.

  A finite number is `mantissa · 2 ^ exponent`. The reals that round to it form an interval, which
  contains its ends when the mantissa is even. A decimal stands for the number when it lies in the
  interval. Of the multiples of `10 ^ e` only the two neighbours of the number need a look: if any of
  them lies in the interval, one of these does. The largest `e` with a hit gives the fewest digits.
-/

namespace AndroidLint.Decimal

/-! ## 1. Numbers as fractions -/

/-- A positive number `mantissa · 2 ^ exponent`; `isPower` marks a least mantissa, below which
    numbers lie closer together. -/
structure Binary where
  mantissa : Nat
  exponent : Int
  isPower : Bool
  deriving DecidableEq, Repr

/-- A decimal `digits · 10 ^ exponent`. -/
structure Scaled where
  digits : Nat
  exponent : Int
  deriving DecidableEq, Repr

namespace Binary

/-- The number and its interval in units of a quarter of the last place, on a common scale with
    `10 ^ e`: the number is `value / unit` times `10 ^ e`, and so for the two ends. -/
structure Grid where
  low : Nat
  value : Nat
  high : Nat
  unit : Nat

/-- The number seen on the multiples of `10 ^ e`. -/
def grid (b : Binary) (e : Int) : Grid :=
  let scale := Nat.pow 2 b.exponent.toNat * Nat.pow 10 (-e).toNat
  let below := if b.isPower then 1 else 2
  { low := (4 * b.mantissa - below) * scale
    value := 4 * b.mantissa * scale
    high := (4 * b.mantissa + 2) * scale
    unit := 4 * Nat.pow 10 e.toNat * Nat.pow 2 (-b.exponent).toNat }

/-- Whether the `n`-th multiple stands for the number. -/
def stands (b : Binary) (g : Grid) (n : Nat) : Bool :=
  0 < n && (if b.mantissa % 2 = 0 then g.low ≤ n * g.unit && n * g.unit ≤ g.high
    else g.low < n * g.unit && n * g.unit < g.high)

/-- The multiple of `10 ^ e` nearest to the number that stands for it, if any. Halfway the greater
    one is taken. -/
def nearest? (b : Binary) (e : Int) : Option Scaled :=
  let g := b.grid e
  let n := g.value / g.unit
  match b.stands g n, b.stands g (n + 1) with
  | true, true => some ⟨if 2 * (g.value % g.unit) < g.unit then n else n + 1, e⟩
  | true, false => some ⟨n, e⟩
  | false, true => some ⟨n + 1, e⟩
  | false, false => none

/-- The decimal with the fewest digits that stands for the number. The exponents tried reach from
    above the largest finite number to below the least place of the smallest one. -/
def shortest (b : Binary) : Scaled :=
  ((List.range 700).findSome? fun (k : Nat) => b.nearest? (310 - (k : Int))).getD ⟨0, 0⟩

end Binary

/-! ## 2. Floating point numbers -/

/-- What a number in 64 bits is, its sign aside. -/
inductive Magnitude where
  | zero
  | finite (number : Binary)
  | infinite
  | notNumber
  deriving DecidableEq, Repr

/-- Whether the sign bit is set. -/
def isNegative (x : Float) : Bool := x.toBits.toNat / Nat.pow 2 63 == 1

/-- Take the bits of a number apart. -/
def magnitude (x : Float) : Magnitude :=
  let bits := x.toBits.toNat
  let biased : Nat := bits / Nat.pow 2 52 % Nat.pow 2 11
  let fraction : Nat := bits % Nat.pow 2 52
  if biased = 2047 then (if fraction = 0 then .infinite else .notNumber)
  else if biased = 0 then
    if fraction = 0 then .zero else .finite ⟨fraction, -1074, false⟩
  else .finite ⟨Nat.pow 2 52 + fraction, (biased : Int) - 1075, fraction = 0 && 1 < biased⟩

/-! ## 3. Texts -/

/-- A decimal written out without an exponent. -/
def Scaled.text (d : Scaled) : String :=
  let digits := Nat.toDigits 10 d.digits
  if 0 ≤ d.exponent then String.ofList (digits ++ List.replicate d.exponent.toNat '0')
  else
    let places := (-d.exponent).toNat
    let padded := List.replicate (places + 1 - digits.length) '0' ++ digits
    String.ofList (padded.take (padded.length - places) ++ ['.'] ++
      padded.drop (padded.length - places))

/-- The value of a number that is whole and below ten million. -/
def smallWhole? : Magnitude → Option Nat
  | .zero => some 0
  | .finite b =>
    let scaled := b.mantissa * Nat.pow 2 b.exponent.toNat
    let divisor := Nat.pow 2 (-b.exponent).toNat
    if scaled % divisor = 0 && scaled / divisor < 10000000 then some (scaled / divisor) else none
  | _ => none

/-- A number as messages show it: a small whole number with one place after the point, any other
    with the fewest digits. -/
def text (x : Float) : String :=
  let unsigned :=
    match smallWhole? (magnitude x), magnitude x with
    | some n, _ => toString n ++ ".0"
    | none, .finite b => b.shortest.text
    | none, .infinite => "inf"
    | none, _ => "NaN"
  if isNegative x && unsigned != "NaN" then "-" ++ unsigned else unsigned

end AndroidLint.Decimal
