/-
  File:      AndroidLint/Format/Directive.lean
  Subject:   One format directive as it is written.

  A directive is a percent sign, an argument number with `$`, flags, a width, a precision, the
  letter `t` of a date, and a conversion character; all but the first and the last may be missing:

      %[number$][flags][width][.precision][t]conversion

  Each part takes as much as it can. No other split of the same characters is a directive: digits
  that run up to a `$` can be nothing but the number, a flag zero and a width zero stand in the same
  place, and a `t` is a date only when a conversion follows it.
-/
import AndroidLint.Text.Digit
import AndroidLint.Text.Offset

namespace AndroidLint.Format

open AndroidLint.Text

/-- A directive read from a text. -/
structure Directive where
  /-- The digits of the argument number, when one is written. -/
  number : Option (List Char)
  flags : List Char
  fieldWidth : List Char
  /-- The digits after the point; empty when there is no precision. -/
  precision : List Char
  /-- The letter `t` or `T` of a date or time. -/
  date : Option Char
  conversion : Char
  deriving DecidableEq, Repr

namespace Directive

/-- The characters of a directive. -/
def written (d : Directive) : List Char :=
  '%' :: ((match d.number with | none => [] | some n => n ++ ['$']) ++ d.flags ++ d.fieldWidth ++
    (if d.precision.isEmpty then [] else '.' :: d.precision) ++
    (match d.date with | none => [] | some t => [t]) ++ [d.conversion])

/-- A flag character. -/
def isFlag (c : Char) : Bool := ['-', '+', '#', ',', ' ', '0', '(', '<'].contains c

/-- A conversion character: an ASCII letter or the percent sign. -/
def isConversion (c : Char) : Bool := c.isAlpha || c == '%'

/-- The argument number at the head of a text: digits and then `$`. -/
def readNumber (cs : List Char) : Option (List Char) × List Char :=
  let digits := cs.takeWhile isDigit
  match digits, cs.dropWhile isDigit with
  | _ :: _, '$' :: rest => (some digits, rest)
  | _, _ => (none, cs)

/-- The precision at the head of a text: a point and at least one digit. -/
def readPrecision : List Char → List Char × List Char
  | '.' :: cs =>
    match cs.takeWhile isDigit with
    | [] => ([], '.' :: cs)
    | digits => (digits, cs.dropWhile isDigit)
  | cs => ([], cs)

/-- The date letter and the conversion at the head of a text. -/
def readConversion : List Char → Option (Option Char × Char × List Char)
  | t :: c :: rest =>
    if (t = 't' ∨ t = 'T') ∧ isConversion c then some (some t, c, rest)
    else if isConversion t then some (none, t, c :: rest) else none
  | [c] => if isConversion c then some (none, c, []) else none
  | [] => none

/-- The directive at the head of a text, with what follows it. -/
def read : List Char → Option (Directive × List Char)
  | '%' :: cs => do
    let (number, cs) := readNumber cs
    let flags := cs.takeWhile isFlag
    let cs := cs.dropWhile isFlag
    let fieldWidth := cs.takeWhile isDigit
    let (precision, cs) := readPrecision (cs.dropWhile isDigit)
    let (date, conversion, rest) ← readConversion cs
    pure (⟨number, flags, fieldWidth, precision, date, conversion⟩, rest)
  | _ => none

/-- The value of an argument number: only ASCII digits have one, and it fits in 32 bits. -/
def numberValue? (digits : List Char) : Option Nat :=
  if digits.all Char.isDigit then
    let n := digits.foldl (fun n c => 10 * n + (c.toNat - '0'.toNat)) 0
    if n < UInt32.size then some n else none
  else none

/-! ## What follows a directive is shorter than the text -/

theorem dropWhile_length_le {p : Char → Bool} (cs : List Char) :
    (cs.dropWhile p).length ≤ cs.length :=
  (List.dropWhile_sublist p).length_le

theorem readNumber_length_le (cs : List Char) : (readNumber cs).2.length ≤ cs.length := by
  have h := dropWhile_length_le (p := isDigit) cs
  simp only [readNumber]
  split
  next _ _ _ _ _ hr => rw [hr] at h; simp at h; exact Nat.le_of_succ_le h
  next => exact Nat.le_refl _

theorem readPrecision_length_le (cs : List Char) : (readPrecision cs).2.length ≤ cs.length := by
  unfold readPrecision
  split
  next cs =>
    have h := dropWhile_length_le (p := isDigit) cs
    split
    next => exact Nat.le_refl _
    next => simp only [List.length_cons]; omega
  next => exact Nat.le_refl _

theorem readConversion_length_lt {cs rest : List Char} {t : Option Char} {c : Char}
    (h : readConversion cs = some (t, c, rest)) : rest.length < cs.length := by
  unfold readConversion at h
  split at h
  next =>
    split at h
    next => cases h; simp only [List.length_cons]; omega
    next =>
      split at h
      next => cases h; simp
      next => cases h
  next =>
    split at h
    next => cases h; simp
    next => cases h
  next => cases h

theorem read_length_lt {cs rest : List Char} {d : Directive} (h : read cs = some (d, rest)) :
    rest.length < cs.length := by
  unfold read at h
  split at h
  next cs =>
    simp only [Option.bind_eq_bind, Option.pure_def] at h
    obtain ⟨⟨t, c, r⟩, hc, he⟩ := Option.bind_eq_some_iff.1 h
    cases he
    have h1 := readConversion_length_lt hc
    have h2 := readPrecision_length_le
      (((readNumber cs).2.dropWhile isFlag).dropWhile isDigit)
    have h3 := dropWhile_length_le (p := isDigit) ((readNumber cs).2.dropWhile isFlag)
    have h4 := dropWhile_length_le (p := isFlag) (readNumber cs).2
    have h5 := readNumber_length_le cs
    simp only [List.length_cons]
    omega
  next => cases h

end Directive

end AndroidLint.Format
