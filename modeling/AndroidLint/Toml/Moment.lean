/-
  File:      AndroidLint/Toml/Moment.lean
  Subject:   Dates and times.
-/
import AndroidLint.Text.Number
import AndroidLint.Toml.Value

namespace AndroidLint.Toml

/-- A number of exactly `n` digits within bounds, and what follows it. -/
def readField (n least greatest : Nat) (cs : List Char) : Option (Nat × List Char) := do
  let digits := cs.take n
  if digits.length = n then
    let value ← Text.natural? 10 digits
    if least ≤ value ∧ value ≤ greatest then some (value, cs.drop n) else none
  else none

/-- What follows a character that has to stand here. -/
def expect (c : Char) (cs : List Char) : Option (List Char) :=
  if cs.head? = some c then some (cs.drop 1) else none

/-- The number of days of a month. -/
def daysOf (year month : Nat) : Nat :=
  if month = 2 then (if year % 4 = 0 ∧ (year % 100 ≠ 0 ∨ year % 400 = 0) then 29 else 28)
  else if month = 4 ∨ month = 6 ∨ month = 9 ∨ month = 11 then 30
  else 31

/-- Read a date; its text and what follows it. -/
def readDate (cs : List Char) : Option (List Char × List Char) := do
  let (year, rest) ← readField 4 0 9999 cs
  let rest ← expect '-' rest
  let (month, rest) ← readField 2 1 12 rest
  let rest ← expect '-' rest
  let (_, rest) ← readField 2 1 (daysOf year month) rest
  pure (cs.take 10, rest)

/-- The digits after the second, of which nine count and zeros at the end do not. -/
def fractionText (digits : List Char) : List Char :=
  let kept := ((digits.take 9).reverse.dropWhile (· == '0')).reverse
  if kept.isEmpty then [] else '.' :: kept

/-- Read a time of day; its text and what follows it. -/
def readTime (cs : List Char) : Option (List Char × List Char) := do
  let (_, rest) ← readField 2 0 23 cs
  let rest ← expect ':' rest
  let (_, rest) ← readField 2 0 59 rest
  let rest ← expect ':' rest
  let (_, rest) ← readField 2 0 60 rest
  match rest with
  | '.' :: rest =>
    let digits := rest.takeWhile Char.isDigit
    if digits.isEmpty then none
    else pure (cs.take 8 ++ fractionText digits, rest.drop digits.length)
  | _ => pure (cs.take 8, rest)

/-- Read the distance from the prime meridian's time; its text and what follows it. -/
def readOffset (cs : List Char) : Option (List Char × List Char) :=
  match cs with
  | 'Z' :: rest | 'z' :: rest => some (['Z'], rest)
  | sign :: rest =>
    if sign = '+' ∨ sign = '-' then do
      let (hours, after) ← readField 2 0 23 rest
      let after ← expect ':' after
      let (minutes, after) ← readField 2 0 59 after
      let sign := if hours = 0 ∧ minutes = 0 then '+' else sign
      pure (sign :: rest.take 5, after)
    else none
  | [] => none

/-- The text of a time of day with nothing after it but perhaps an offset. -/
def timeText? (offsetAllowed : Bool) (cs : List Char) : Option (List Char) := do
  let (time, rest) ← readTime cs
  if rest.isEmpty then pure time
  else if offsetAllowed then
    let (offset, rest) ← readOffset rest
    if rest.isEmpty then pure (time ++ offset) else none
  else none

/-- The text of a date, a time or both. -/
def moment? (cs : List Char) : Option String :=
  match readDate cs with
  | some (date, []) => some (String.ofList date)
  | some (date, mark :: rest) =>
    if mark = 'T' ∨ mark = 't' ∨ mark = ' ' then
      (timeText? true rest).map fun time => String.ofList (date ++ 'T' :: time)
    else none
  | none => (timeText? false cs).map String.ofList

end AndroidLint.Toml
