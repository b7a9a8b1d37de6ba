/-
  File:      AndroidLint/Format/Conversion.lean
  Subject:   Conversion characters of format strings and the classes they fall into.
-/

namespace AndroidLint.Format

/-- What kind of argument a conversion character formats. -/
inductive ConversionClass where
  | string
  | character
  | integer
  | float
  | boolean
  | hash
  | dateTime
  | percent
  | newline
  | unknown
  deriving DecidableEq, Repr

namespace ConversionClass

/-- The class of a conversion character. -/
def ofChar (c : Char) : ConversionClass :=
  if c ∈ ['s', 'S'] then .string
  else if c ∈ ['c', 'C'] then .character
  else if c ∈ ['d', 'o', 'x', 'X'] then .integer
  else if c ∈ ['e', 'E', 'f', 'g', 'G', 'a', 'A'] then .float
  else if c ∈ ['b', 'B'] then .boolean
  else if c ∈ ['h', 'H'] then .hash
  else if c ∈ ['t', 'T'] then .dateTime
  else if c = '%' then .percent
  else if c = 'n' then .newline
  else .unknown

/-- Whether two conversions of one argument cannot both be right. A class that is not known clashes
    with nothing. -/
def clashes (a b : ConversionClass) : Bool := a != b && a != unknown && b != unknown

end ConversionClass

end AndroidLint.Format
