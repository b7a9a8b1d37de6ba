/-
  File:      AndroidLint/Format/Specifier.lean
  Subject:   The specifiers of a format string, numbered.

  Directives are found from left to right. A backslash takes the meaning from the character after
  it, so an escaped percent sign begins no directive, and the search goes on right after it.

  `%%` and `%n` format no argument and have index zero. A directive with a written number has that
  number, and the ones after it count on from there; the others count on from the one before.
-/
import AndroidLint.Format.Conversion
import AndroidLint.Format.Directive

namespace AndroidLint.Format

open AndroidLint.Text

/-- A format specifier found in a text. -/
structure Specifier where
  /-- The argument it formats, counted from one; zero for `%%` and `%n` and for a number that does
      not fit in 32 bits. -/
  index : Nat
  /-- Whether the argument number is written. -/
  explicit : Bool
  flags : String
  date : Bool
  conversion : Char
  range : ByteRange
  deriving DecidableEq, Repr

/-! ## 1. Finding directives -/

/-- The first directive of a text, with the characters before it and after it. -/
def search : List Char → Option (List Char × Directive × List Char)
  | [] => none
  | c :: cs =>
    match Directive.read (c :: cs) with
    | some (d, rest) => some ([], d, rest)
    | none => (search cs).map fun found => (c :: found.1, found.2)

theorem search_length_lt {cs skipped rest : List Char} {d : Directive}
    (h : search cs = some (skipped, d, rest)) : skipped.length + rest.length < cs.length := by
  induction cs generalizing skipped with
  | nil => simp [search] at h
  | cons c cs ih =>
    simp only [search] at h
    split at h
    next hr =>
      cases h
      simpa using Directive.read_length_lt hr
    next =>
      obtain ⟨⟨s, d', r⟩, hs, he⟩ := Option.map_eq_some_iff.1 h
      cases he
      have := ih hs
      simp only [List.length_cons]
      omega

/-- Whether the character after a run is escaped: an unescaped backslash escapes the next one. -/
def escapedAfter (cs : List Char) : Bool := cs.foldl (fun escaped c => !escaped && c == '\\') false

/-- The directives of a text that begins at byte `offset`, each with the bytes it takes. -/
def locate (offset : Nat) (cs : List Char) : List (Directive × ByteRange) :=
  match _found : search cs with
  | none => []
  | some (skipped, d, rest) =>
    let start := offset + width skipped
    if escapedAfter skipped then
      locate (start + 1) (cs.drop (skipped.length + 1))
    else
      let stop := start + width d.written
      (d, ⟨start, stop⟩) :: locate stop rest
termination_by cs.length
decreasing_by
  all_goals have := search_length_lt _found
  · simp only [List.length_drop]; omega
  · omega

/-! ## 2. Numbering them -/

/-- The largest argument number. -/
def maxIndex : Nat := UInt64.size - 1

/-- The number after `n`; counting stops at the largest. -/
def following (n : Nat) : Nat := min (n + 1) maxIndex

namespace Directive

/-- Directives that format no argument. -/
def isLiteral (d : Directive) : Bool := d.conversion == '%' || d.conversion == 'n'

/-- The specifier of a directive once its number is known. -/
def toSpecifier (d : Directive) (range : ByteRange) (index : Nat) (explicit : Bool) : Specifier :=
  ⟨index, explicit, String.ofList d.flags, d.date.isSome, d.conversion, range⟩

end Directive

/-- Number directives, where `next` is the number that an unnumbered one gets. -/
def number (next : Nat) : List (Directive × ByteRange) → List Specifier
  | [] => []
  | (d, range) :: ds =>
    if d.isLiteral then d.toSpecifier range 0 false :: number next ds
    else
      match d.number with
      | none => d.toSpecifier range next false :: number (following next) ds
      | some digits =>
        match Directive.numberValue? digits with
        | some k => d.toSpecifier range k true :: number (following k) ds
        | none => d.toSpecifier range 0 true :: number next ds

/-- The specifiers of a format string. -/
def specifiers (text : String) : List Specifier := number 1 (locate 0 text.toList)

/-! ## 3. Questions about them -/

namespace Specifier

/-- Specifiers that format no argument. -/
def isLiteral (s : Specifier) : Bool := s.conversion == '%' || s.conversion == 'n'

/-- What the specifier formats. -/
def conversionClass (s : Specifier) : ConversionClass :=
  if s.date then .dateTime else .ofChar s.conversion

/-- Whether the specifier takes argument `k`. -/
def takes (s : Specifier) (k : Nat) : Bool := !s.isLiteral && s.index == k

end Specifier

/-- Add a number to an ascending list without repetition. -/
def insertAscending (n : Nat) : List Nat → List Nat
  | [] => [n]
  | m :: ms => if n < m then n :: m :: ms else if n = m then m :: ms else m :: insertAscending n ms

/-- The arguments that a list of specifiers takes, ascending. -/
def argumentIndices (specs : List Specifier) : List Nat :=
  (specs.filter fun s => !s.isLiteral && 0 < s.index).foldl (fun is s => insertAscending s.index is) []

/-- The number of arguments that a list of specifiers takes: the highest number among them. -/
def argumentCount (specs : List Specifier) : Nat :=
  (specs.filter fun s => !s.isLiteral && 0 < s.index).foldl (fun n s => max n s.index) 0

/-- The first specifier that takes argument `k`. -/
def specifierFor (specs : List Specifier) (k : Nat) : Option Specifier := specs.find? (·.takes k)

/-- The conversion character of an argument. -/
def argumentConversion (specs : List Specifier) (k : Nat) : Option Char :=
  (specifierFor specs k).map (·.conversion)

/-- Whether the formatted text depends on the locale: decimal integers, floating point numbers and
    dates do. -/
def isLocaleSpecific (specs : List Specifier) : Bool :=
  specs.any fun s => s.date || ['d', 'e', 'E', 'f', 'g', 'G', 't', 'T'].contains s.conversion

end AndroidLint.Format
