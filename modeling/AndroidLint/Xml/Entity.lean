/-
  File:      AndroidLint/Xml/Entity.lean
  Subject:   Entity references in character data and attribute values.

  `unescape?` replaces `&lt;`, `&gt;`, `&amp;`, `&apos;`, `&quot;` and numeric references by the
  characters they stand for. A text with one bad reference is refused as a whole; `decode` then
  keeps it as it is written.
-/
import AndroidLint.Text.Number

namespace AndroidLint.Xml

/-! ## 1. One reference -/

/-- The character that a named entity stands for. -/
def namedEntity? (name : List Char) : Option Char :=
  if name = "lt".toList then some '<'
  else if name = "gt".toList then some '>'
  else if name = "amp".toList then some '&'
  else if name = "apos".toList then some '\''
  else if name = "quot".toList then some '"'
  else none

/-- The character with a code, when the code is a Unicode scalar value other than zero. -/
def charOfCode? (code : Nat) : Option Char :=
  if code ≠ 0 ∧ code.isValidChar then some (Char.ofNat code) else none

/-- The character that a numeric reference denotes, given what stands after the `#`: up to six
    hexadecimal digits after an `x`, or up to seven decimal digits. No digits denote zero. -/
def numericEntity? : List Char → Option Char
  | 'x' :: digits =>
    if digits.length ≤ 6 then Text.valueFrom? 16 0 digits >>= charOfCode? else none
  | digits =>
    if digits.length ≤ 7 then Text.valueFrom? 10 0 digits >>= charOfCode? else none

/-- The character that a reference denotes, given what stands between `&` and `;`. -/
def entity? : List Char → Option Char
  | '#' :: number => numericEntity? number
  | name => namedEntity? name

/-! ## 2. Whole texts -/

/-- Whether a character ends the search for the end of a reference. -/
def endsReference (c : Char) : Bool := c == '&' || c == ';'

/-- A text with every reference replaced by its character; `none` when a reference has no closing
    semicolon or denotes nothing. -/
def unescape? : List Char → Option (List Char)
  | [] => some []
  | c :: cs =>
    if c = '&' then
      match _found : cs.dropWhile (fun c => !endsReference c) with
      | ';' :: rest =>
        match entity? (cs.takeWhile (fun c => !endsReference c)) with
        | some denoted => (unescape? rest).map (denoted :: ·)
        | none => none
      | _ => none
    else (unescape? cs).map (c :: ·)
termination_by cs => cs.length
decreasing_by
  · have shorter := (List.dropWhile_sublist (fun c => !endsReference c) (l := cs)).length_le
    rw [_found] at shorter
    simp only [List.length_cons] at shorter ⊢
    omega
  · simp

/-- The text with its references replaced, or as it is written when one of them is bad. -/
def decode (written : List Char) : List Char := (unescape? written).getD written

end AndroidLint.Xml
