/-
  File:      AndroidLint/Yaml/Tag.lean
  Subject:   Names, tags and directives.

  A tag is written whole between angle brackets, or as a handle and a suffix. A handle stands for the
  beginning of a tag that a directive gave it.
-/
import AndroidLint.Text.Word
import AndroidLint.Yaml.Scalar

namespace AndroidLint.Yaml

/-! ## 1. Names of anchors -/

/-- Read the name of an anchor; it has to be followed by a blank or an indicator. -/
def readAnchorName (c : Cursor) : Option (String × Cursor) :=
  let name := c.rest.takeWhile Text.isBareChar
  let c := c.skip name.length
  let closed := c.isGapAt 0 ||
    c.head?.any ['?', ':', ',', ']', '\x7d', '%', '@', '\x60'].contains
  if name.isEmpty || !closed then none else some (String.ofList name, c)

/-! ## 2. Tags -/

/-- The characters of the suffix of a tag. -/
def isTagChar (c : Char) : Bool := Text.isBareChar c || ";/?:@&=+$.!~*'()".contains c

/-- The characters of a whole tag. -/
def isWholeTagChar (c : Char) : Bool := isTagChar c || [',', '[', ']'].contains c

/-- An octet written as a percent sign and two digits. -/
def readOctet : List Char → Option (Nat × List Char)
  | '%' :: a :: b :: rest => (Text.natural? 16 [a, b]).map fun n => (n, rest)
  | _ => none

/-- Further octets of a character. -/
def readFurtherOctets : Nat → (code : Nat) → List Char → Option (Nat × List Char)
  | 0, code, cs => some (code, cs)
  | n + 1, code, cs => do
    let (octet, cs) ← readOctet cs
    if octet / 64 = 2 then readFurtherOctets n (code * 64 + octet % 64) cs else none

/-- A character written in octets, and what follows it. Octets that stand for no character count as
    the replacement character. -/
def readOctets (cs : List Char) : Option (Char × List Char) := do
  let (first, cs) ← readOctet cs
  let (further, start, least) ←
    if first < 0x80 then some (0, first, 0)
    else if 0xC0 ≤ first && first < 0xE0 then some (1, first % 32, 0x80)
    else if 0xE0 ≤ first && first < 0xF0 then some (2, first % 16, 0x800)
    else if 0xF0 ≤ first && first < 0xF8 then some (3, first % 8, 0x10000)
    else none
  let (code, cs) ← readFurtherOctets further start cs
  let decoded := if least ≤ code then charOfCode? code else none
  pure (decoded.getD '\ufffd', cs)

/-- The characters of a tag that satisfy `p`, with octets decoded. -/
def readTagTextFrom (p : Char → Bool) : Nat → List Char → Option (List Char × List Char)
  | 0, cs => some ([], cs)
  | fuel + 1, cs =>
    match cs with
    | [] => some ([], [])
    | '%' :: _ => do
      let (ch, rest) ← readOctets cs
      let (text, rest) ← readTagTextFrom p fuel rest
      pure (ch :: text, rest)
    | ch :: rest =>
      if p ch then (readTagTextFrom p fuel rest).map fun (text, rest) => (ch :: text, rest)
      else some ([], ch :: rest)

/-- The characters of a tag that satisfy `p`, with octets decoded. -/
def readTagText (p : Char → Bool) (c : Cursor) : Option (List Char × Cursor) :=
  (readTagTextFrom p c.rest.length c.rest).map fun (text, rest) =>
    (text, c.skip (c.rest.length - rest.length))

/-- A handle: an exclamation mark, perhaps with a name and a second one after it. -/
def readHandle (c : Cursor) : Option (List Char × Cursor) :=
  if c.head? = some '!' then
    let name := (c.rest.drop 1).takeWhile Text.isBareChar
    let c := c.skip (1 + name.length)
    if c.head? = some '!' then some ('!' :: name ++ ['!'], c.skip 1) else some ('!' :: name, c)
  else none

/-- A tag as a handle and a suffix. A whole tag has an empty handle. -/
def readTagParts (c : Cursor) : Option (String × String × Cursor) := do
  if c.rest[1]? = some '<' then
    let (text, c) ← readTagText isWholeTagChar (c.skip 2)
    if text.isEmpty || c.head? ≠ some '>' then none
    else pure ("", String.ofList text, c.skip 1)
  else
    let (handle, c) ← readHandle c
    let (text, c) ← readTagText isTagChar c
    if 1 < handle.length && handle.getLast? = some '!' then
      if text.isEmpty then none else pure (String.ofList handle, String.ofList text, c)
    else
      let suffix := handle.drop 1 ++ text
      if suffix.isEmpty then pure ("", "!", c) else pure ("!", String.ofList suffix, c)

/-- Read a tag; it has to be followed by a blank, or by a comma inside brackets. -/
def readTag (inFlow : Bool) (c : Cursor) : Option (String × String × Cursor) := do
  let (handle, suffix, c) ← readTagParts c
  if c.isGapAt 0 || (inFlow && c.head? = some ',') then pure (handle, suffix, c) else none

/-! ## 3. Directives -/

/-- A line in front of a document. -/
inductive Directive where
  | version (major minor : Nat)
  | tag (handle lead : String)
  deriving DecidableEq, Repr

/-- A number of a version, of nine digits at most. -/
def readVersionNumber (c : Cursor) : Option (Nat × Cursor) :=
  let digits := c.rest.takeWhile Char.isDigit
  if digits.length ≤ 9 then
    (Text.natural? 10 digits).map fun n => (n, c.skip digits.length)
  else none

/-- Read a directive whose percent sign is passed, to the next line. -/
def readDirective (c : Cursor) : Option (Directive × Cursor) := do
  let name := c.rest.takeWhile Text.isBareChar
  let c := c.skip name.length
  if !c.isGapAt 0 then none
  let c := c.skipWhile Text.isInlineBlank
  if name = "YAML".toList then
    let (major, c) ← readVersionNumber c
    if c.head? ≠ some '.' then none
    let (minor, c) ← readVersionNumber (c.skip 1)
    let c ← skipRestOfLine c
    pure (.version major minor, c)
  else if name = "TAG".toList then
    let (handle, c) ← readHandle c
    if 1 < handle.length && handle.getLast? ≠ some '!' then none
    if !c.head?.any Text.isInlineBlank then none
    let (lead, c) ← readTagText isWholeTagChar (c.skipWhile Text.isInlineBlank)
    if lead.isEmpty || !c.isGapAt 0 then none
    let c ← skipRestOfLine c
    pure (.tag (String.ofList handle) (String.ofList lead), c)
  else none

end AndroidLint.Yaml
