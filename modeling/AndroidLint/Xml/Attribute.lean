/-
  File:      AndroidLint/Xml/Attribute.lean
  Subject:   Attributes and their places in a start tag.

  A start tag is read once more, from the end of its name on, to find where each attribute and its
  value stand. `Attribute.read` reads one attribute, `attributesFrom` all of them, and
  `attributesOf` those of a tag that lies somewhere in a text.
-/
import AndroidLint.Text.Offset
import AndroidLint.Text.Split
import AndroidLint.Xml.Entity
import AndroidLint.Xml.Error

namespace AndroidLint.Xml

/-- An attribute of an element. -/
structure Attribute where
  /-- The name as written, with its qualifier. -/
  name : String
  /-- The value with its references replaced. -/
  value : String
  /-- From the first character of the name to the closing quote. -/
  range : ByteRange
  /-- What stands between the quotes. -/
  valueRange : ByteRange
  /-- The namespace that the qualifier is bound to where the attribute stands. -/
  uri : Option String
  deriving DecidableEq, Repr

namespace Attribute

/-- The part of the name after its last colon. -/
def localName (a : Attribute) : String := Text.lastPart ':' a.name

/-- The part of the name before its first colon. -/
def qualifier? (a : Attribute) : Option String := (Text.splitFirst? ':' a.name).map (·.1)

/-- Whether the attribute binds a namespace to a qualifier. -/
def bindsNamespace (a : Attribute) : Bool := a.qualifier? == some "xmlns"

end Attribute

/-! ## 1. One attribute -/

/-- The blanks that may stand between the parts of a tag. -/
def isTagBlank (c : Char) : Bool :=
  c == ' ' || c == '\t' || c == '\n' || c == '\x0C' || c == '\r'

/-- Whether a character belongs to an attribute's name. -/
def isNameChar (c : Char) : Bool := !(c == '=' || isTagBlank c || c == '>')

/-- The part of a tag that is still to be read. -/
structure TagRest where
  /-- Where it begins in the text. -/
  offset : Nat
  text : List Char
  /-- Whether the tag ends inside a character, so that nothing may reach its end. -/
  torn : Bool

namespace TagRest

/-- Split off the characters in front that satisfy `p`. -/
def take (p : Char → Bool) (r : TagRest) : List Char × TagRest :=
  let front := r.text.takeWhile p
  (front, { r with offset := r.offset + Text.width front, text := r.text.dropWhile p })

/-- Without the blanks in front. -/
def skipBlanks (r : TagRest) : TagRest := (r.take isTagBlank).2

theorem length_take_le (p : Char → Bool) (r : TagRest) :
    (r.take p).2.text.length ≤ r.text.length :=
  (List.dropWhile_sublist p).length_le

theorem length_skipBlanks_le (r : TagRest) : r.skipBlanks.text.length ≤ r.text.length :=
  length_take_le _ r

/-- Split off a run that must end before the end of a torn tag. -/
def takeWhole (p : Char → Bool) (r : TagRest) : Except Error (List Char × TagRest) :=
  let (front, rest) := r.take p
  if rest.text.isEmpty && rest.torn then .error .torn else .ok (front, rest)

theorem length_takeWhole_le {p : Char → Bool} {r rest : TagRest} {front : List Char}
    (h : r.takeWhole p = .ok (front, rest)) : rest.text.length ≤ r.text.length := by
  simp only [takeWhole] at h
  split at h
  next => cases h
  next =>
    obtain ⟨_, rfl⟩ := Prod.mk.inj (Except.ok.inj h)
    exact length_take_le p r

end TagRest

/-- The value of the attribute `name`, which begins at `start`; `r` begins with the opening
    quote. -/
def Attribute.readValue (name : String) (start : Nat) (r : TagRest) :
    Except Error (Attribute × TagRest) :=
  match r.text with
  | [] => .error (.malformed r.offset (.unquoted name))
  | quote :: text =>
    if quote = '"' ∨ quote = '\'' then
      let inside : TagRest := { r with offset := r.offset + 1, text }
      match inside.takeWhole (· != quote) with
      | .error e => .error e
      | .ok (written, rest) =>
        let after : TagRest := match rest.text with
          | [] => rest
          | _ :: text => { rest with offset := rest.offset + 1, text }
        .ok ({ name, value := String.ofList (decode written), range := ⟨start, after.offset⟩,
               valueRange := ⟨inside.offset, rest.offset⟩, uri := none }, after)
    else .error (.malformed r.offset (.unquoted name))

/-- One attribute; `r` begins with its name. -/
def Attribute.read (r : TagRest) : Except Error (Attribute × TagRest) :=
  match r.takeWhole isNameChar with
  | .error e => .error e
  | .ok (written, rest) =>
    let name := String.ofList written
    let sign := rest.skipBlanks
    match sign.text with
    | '=' :: text =>
      let value : TagRest := { sign with offset := sign.offset + 1, text }
      Attribute.readValue name r.offset value.skipBlanks
    | _ => .error (.malformed sign.offset (.noValue name))

theorem Attribute.length_readValue_le {name : String} {start : Nat} {r rest : TagRest}
    {a : Attribute} (h : Attribute.readValue name start r = .ok (a, rest)) :
    rest.text.length ≤ r.text.length := by
  unfold Attribute.readValue at h
  split at h
  next => cases h
  next quote text hr =>
    split at h
    next =>
      simp only at h
      split at h
      next => cases h
      next written inner hw =>
        obtain ⟨_, rfl⟩ := Prod.mk.inj (Except.ok.inj h)
        have hle := TagRest.length_takeWhole_le hw
        simp only [hr, List.length_cons] at hle ⊢
        split
        next => omega
        next he => simp only [he, List.length_cons] at hle; simp only; omega
    next => cases h

/-- Reading an attribute leaves less of the tag. -/
theorem Attribute.length_read_lt {r rest : TagRest} {a : Attribute}
    (h : Attribute.read r = .ok (a, rest)) : rest.text.length < r.text.length := by
  unfold Attribute.read at h
  split at h
  next => cases h
  next written inner hw =>
    simp only at h
    split at h
    next text hs =>
      have h1 := TagRest.length_takeWhole_le hw
      have h2 := TagRest.length_skipBlanks_le inner
      have h3 := Attribute.length_readValue_le h
      have h4 := TagRest.length_skipBlanks_le
        { inner.skipBlanks with offset := inner.skipBlanks.offset + 1, text }
      simp only [hs, List.length_cons] at h2
      simp only at h4
      omega
    next => cases h

/-! ## 2. All attributes of a tag -/

/-- The attributes from here to the end of the tag. -/
def attributesFrom (r : TagRest) : Except Error (List Attribute) :=
  let next := r.skipBlanks
  if next.text.isEmpty && !next.torn then .ok []
  else if next.text.head? = some '>' ∨ next.text.head? = some '/' then .ok []
  else
    match _found : Attribute.read next with
    | .error e => .error e
    | .ok (a, rest) => (attributesFrom rest).map (a :: ·)
termination_by r.text.length
decreasing_by
  have h1 : rest.text.length < r.skipBlanks.text.length := Attribute.length_read_lt _found
  have h2 := TagRest.length_skipBlanks_le r
  omega

/-- The attributes of the tag that takes a range of the text and whose name is as wide as said. -/
def attributesOf (contents : List Char) (range : ByteRange) (nameWidth : Nat) :
    Except Error (List Attribute) :=
  let start := range.start + 1 + nameWidth
  let stop := min range.stop (Text.width contents)
  if stop ≤ start then .ok []
  else
    match Text.cut? start contents with
    | none => .error .torn
    | some (_, after) =>
      let text := Text.before (stop - start) after
      attributesFrom ⟨start, text, Text.width text < stop - start⟩

end AndroidLint.Xml
