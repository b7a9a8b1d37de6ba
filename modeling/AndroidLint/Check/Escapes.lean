/-
  File:      AndroidLint/Check/Escapes.lean
  Subject:   Apostrophes and escapes in string values.

  An apostrophe needs a backslash in front of it, unless it stands between double quotes. A `\u`
  needs four hexadecimal digits after it. Tags, comments and CDATA sections are passed over.
-/
import AndroidLint.Check.References

namespace AndroidLint.Check

open Resource (Definition)

/-- What is wrong with an escape. -/
inductive EscapeProblem where
  | apostrophe
  | unicodeEscape
  deriving DecidableEq, Repr

namespace EscapeProblem

/-! ## 1. Markup -/

/-- What ends the piece of markup at the head of a text. -/
def markupEnd (cs : List Char) : List Char :=
  if (Text.dropHead? "<!--".toList cs).isSome then "-->".toList
  else if (Text.dropHead? "<![CDATA[".toList cs).isSome then "]]>".toList
  else ['>']

/-- What follows the piece of markup at the head of a text; nothing when it does not end. -/
def afterMarkup (cs : List Char) : List Char :=
  match Text.splitAt? (markupEnd cs) cs with
  | some (_, rest) => rest
  | none => []

theorem markupEnd_ne_nil (cs : List Char) : markupEnd cs ≠ [] := by
  unfold markupEnd
  split
  · decide
  · split <;> decide

theorem afterMarkup_length_lt {cs : List Char} (h : cs ≠ []) :
    (afterMarkup cs).length < cs.length := by
  have hpos := List.length_pos_iff.2 h
  unfold afterMarkup
  split
  next hs =>
    have := Text.splitAt?_length hs
    have := List.length_pos_iff.2 (markupEnd_ne_nil cs)
    omega
  next => simpa using hpos

/-! ## 2. Character data -/

/-- Whether four hexadecimal digits are at the head of a text. -/
def fourHexDigits (cs : List Char) : Bool :=
  (cs.take 4).length == 4 && (cs.take 4).all fun c => (Text.digitValue? 16 c).isSome

/-- The first problem in a text that begins at byte `offset`; `quoted` says whether it begins between
    double quotes. -/
def findFrom (quoted : Bool) (offset : Nat) : List Char → Option (ByteRange × EscapeProblem)
  | [] => none
  | '<' :: cs =>
    let rest := afterMarkup ('<' :: cs)
    findFrom quoted (offset + (Text.width ('<' :: cs) - Text.width rest)) rest
  | '\\' :: cs =>
    match cs with
    | [] => none
    | c :: cs =>
      if c = 'u' then
        if fourHexDigits cs then findFrom quoted (offset + 6) (cs.drop 4)
        else some (⟨offset, offset + 2 + Text.width (cs.take 4)⟩, .unicodeEscape)
      else findFrom quoted (offset + 1 + c.utf8Size) cs
  | '"' :: cs => findFrom (!quoted) (offset + 1) cs
  | '&' :: cs =>
    match _quote : Text.dropHead? "quot;".toList cs with
    | some rest => findFrom (!quoted) (offset + 6) rest
    | none =>
      match _apostrophe : Text.dropHead? "apos;".toList cs with
      | some rest =>
        if quoted then findFrom quoted (offset + 6) rest
        else some (⟨offset, offset + 6⟩, .apostrophe)
      | none => findFrom quoted (offset + 1) cs
  | '\'' :: cs =>
    if quoted then findFrom quoted (offset + 1) cs
    else some (⟨offset, offset + 1⟩, .apostrophe)
  | c :: cs => findFrom quoted (offset + c.utf8Size) cs
termination_by cs => cs.length
decreasing_by
  · exact afterMarkup_length_lt (by simp)
  · simp only [List.length_drop, List.length_cons]; omega
  · simp only [List.length_cons]; omega
  · simp only [List.length_cons]; omega
  · have := Text.dropHead?_length _quote; simp only [List.length_cons]; omega
  · have := Text.dropHead?_length _apostrophe; simp only [List.length_cons]; omega
  · simp only [List.length_cons]; omega
  · simp only [List.length_cons]; omega
  · simp only [List.length_cons]; omega

/-- The first problem in the content of an element. -/
def find? (raw : List Char) : Option (ByteRange × EscapeProblem) := findFrom false 0 raw

end EscapeProblem

/-! ## 3. Strings -/

/-- Whether a value is a reference to a resource or an attribute. -/
def isReference (raw : List Char) : Bool :=
  match Text.trimStart raw with
  | c :: _ => c == '@' || c == '?'
  | [] => false

/-- The first problem in the content of an element, with a correction for an apostrophe. -/
def badEscape? (file : File) (e : Xml.Element) : Option Incident := do
  let raw := rawContent file e
  if isReference raw then none
  let (range, problem) ← EscapeProblem.find? raw
  let range := range.shift e.contentRange.start
  let location := Location.ofRange file.path file.contents range
  match problem with
  | .apostrophe =>
    pure <| (Incident.new .stringEscaping location "Apostrophe not preceded by \\").fixedBy
      (.replacing "Escape Apostrophe" file.path range "\\'")
  | .unicodeEscape =>
    pure <| .new .stringEscaping location "Bad character in \\u unicode escape sequence"

/-- The first problem in each string of a definition. -/
def badEscapes (file : File) (d : Definition) : List Incident :=
  match d.element.tag with
  | "string" => (badEscape? file d.element).toList
  | "string-array" | "plurals" => (d.element.childrenNamed "item").filterMap (badEscape? file)
  | _ => []

end AndroidLint.Check
