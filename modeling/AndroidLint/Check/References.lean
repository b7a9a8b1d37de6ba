/-
  File:      AndroidLint/Check/References.lean
  Subject:   Resource values that refer to a resource of another type.
-/
import AndroidLint.Incident
import AndroidLint.Project

namespace AndroidLint.Check

open Resource (Definition)

/-! ## 1. The content of an element -/

/-- The characters between the tags of an element. -/
def rawContent (file : File) (e : Xml.Element) : List Char :=
  (Text.slice? file.contents.toList e.contentRange).getD []

/-- The bytes between the tags of an element without the blanks at both ends. -/
def trimmedContent (file : File) (e : Xml.Element) : ByteRange :=
  let raw := rawContent file e
  let start := e.contentRange.start + (Text.width raw - Text.width (Text.trimStart raw))
  ⟨start, start + Text.width (Text.trim raw)⟩

/-! ## 2. References -/

/-- The types that a value of a type may refer to. -/
def aliasTypes? (type : String) : Option (List String) :=
  match type with
  | "string" => some ["string"]
  | "color" => some ["color"]
  | "dimen" => some ["dimen"]
  | "bool" => some ["bool"]
  | "integer" => some ["integer"]
  | "drawable" => some ["drawable", "color", "mipmap"]
  | _ => none

/-- The type of the resource that a value refers to, as in `@android:color/white`. -/
def referredType? (value : String) : Option String := do
  let value := String.ofList (Text.trim value.toList)
  let reference ← Text.afterHead? "@" value
  if value = "@null" || value = "@empty" then none
  let (type, _) ← Text.splitFirst? '/' (Text.dropFront (· == '+') reference)
  pure (Text.lastPart ':' type)

/-- An element whose value refers to a type that is not allowed; the first allowed type is the one
    expected. -/
def wrongReference? (file : File) (allowed : List String) (e : Xml.Element) : Option Incident := do
  let type ← referredType? e.text
  let expected ← allowed.head?
  if allowed.contains type then none
  else
    pure <| .new .referenceType (.ofRange file.path file.contents (trimmedContent file e))
      s!"Unexpected resource reference type; expected value of type `@{expected}/`"

/-- The references of a definition that have the wrong type. -/
def wrongReferences (file : File) (d : Definition) : List Incident :=
  match d.element.tag with
  | "string-array" => (d.element.childrenNamed "item").filterMap (wrongReference? file ["string"])
  | "integer-array" => (d.element.childrenNamed "item").filterMap (wrongReference? file ["integer"])
  | _ =>
    match aliasTypes? d.type with
    | some allowed => (wrongReference? file allowed d.element).toList
    | none => []

end AndroidLint.Check
