/-
  File:      AndroidLint/Resource/Values.lean
  Subject:   The resources that a values file defines.
-/
import AndroidLint.Xml.Document

namespace AndroidLint.Resource

/-- The type of resource that an element of a values file defines. An `item` names its type
    itself. -/
def typeOf? (e : Xml.Element) : Option String :=
  match e.tag with
  | "string" => some "string"
  | "color" => some "color"
  | "dimen" => some "dimen"
  | "style" => some "style"
  | "string-array" | "integer-array" | "array" => some "array"
  | "plurals" => some "plurals"
  | "bool" => some "bool"
  | "integer" => some "integer"
  | "attr" => some "attr"
  | "fraction" => some "fraction"
  | "drawable" => some "drawable"
  | "declare-styleable" => some "styleable"
  | "item" => (e.attribute? "type").map (·.value)
  | _ => none

/-- The name of the field that a resource gets: `.`, `-` and `:` become `_`. -/
def fieldName (name : String) : String :=
  String.ofList (name.toList.map fun c => if c = '.' ∨ c = '-' ∨ c = ':' then '_' else c)

/-- One resource defined in a values file. -/
structure Definition where
  type : String
  /-- The name as written. -/
  name : String
  /-- The whole attribute that gives the name. -/
  nameRange : ByteRange
  element : Xml.Element

/-- The field of the resource. -/
def Definition.field (d : Definition) : String := fieldName d.name

/-- The resource that an element defines, when it has a type and a name. -/
def Definition.ofElement? (e : Xml.Element) : Option Definition := do
  let type ← typeOf? e
  let name ← e.attribute? "name"
  pure { type, name := name.value, nameRange := name.range, element := e }

/-- The resources of a document, in document order. Only children of a `resources` root count. -/
def definitions (root : Xml.Element) : List Definition :=
  if root.tag = "resources" then root.children.filterMap Definition.ofElement? else []

/-- The strings among some resources. -/
def strings (ds : List Definition) : List Definition := ds.filter (·.type == "string")

end AndroidLint.Resource
