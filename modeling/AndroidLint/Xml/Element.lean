/-
  File:      AndroidLint/Xml/Element.lean
  Subject:   Elements with the places of their parts.
-/
import AndroidLint.Xml.Attribute

namespace AndroidLint.Xml

/-- The namespace of the attributes that the platform itself defines. -/
def androidUri : String := "http://schemas.android.com/apk/res/android"

/-- An element of a document. -/
structure Element where
  tag : String
  attributes : List Attribute
  children : List Element
  /-- The character data of the element and of all elements inside it. -/
  text : String
  /-- From the `<` of the start tag to the `>` of the end tag. -/
  range : ByteRange
  /-- Between the two tags; empty when one tag is both. -/
  contentRange : ByteRange

namespace Element

/-! ## 1. Parts -/

/-- Where the name stands in the start tag. -/
def nameRange (e : Element) : ByteRange :=
  ⟨e.range.start + 1, e.range.start + 1 + e.tag.utf8ByteSize⟩

/-- The first attribute with a name, as it is written. -/
def attribute? (e : Element) (name : String) : Option Attribute :=
  e.attributes.find? (·.name == name)

/-- The first attribute of the platform's namespace with a local name, whatever its qualifier. -/
def androidAttribute? (e : Element) (name : String) : Option Attribute :=
  e.attributes.find? fun a => a.uri == some androidUri && a.localName == name

/-- The value of an attribute of the platform's namespace. -/
def androidValue? (e : Element) (name : String) : Option String :=
  (e.androidAttribute? name).map (·.value)

/-- The children with a tag. -/
def childrenNamed (e : Element) (tag : String) : List Element :=
  e.children.filter (·.tag == tag)

/-! ## 2. All elements below one -/

mutual

/-- The number of elements in a tree. -/
def size (e : Element) : Nat :=
  match e with
  | ⟨_, _, children, _, _, _⟩ => 1 + sizes children

/-- The number of elements in several trees. -/
def sizes (es : List Element) : Nat :=
  match es with
  | [] => 0
  | e :: rest => size e + sizes rest

end

theorem size_eq (e : Element) : size e = 1 + sizes e.children := by
  cases e; simp [size]

theorem sizes_append (as bs : List Element) : sizes (as ++ bs) = sizes as + sizes bs := by
  induction as with
  | nil => simp [sizes]
  | cons a as ih => simp [sizes, ih]; omega

/-- The elements of several trees, those nearer to a root first. -/
def breadthFirst : List Element → List Element
  | [] => []
  | e :: queue => e :: breadthFirst (queue ++ e.children)
termination_by queue => sizes queue
decreasing_by
  simp only [sizes, sizes_append, size_eq e]
  omega

/-- The element and all elements inside it, in the order in which they begin in the text. -/
def descendants (e : Element) : List Element :=
  (breadthFirst [e]).mergeSort fun a b => a.range.start ≤ b.range.start

end Element

end AndroidLint.Xml
