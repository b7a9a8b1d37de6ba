/-
  File:      AndroidLint/Xml/Document.lean
  Subject:   The element tree of a text.

  `parse` runs over the events of the text with the stack of the elements that are open. Each open
  element carries the namespaces that are bound inside it, so a binding ends with its element.
-/
import AndroidLint.Xml.Element
import AndroidLint.Xml.Event

namespace AndroidLint.Xml

/-! ## 1. Namespaces -/

/-- The namespaces bound at some place, the innermost and latest binding first. -/
abbrev Scope := List (String × String)

/-- The scope inside a tag that has the given attributes. -/
def Scope.extend (outer : Scope) (attributes : List Attribute) : Scope :=
  ((attributes.filter (·.bindsNamespace)).map fun a => (a.localName, a.value)).reverse ++ outer

/-- The namespace bound to a qualifier. The qualifier `android` means the platform's namespace
    where nothing else binds it. -/
def Scope.uri? (scope : Scope) (qualifier : String) : Option String :=
  match scope.lookup qualifier with
  | some uri => some uri
  | none => if qualifier = "android" then some androidUri else none

/-- An attribute with its namespace in a scope. -/
def Attribute.resolve (scope : Scope) (a : Attribute) : Attribute :=
  { a with uri := if a.bindsNamespace then none else a.qualifier?.bind scope.uri? }

/-! ## 2. Building the tree -/

/-- An element whose end tag has not come yet, and the scope inside it. -/
structure OpenElement where
  element : Element
  scope : Scope

/-- The tree as far as it is built. -/
structure Builder where
  /-- The open elements, the innermost first. -/
  opened : List OpenElement
  /-- The first element that was completed outside all others. -/
  root : Option Element

namespace Builder

/-- Before the first event. -/
def empty : Builder := ⟨[], none⟩

/-- Put a completed element into the innermost open one, or at the top. -/
def attach (b : Builder) (e : Element) : Builder :=
  match b.opened with
  | [] => { b with root := b.root.or (some e) }
  | top :: outer =>
    let parent := { top.element with
      text := top.element.text ++ e.text, children := top.element.children ++ [e] }
    { b with opened := { top with element := parent } :: outer }

/-- Add character data to the innermost open element; outside all elements it is dropped. -/
def addText (b : Builder) (text : List Char) : Builder :=
  match b.opened with
  | [] => b
  | top :: outer =>
    let element := { top.element with text := top.element.text ++ String.ofList text }
    { b with opened := { top with element } :: outer }

/-- The scope inside the innermost open element. -/
def scope (b : Builder) : Scope :=
  match b.opened with
  | [] => []
  | top :: _ => top.scope

/-- The element that a start tag begins, with nothing in it yet. -/
def openElement (contents : List Char) (b : Builder) (tag : List Char) (range : ByteRange) :
    Except Error OpenElement :=
  (attributesOf contents range (Text.width tag)).map fun attributes =>
    let scope := b.scope.extend attributes
    { scope
      element :=
        { tag := String.ofList tag, attributes := attributes.map (·.resolve scope), children := [],
          text := "", range, contentRange := ⟨range.stop, range.stop⟩ } }

/-- The tree after one more event. -/
def step (contents : List Char) (b : Builder) (placed : Placed) : Except Error Builder :=
  match placed.event with
  | .start tag =>
    (b.openElement contents tag placed.range).map fun o => { b with opened := o :: b.opened }
  | .empty tag => (b.openElement contents tag placed.range).map fun o => b.attach o.element
  | .close =>
    match b.opened with
    | [] => .error (.malformed placed.range.start .unexpectedEnd)
    | top :: outer =>
      let e := { top.element with
        range := ⟨top.element.range.start, placed.range.stop⟩
        contentRange := ⟨top.element.contentRange.start, placed.range.start⟩ }
      .ok (attach { b with opened := outer } e)
  | .text written => .ok (b.addText (decode written))
  | .cdata written => .ok (b.addText written)
  | .other => .ok b

/-- The root, once all events are in. -/
def finish (b : Builder) : Except Error Element :=
  match b.opened with
  | top :: _ => .error (.malformed top.element.range.start (.unclosed top.element.tag))
  | [] => match b.root with
    | some root => .ok root
    | none => .error .noRoot

end Builder

/-- The root element of a document. Of several faults the one that comes first in the text is
    reported. -/
def parse (contents : List Char) : Except Error Element := do
  let events := scan contents
  let built ← events.events.foldlM (Builder.step contents) Builder.empty
  match events.fault with
  | some (position, fault) => .error (.malformed position fault)
  | none => built.finish

end AndroidLint.Xml
