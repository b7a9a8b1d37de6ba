/-
  File:      AndroidLint/Config/Yaml.lean
  Subject:   Configurations written in YAML.

  A text is any scalar, however it is written. A truth value is a plain scalar, or a literal one with
  the tag for truth values. Nothing at all counts as an empty list or table.
-/
import AndroidLint.Config.Decode
import AndroidLint.Yaml.Node

namespace AndroidLint.Yaml

/-- The texts for true. -/
def trueNames : List String := ["true", "True", "TRUE"]

/-- The texts for false. -/
def falseNames : List String := ["false", "False", "FALSE"]

/-- A truth value. -/
def truthOf? (text : String) : Option Bool :=
  if trueNames.contains text then some true
  else if falseNames.contains text then some false
  else none

namespace Document

variable (d : Document)

/-- The text of a scalar. -/
def text? (node : Node) : Option String :=
  match d.resolve node with
  | .scalar _ _ text => some text
  | _ => none

/-- The truth value of a scalar. -/
def flag? (node : Node) : Option Bool :=
  match d.resolve node with
  | .scalar .plain _ text => truthOf? text
  | .scalar .literal (some "tag:yaml.org,2002:bool") text => truthOf? text
  | _ => none

/-- The items of a sequence. -/
def items? (node : Node) : Option (List Node) :=
  match d.resolve node with
  | .sequence items => some items
  | .scalar .plain _ "" => some []
  | _ => none

/-- The entries of a mapping whose keys are scalars. -/
def entries? (node : Node) : Option (List (String × Node)) :=
  match d.resolve node with
  | .mapping entries => entries.mapM fun (key, value) => (d.text? key).map fun text => (text, value)
  | .scalar .plain _ "" => some []
  | _ => none

/-- How a configuration looks at nodes. -/
def view : Config.View Node where
  text? := d.text?
  flag? := d.flag?
  items? := d.items?
  entries? := d.entries?
  fields? := fun _ => d.entries?

end Document

end AndroidLint.Yaml

namespace AndroidLint.Config

/-- The configuration that a YAML text describes; a text with no document gives the default. -/
def ofYaml? (text : List Char) : Option Config := do
  let document ← Yaml.Document.ofText? text
  decode? document.view (document.root?.getD .empty)

end AndroidLint.Config
