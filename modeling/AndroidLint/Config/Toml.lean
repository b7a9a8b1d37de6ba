/-
  File:      AndroidLint/Config/Toml.lean
  Subject:   Configurations written in TOML.

  Every kind of value stands for itself only. A record may be written as an array of its fields in
  order, and a date or time counts as a table with one entry.
-/
import AndroidLint.Config.Decode
import AndroidLint.Toml.Document

namespace AndroidLint.Toml.Value

/-- A text. -/
def text? : Value → Option String
  | .text s => some s
  | _ => none

/-- A truth value. -/
def flag? : Value → Option Bool
  | .boolean b => some b
  | _ => none

/-- The items of an array. -/
def items? : Value → Option (List Value)
  | .array items => some items
  | _ => none

/-- The entries of a table. -/
def entries? : Value → Option (List (String × Value))
  | .table entries => some entries
  | .moment s => some [("$__toml_private_datetime", .text s)]
  | _ => none

/-- The fields of a record. -/
def fields? (names : List String) : Value → Option (List (String × Value))
  | .array items => some (names.zip items)
  | v => v.entries?

/-- How a configuration looks at values. -/
def view : Config.View Value := { text?, flag?, items?, entries?, fields? }

end AndroidLint.Toml.Value

namespace AndroidLint.Config

/-- The configuration that a TOML text describes. -/
def ofToml? (text : List Char) : Option Config := Toml.ofText? text >>= decode? Toml.Value.view

end AndroidLint.Config
