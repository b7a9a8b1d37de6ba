/-
  File:      AndroidLint/Fix/Basic.lean
  Subject:   Quick fixes.

  A fix is a named set of edits that belong together, or a choice between several fixes.
-/
import AndroidLint.Fix.Edit

namespace AndroidLint

/-- A suggested correction. -/
inductive Fix where
  /-- Edits that are made together. -/
  | edits (name : String) (edits : List TextEdit)
  /-- Fixes of which one is chosen. -/
  | alternatives (fixes : List Fix)

namespace Fix

/-- A fix that replaces one range. -/
def replacing (name : String) (file : Path) (range : ByteRange) (replacement : String) : Fix :=
  .edits name [⟨file, range, replacement⟩]

mutual

/-- The fixes there are to choose from, by name. -/
def options : Fix → List (String × List TextEdit)
  | .edits name es => [(name, es)]
  | .alternatives fixes => optionsOfAll fixes

/-- The fixes there are to choose from in a list of fixes. -/
def optionsOfAll : List Fix → List (String × List TextEdit)
  | [] => []
  | f :: fs => f.options ++ optionsOfAll fs

end

end Fix

end AndroidLint
