/-
  File:      AndroidLint/Json/Value.lean
  Subject:   JSON values.
-/

namespace AndroidLint.Json

/-- A JSON value. The members of an object are in the order in which they are written. -/
inductive Value where
  | null
  | bool (value : Bool)
  /-- A number without sign, fraction and exponent. -/
  | nat (value : Nat)
  /-- Any other number, as it is written. -/
  | number (written : String)
  | str (value : String)
  | arr (items : List Value)
  | obj (members : List (String × Value))
  deriving Inhabited

namespace Value

/-- A text, or `null` when there is none. -/
def ofText? : Option String → Value
  | some s => str s
  | none => null

/-- A list of values. -/
def ofList {α : Type} (encode : α → Value) (xs : List α) : Value := arr (xs.map encode)

/-- A member, unless its value is missing. -/
def member? (name : String) : Option Value → List (String × Value)
  | some v => [(name, v)]
  | none => []

/-- A member that is a list, unless the list is empty. -/
def nonEmpty (name : String) (items : List Value) : List (String × Value) :=
  if items.isEmpty then [] else [(name, arr items)]

end Value

end AndroidLint.Json
