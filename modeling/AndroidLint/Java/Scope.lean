/-
  File:      AndroidLint/Java/Scope.lean
  Subject:   The names that are visible at some place, with their types.
-/
import AndroidLint.Java.Kind
import AndroidLint.Source.TypeName

namespace AndroidLint.Java

/-- Names with their types, the latest declaration first. -/
abbrev Names := List (String × String)

/-- What code inside a class sees of it. -/
structure ClassScope where
  qualifiedName : String
  fields : Names

/-- The classes and blocks around some place, the innermost first. -/
structure Scopes where
  classes : List ClassScope
  locals : List Names

namespace Scopes

/-- No class and no block. -/
def empty : Scopes := ⟨[], []⟩

/-- The type of a field of the classes around. -/
def field? (s : Scopes) (name : String) : Option String :=
  s.classes.findSome? fun c => c.fields.lookup name

/-- The type of a variable, or of a field where no variable has the name. -/
def type? (s : Scopes) (name : String) : Option String :=
  (s.locals.findSome? fun names => names.lookup name).or (s.field? name)

/-- Declare a variable in the innermost block. Outside all blocks it is forgotten. -/
def declare (s : Scopes) (name type : String) : Scopes :=
  match s.locals with
  | [] => s
  | innermost :: outer => { s with locals := ((name, type) :: innermost) :: outer }

/-- Enter a block in which some variables are declared. -/
def enter (s : Scopes) (names : Names) : Scopes := { s with locals := names :: s.locals }

/-- Leave the innermost block. -/
def leave (s : Scopes) : Scopes := { s with locals := s.locals.tail }

/-- Enter a class. -/
def enterClass (s : Scopes) (c : ClassScope) : Scopes := { s with classes := c :: s.classes }

/-- Leave the innermost class. -/
def leaveClass (s : Scopes) : Scopes := { s with classes := s.classes.tail }

end Scopes

end AndroidLint.Java
