/-
  File:      AndroidLint/Source/Expr.lean
  Subject:   Expressions, as far as the checks look into them.
-/
import AndroidLint.Text.Offset
import AndroidLint.Text.Split

namespace AndroidLint.Source

/-- What an expression is, given the type `ε` of the expressions inside it. -/
inductive ExprKind (ε : Type) where
  | int (value : Int)
  | float (value : Float)
  | str (value : String)
  | char (value : Char)
  | bool (value : Bool)
  | null
  /-- A name or a dotted path, such as `count`, `Foo.BAR` or `R.string.title`. -/
  | name (path : String)
  /-- A call inside an expression. -/
  | call (name : String) (args : List ε)
  /-- An array with its elements. -/
  | array (elementType : Option String) (elements : List ε)
  /-- The creation of an object. -/
  | new (type : String)
  | other

/-- An expression with its type, where the file alone decides it. -/
structure Expr where
  kind : ExprKind Expr
  type : Option String
  range : ByteRange

namespace Expr

/-- The parts of a path `R.type.name`, possibly of the platform itself. -/
def resourcePath? (path : String) : Option (String × String) :=
  match Text.split '.' ((Text.afterHead? "android." path).getD path) with
  | ["R", type, name] => some (type, name)
  | _ => none

/-- The type and name of the resource that the expression refers to. -/
def resource? (e : Expr) : Option (String × String) :=
  match e.kind with
  | .name path => resourcePath? path
  | _ => none

end Expr

end AndroidLint.Source
