/-
  File:      AndroidLint/Source/Annotations.lean
  Subject:   Annotations in source code.
-/
import AndroidLint.Text.Offset
import AndroidLint.Text.Split

namespace AndroidLint.Source

/-- The value of an annotation's argument. -/
inductive AnnotationValue where
  | int (value : Int)
  | float (value : Float)
  | bool (value : Bool)
  | str (value : String)
  /-- A constant by its name, such as `Foo.BAR`. -/
  | name (name : String)
  | array (elements : List AnnotationValue)
  /-- Any other expression, as written without its blanks. -/
  | other (written : String)

namespace AnnotationValue

/-- The value as a whole number. -/
def toInt? : AnnotationValue → Option Int
  | int v => some v
  | _ => none

/-- The value as a number. -/
def toFloat? : AnnotationValue → Option Float
  | int v => some (Float.ofInt v)
  | float v => some v
  | _ => none

/-- The value as a truth value. -/
def toBool? : AnnotationValue → Option Bool
  | bool v => some v
  | _ => none

/-- The text of a string, a constant's name or another expression. -/
def text? : AnnotationValue → Option String
  | str s | name s | other s => some s
  | _ => none

/-- The elements of an array; any other value is its only element. -/
def elements : AnnotationValue → List AnnotationValue
  | array es => es
  | value => [value]

end AnnotationValue

/-- An annotation with its arguments. -/
structure AnnotationUse where
  /-- The name as written, possibly qualified. -/
  name : String
  /-- The arguments by name; one without a name is called `value`. -/
  arguments : List (String × AnnotationValue)
  range : ByteRange

namespace AnnotationUse

/-- The last part of the name. -/
def simpleName (a : AnnotationUse) : String := Text.lastPart '.' a.name

/-- The first argument with a name. -/
def value? (a : AnnotationUse) (key : String) : Option AnnotationValue :=
  (a.arguments.find? (·.1 == key)).map (·.2)

/-- The packages that hold the annotations of the platform. -/
def platformPackages : List String :=
  ["android.support.annotation", "androidx.annotation", "android.annotation"]

/-- Whether the name is simple, or qualified with a package of the platform. -/
def isOfPlatform (a : AnnotationUse) : Bool :=
  match Text.splitLast? '.' a.name with
  | none => true
  | some (package, _) => platformPackages.contains package

end AnnotationUse

/-- The first annotation of the platform with one of the names. -/
def findAnnotation? (annotations : List AnnotationUse) (names : List String) : Option AnnotationUse :=
  annotations.find? fun a => names.contains a.simpleName && a.isOfPlatform

end AndroidLint.Source
