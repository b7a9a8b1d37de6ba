/-
  File:      AndroidLint/Source/TypeName.lean
  Subject:   Types by the names that source code gives them.
-/
import AndroidLint.Text.Blank

namespace AndroidLint.Source

/-- A written type without type arguments and blanks. -/
def erase (written : String) : String :=
  String.ofList ((written.toList.takeWhile (· != '<')).filter (!Text.isBlank ·))

/-- The primitive type that a boxed type holds; any other type is left as it is. -/
def unbox (type : String) : String :=
  match type with
  | "Integer" | "java.lang.Integer" => "int"
  | "Long" | "java.lang.Long" => "long"
  | "Short" | "java.lang.Short" => "short"
  | "Byte" | "java.lang.Byte" => "byte"
  | "Float" | "java.lang.Float" => "float"
  | "Double" | "java.lang.Double" => "double"
  | "Boolean" | "java.lang.Boolean" => "boolean"
  | "Character" | "java.lang.Character" => "char"
  | other => other

end AndroidLint.Source
