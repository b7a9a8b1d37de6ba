/-
  File:      AndroidLint/Kotlin/Grammar/Basic.lean
  Subject:   Words, names and types of Kotlin.

  As for the other language, the rules that need each other stand in the record `Rules`, and each
  rule gets the rules for what is nested in it.
-/
import AndroidLint.Kotlin.Kind
import AndroidLint.Kotlin.Token
import AndroidLint.Syntax.Vocabulary

namespace AndroidLint.Kotlin

open Syntax

/-- Reads from tokens of Kotlin. -/
abbrev Reader := Syntax.Reader TokenKind

/-- The rules for what is nested in a construct. -/
structure Rules where
  expression : Reader Tree
  /-- An expression that no operator between operands stands in, outside brackets. -/
  unary : Reader Tree
  type : Reader Tree
  valueArguments : Reader Tree
  lambda : Reader Tree
  /-- A declaration or an expression as a statement. -/
  statement : Reader Tree
  /-- A run of statements; none at all give no node. -/
  statements : Reader (List Tree)
  classBody : Reader Tree
  functionRest : Reader (List Tree)
  delegation : Reader (List Tree)

/-- The rules that read nothing. -/
def Rules.none : Rules :=
  ⟨.fail, .fail, .fail, .fail, .fail, .fail, .fail, .fail, .fail, .fail⟩

/-! ## 1. Words and signs -/

/-- The words that are no names. -/
def keywords : List String :=
  ["as", "break", "class", "continue", "do", "else", "false", "for", "fun", "if", "in", "interface",
    "is", "null", "object", "package", "return", "super", "this", "throw", "true", "try",
    "typealias", "typeof", "val", "var", "when", "while"]

instance : Vocabulary TokenKind := ⟨.word, .sign, keywords⟩

/-- A name. -/
def simpleIdentifier : Reader Tree := Reader.leaf .simpleIdentifier (Reader.token isName)

/-- A name that plays no part in the tree. -/
def skipName : Reader Unit := do let _ ← simpleIdentifier

/-- Things with commas between, and perhaps one at the end. -/
def commaSeparated {α : Type} (r : Reader α) : Reader (List α) := do
  let all ← Syntax.commaSeparated r
  let _ ← Reader.optional (sign ",")
  pure all

/-- Refuse where a statement has ended with its line. -/
def sameStatement : Reader Unit := do
  Reader.check (!(← Reader.peek?).any (·.afterNewline))

/-- A dotted name. -/
def identifier : Reader Tree :=
  Reader.node .identifier do
    let _ ← Reader.separated1 (sign ".") skipName
    pure []

/-! ## 2. Annotations -/

/-- An annotation with its arguments. -/
def annotationUse (rules : Rules) : Reader Tree :=
  Reader.node .other do
    sign "@"
    let _ ← Reader.optional do
      skipName
      sign ":"
    let one : Reader (List Tree) := do
      let type ← rules.type
      let arguments ← Reader.optional do
        Reader.check (← Reader.succeeds (attached "("))
        rules.valueArguments
      pure (type :: arguments.toList)
    let several : Reader (List Tree) := do
      let all ← between "[" "]" (Reader.many one)
      pure all.flatten
    several <|> one

/-! ## 3. Types -/

/-- The arguments of a generic type. -/
def typeArguments (rules : Rules) : Reader Tree :=
  Reader.node .other do
    let variance : Reader Unit := word "in" <|> word "out"
    let argument : Reader Tree := do
      let plain : Reader Tree := rules.type
      let marked : Reader Tree := do
        variance
        rules.type
      marked <|> plain <|> Reader.leaf .other (Reader.token (isSign "*"))
    between "<" ">" (commaSeparated argument)

/-- The parameters of a generic declaration. -/
def typeParameters : Reader Unit := bracketed "<" ">"

/-- A named parameter with its type. -/
def parameter (rules : Rules) : Reader Tree :=
  Reader.node .parameter do
    let name ← simpleIdentifier
    sign ":"
    let type ← rules.type
    pure [name, type]

/-- A type that a name denotes. -/
def userType (rules : Rules) : Reader Tree :=
  Reader.node .userType do
    let step : Reader (List Tree) := do
      skipName
      Reader.listed (typeArguments rules)
    let steps ← Reader.separated1 (sign ".") step
    pure steps.flatten

/-- The parameters and the result of a function type. -/
def functionType (rules : Rules) : Reader (List Tree) := do
  let parameters ← between "(" ")" (commaSeparated (parameter rules <|> rules.type))
  sign "->"
  let result ← rules.type
  pure (parameters ++ [result])

/-- A type. What modifies it is left out. -/
def type (rules : Rules) : Reader Tree := do
  let _ ← Reader.many (annotationUse rules)
  let _ ← Reader.optional do
    word "suspend"
    Reader.check ((← Reader.peek?).any fun t => isSign "(" t || isName t)
  let start ← Reader.here
  let function := Reader.node .other (functionType rules)
  let withReceiver := Reader.node .other do
    let receiver ← userType rules
    sign "."
    let function ← functionType rules
    pure (receiver :: function)
  let parenthesized := Reader.node .other do
    return [← between "(" ")" rules.type]
  let base ← function <|> withReceiver <|> parenthesized <|> userType rules
  let marks ← Reader.many (sign "?")
  if marks.isEmpty then pure base else Reader.close start .nullableType [base]

end AndroidLint.Kotlin
