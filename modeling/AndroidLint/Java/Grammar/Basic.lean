/-
  File:      AndroidLint/Java/Grammar/Basic.lean
  Subject:   Words, names, types and annotations of Java.

  Rules that need each other are put together in the record `Rules`. A rule that needs another one
  gets the record of the rules for what is nested in it, so every rule is an ordinary definition.
-/
import AndroidLint.Java.Kind
import AndroidLint.Java.Token
import AndroidLint.Syntax.Vocabulary

namespace AndroidLint.Java

open Syntax

/-- Reads from tokens of Java. -/
abbrev Reader := Syntax.Reader TokenKind

/-- The rules for what is nested in a construct. -/
structure Rules where
  expression : Reader Tree
  /-- An expression that no binary operator or condition stands in, outside brackets. -/
  unary : Reader Tree
  type : Reader Tree
  annotationUse : Reader Tree
  elementValue : Reader Tree
  /-- An expression or the elements of an array. -/
  initializer : Reader Tree
  block : Reader Tree
  /-- A statement; an empty one is no node. -/
  statement : Reader (List Tree)
  switchBlock : Reader Tree
  classBody : Reader Tree
  typeDeclaration : Reader Tree

/-- The rules that read nothing. -/
def Rules.none : Rules :=
  ⟨.fail, .fail, .fail, .fail, .fail, .fail, .fail, .fail, .fail, .fail, .fail⟩

/-! ## 1. Words and signs -/

/-- The words that are no names. -/
def keywords : List String :=
  ["abstract", "assert", "boolean", "break", "byte", "case", "catch", "char", "class", "const",
    "continue", "default", "do", "double", "else", "enum", "extends", "final", "finally", "float",
    "for", "goto", "if", "implements", "import", "instanceof", "int", "interface", "long", "native",
    "new", "package", "private", "protected", "public", "return", "short", "static", "strictfp",
    "super", "switch", "synchronized", "this", "throw", "throws", "transient", "try", "void",
    "volatile", "while", "true", "false", "null"]

/-- The words for types that need no declaration. -/
def primitiveTypes : List String :=
  ["byte", "short", "int", "long", "char", "float", "double", "boolean", "void"]

instance : Vocabulary TokenKind := ⟨.word, .sign, keywords⟩

/-- A name. -/
def identifier : Reader Tree := Reader.leaf .identifier (Reader.token isName)

/-- A word as a leaf of its own. -/
def wordLeaf (kind : Kind) (text : String) : Reader Tree :=
  Reader.leaf kind (Reader.token (isWord text))

/-- A dotted name. -/
def qualifiedName : Reader Tree := do
  let start ← Reader.here
  let first ← identifier
  let rest ← Reader.many (do sign "."; identifier)
  if rest.isEmpty then pure first else Reader.close start .scopedIdentifier []

/-! ## 2. Types -/

/-- The arguments of a generic type. -/
def typeArguments (rules : Rules) : Reader Unit := do
  let bound : Reader Unit := do
    word "extends" <|> word "super"
    let _ ← rules.type
  let wildcard : Reader Unit := do
    let _ ← Reader.many rules.annotationUse
    sign "?"
    let _ ← Reader.optional bound
  let argument : Reader Unit := wildcard <|> do let _ ← rules.type
  let _ ← between "<" ">" (commaSeparated argument)

/-- The parameters of a generic declaration. -/
def typeParameters (rules : Rules) : Reader Unit := do
  let parameter : Reader Unit := do
    let _ ← Reader.many rules.annotationUse
    let _ ← identifier
    let _ ← Reader.optional do
      word "extends"
      Reader.separated1 (sign "&") rules.type
  let _ ← between "<" ">" (commaSeparated parameter)

/-- A pair of brackets that makes an array type. -/
def dimension (rules : Rules) : Reader Unit := do
  let _ ← Reader.many rules.annotationUse
  sign "["
  sign "]"

/-- A type without brackets, as tokens. -/
def simpleTypeTokens (rules : Rules) : Reader Unit := do
  let primitive : Reader Unit := do
    let _ ← Reader.token fun t => t.kind == .word && primitiveTypes.contains t.text
  let step : Reader Unit := do
    let _ ← Reader.many rules.annotationUse
    let _ ← identifier
    let _ ← Reader.optional (typeArguments rules)
  primitive <|> do let _ ← Reader.separated1 (sign ".") step

/-- A type without brackets. -/
def simpleType (rules : Rules) : Reader Tree :=
  Reader.node .type do simpleTypeTokens rules; pure []

/-- A type. -/
def type (rules : Rules) : Reader Tree :=
  Reader.node .type do
    let _ ← Reader.many rules.annotationUse
    simpleTypeTokens rules
    let _ ← Reader.many (dimension rules)
    pure []

/-! ## 3. Annotations and modifiers -/

/-- The value of an annotation's argument. -/
def elementValue (rules : Rules) : Reader Tree := do
  if ← atSign "@" then rules.annotationUse
  else if ← atSign "\x7b" then
    Reader.node .elementValueArray do
      sign "\x7b"
      let values ← commaSeparated rules.elementValue
      let _ ← Reader.optional (sign ",")
      sign "\x7d"
      pure values
  else rules.expression

/-- An annotation. -/
def annotationUse (rules : Rules) : Reader Tree :=
  Reader.node .annotationUse do
    sign "@"
    let name ← Reader.as .name qualifiedName
    let pair := Reader.node .elementValuePair do
      let key ← Reader.as .key identifier
      sign "="
      let value ← Reader.as .value rules.elementValue
      pure [key, value]
    let arguments := Reader.node .other do
      between "(" ")" (commaSeparated (pair <|> rules.elementValue))
    let arguments ← Reader.listed (Reader.as .arguments arguments)
    pure (name :: arguments)

/-- The words that modify a declaration. -/
def modifierWords : List String :=
  ["public", "protected", "private", "abstract", "static", "final", "strictfp", "default",
    "synchronized", "native", "transient", "volatile"]

/-- A word that modifies a declaration. The words `sealed` and `non-sealed` do so only before a
    class. -/
def modifierWord : Reader Tree := do
  let plain := Reader.leaf .token (Reader.token fun t =>
    t.kind == .word && modifierWords.contains t.text)
  let beforeClass : Reader Unit := do
    let next ← Reader.peek?
    Reader.check <| next.any fun t => t.kind == .word &&
      (t.text == "class" || t.text == "interface" || modifierWords.contains t.text)
  let isSealed := do
    let leaf ← wordLeaf .token "sealed"
    beforeClass
    pure leaf
  let isOpen := Reader.node .token do
    word "non"
    sign "-"
    word "sealed"
    pure []
  plain <|> isSealed <|> isOpen

/-- Annotations and words in front of a declaration. -/
def modifiers (rules : Rules) : Reader Tree := do
  let isTypeDeclaration : Token → Bool := isWord "interface"
  let one : Reader Tree := do
    if ← atSign "@" then
      let next ← Reader.peekSecond?
      Reader.check (!next.any isTypeDeclaration)
      rules.annotationUse
    else modifierWord
  Reader.node .modifiers (Reader.many1 one)

end AndroidLint.Java
