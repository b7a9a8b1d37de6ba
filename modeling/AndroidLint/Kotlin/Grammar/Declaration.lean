/-
  File:      AndroidLint/Kotlin/Grammar/Declaration.lean
  Subject:   Declarations and statements of Kotlin, and whole files.
-/
import AndroidLint.Kotlin.Grammar.Expression

namespace AndroidLint.Kotlin

open Syntax

/-! ## 1. Modifiers -/

/-- The words that modify a declaration or a parameter. -/
def modifierWords : List String :=
  ["public", "private", "internal", "protected", "open", "abstract", "final", "sealed", "data",
    "inner", "enum", "annotation", "companion", "override", "lateinit", "vararg", "noinline",
    "crossinline", "const", "external", "inline", "tailrec", "operator", "infix", "suspend",
    "expect", "actual", "value", "reified"]

/-- Annotations and words in front of a declaration. A word modifies only what another word, an
    annotation or a bracket follows. -/
def modifiers (rules : Rules) : Reader (List Tree) := Reader.many do
  let modifier : Reader Tree := do
    let leaf ← Reader.leaf .token (Reader.token fun t =>
      t.kind == .word && modifierWords.contains t.text)
    Reader.check ((← Reader.peek?).any fun t => t.kind == .word || isSign "@" t)
    pure leaf
  annotationUse rules <|> modifier

/-! ## 2. Functions -/

/-- The parameters of a function, with their default values. -/
def functionParameters (rules : Rules) : Reader Tree := do
  let one : Reader (List Tree) := do
    let modifiers ← modifiers rules
    let parameter ← parameter rules
    let value ← Reader.listed do
      sign "="
      rules.expression
    pure (modifiers ++ parameter :: value)
  Reader.node .other do
    let all ← between "(" ")" (commaSeparated one)
    pure all.flatten

/-- The bounds of type parameters. -/
def typeConstraints (rules : Rules) : Reader (List Tree) := Reader.listed <|
  Reader.node .other do
    word "where"
    let constraint : Reader Tree := do
      let _ ← Reader.many (annotationUse rules)
      skipName
      sign ":"
      rules.type
    Reader.separated1 (sign ",") constraint

/-- The body of a function. -/
def functionBody (rules : Rules) : Reader Tree :=
  Reader.node .other do
    if ← atSign "\x7b" then block rules
    else
      sign "="
      return [← rules.expression]

/-- A function from its parameters on. -/
def functionRest (rules : Rules) : Reader (List Tree) := do
  let parameters ← functionParameters rules
  let result ← Reader.listed do
    sign ":"
    rules.type
  let constraints ← typeConstraints rules
  let body ← Reader.listed (functionBody rules)
  pure (parameters :: result ++ constraints ++ body)

/-- The name of a function, with the type that it extends. -/
def functionName (rules : Rules) : Reader Unit := do
  let step : Reader Unit := do
    skipName
    let _ ← Reader.optional (typeArguments rules)
    let _ ← Reader.optional (sign "?")
    sign "." <|> sign "?."
  let bracketedType : Reader Unit := do
    bracketed "(" ")"
    let _ ← Reader.optional (sign "?")
    sign "." <|> sign "?."
  let _ ← Reader.optional bracketedType
  let _ ← Reader.many step
  skipName

/-- A function. -/
def functionDeclaration (rules : Rules) : Reader Tree :=
  Reader.node .other do
    let modifiers ← modifiers rules
    word "fun"
    let _ ← Reader.optional typeParameters
    functionName rules
    let rest ← functionRest rules
    pure (modifiers ++ rest)

/-! ## 3. Properties -/

/-- A function that reads or writes a property. -/
def accessor (rules : Rules) : Reader Tree :=
  Reader.node .other do
    let modifiers ← modifiers rules
    word "get" <|> word "set"
    let full : Reader (List Tree) := do
      bracketed "(" ")"
      let result ← Reader.listed do
        sign ":"
        rules.type
      let body ← functionBody rules
      pure (result ++ [body])
    let bare : Reader (List Tree) := do
      let next ← Reader.peek?
      Reader.check (next.all fun t => t.afterNewline || isSign ";" t || isSign "\x7d" t)
      pure []
    let rest ← full <|> bare
    pure (modifiers ++ rest)

/-- A property or a local variable. -/
def propertyDeclaration (rules : Rules) : Reader Tree :=
  Reader.node .propertyDeclaration do
    let modifiers ← modifiers rules
    let binding ← Reader.leaf .other (Reader.token fun t => isWord "val" t || isWord "var" t)
    let _ ← Reader.optional typeParameters
    let receiver : Reader Unit := do
      skipName
      let _ ← Reader.optional (typeArguments rules)
      let _ ← Reader.optional (sign "?")
      sign "." <|> sign "?."
    let _ ← Reader.many receiver
    let declared ← multiVariableDeclaration rules <|> variableDeclaration rules
    let constraints ← typeConstraints rules
    let assigned : Reader Tree := do
      sign "="
      rules.expression
    let delegated := Reader.node .other do
      word "by"
      return [← rules.expression]
    let value ← Reader.listed (assigned <|> delegated)
    let accessors ← Reader.many do
      let _ ← Reader.optional (sign ";")
      accessor rules
    pure (modifiers ++ binding :: declared :: constraints ++ value ++ accessors)

/-! ## 4. Classes -/

/-- A parameter of a class. -/
def classParameter (rules : Rules) : Reader Tree :=
  Reader.node .classParameter do
    let modifiers ← modifiers rules
    let binding ← Reader.listed
      (Reader.leaf .other (Reader.token fun t => isWord "val" t || isWord "var" t))
    let name ← simpleIdentifier
    sign ":"
    let type ← rules.type
    let value ← Reader.listed do
      sign "="
      rules.expression
    pure (modifiers ++ binding ++ name :: type :: value)

/-- The constructor in the head of a class. -/
def primaryConstructor (rules : Rules) : Reader Tree :=
  Reader.node .other do
    let modifiers ← Reader.optional do
      let modifiers ← modifiers rules
      word "constructor"
      pure modifiers
    let parameters ← between "(" ")" (commaSeparated (classParameter rules))
    pure (modifiers.getD [] ++ parameters)

/-- What a class extends or delegates to. -/
def delegation (rules : Rules) : Reader (List Tree) := do
  let one := Reader.node .other do
    let annotations ← Reader.many (annotationUse rules)
    let type ← rules.type
    let invocation : Reader (List Tree) := do return [← rules.valueArguments]
    let delegated : Reader (List Tree) := do
      word "by"
      return [← rules.expression]
    let rest ← invocation <|> delegated <|> pure []
    pure (annotations ++ type :: rest)
  Reader.separated1 (sign ",") one

/-- The call of another constructor in the head of one. -/
def delegationCall (rules : Rules) : Reader Tree :=
  Reader.node .other do
    word "this" <|> word "super"
    return [← rules.valueArguments]

/-- A constructor in the body of a class. -/
def secondaryConstructor (rules : Rules) : Reader Tree :=
  Reader.node .other do
    let modifiers ← modifiers rules
    word "constructor"
    let parameters ← functionParameters rules
    let call ← Reader.listed do
      sign ":"
      delegationCall rules
    let body ← if ← atSign "\x7b" then block rules else pure []
    pure (modifiers ++ parameters :: call ++ body)

/-- Code that runs when an object is made. -/
def anonymousInitializer (rules : Rules) : Reader Tree :=
  Reader.node .other do
    word "init"
    Reader.check (← atSign "\x7b")
    block rules

/-- The members of a class, up to its closing brace. -/
def members (rules : Rules) : Reader (List Tree) := do
  let all ← Reader.many do
    let _ ← Reader.many (sign ";")
    secondaryConstructor rules <|> anonymousInitializer rules <|> rules.statement
  let _ ← Reader.many (sign ";")
  pure all

/-- The body of a class. -/
def classBody (rules : Rules) : Reader Tree :=
  Reader.node .other (between "\x7b" "\x7d" (members rules))

/-- The body of an enumeration. -/
def enumBody (rules : Rules) : Reader Tree := do
  let entry := Reader.node .other do
    let modifiers ← modifiers rules
    let name ← simpleIdentifier
    let arguments ← Reader.listed rules.valueArguments
    let body ← if ← atSign "\x7b" then Reader.listed rules.classBody else pure []
    pure (modifiers ++ name :: arguments ++ body)
  Reader.node .other do
    sign "\x7b"
    let entries ← commaSeparated entry
    let rest ← Reader.optional do
      sign ";"
      members rules
    sign "\x7d"
    pure (entries ++ rest.getD [])

/-- A class, an interface or an enumeration. -/
def classDeclaration (rules : Rules) : Reader Tree :=
  Reader.node .other do
    let modifiers ← modifiers rules
    let _ ← Reader.optional (word "fun")
    word "class" <|> word "interface"
    skipName
    let _ ← Reader.optional typeParameters
    let constructor ← Reader.listed (primaryConstructor rules)
    let specifiers ← Reader.optional do
      sign ":"
      rules.delegation
    let constraints ← typeConstraints rules
    let isEnum := modifiers.any (·.text == "enum")
    let body ← if ← atSign "\x7b" then
        Reader.listed (if isEnum then enumBody rules else rules.classBody)
      else pure []
    pure (modifiers ++ constructor ++ specifiers.getD [] ++ constraints ++ body)

/-- An object with a name, or one that belongs to a class. -/
def objectDeclaration (rules : Rules) : Reader Tree :=
  Reader.node .other do
    let modifiers ← modifiers rules
    word "object"
    let isCompanion := modifiers.any (·.text == "companion")
    if isCompanion then
      let _ ← Reader.optional skipName
    else skipName
    let specifiers ← Reader.optional do
      sign ":"
      rules.delegation
    let body ← if ← atSign "\x7b" then Reader.listed rules.classBody else pure []
    pure (modifiers ++ specifiers.getD [] ++ body)

/-- Another name for a type. -/
def typeAlias (rules : Rules) : Reader Tree :=
  Reader.node .other do
    let modifiers ← modifiers rules
    word "typealias"
    skipName
    let _ ← Reader.optional typeParameters
    sign "="
    let type ← rules.type
    pure (modifiers ++ [type])

/-! ## 5. Statements -/

/-- A loop. -/
def loop (rules : Rules) : Reader Tree := do
  let body := Reader.listed (controlBody rules)
  let forLoop := Reader.node .other do
    word "for"
    sign "("
    let _ ← Reader.many (annotationUse rules)
    let declared ← multiVariableDeclaration rules <|> variableDeclaration rules
    word "in"
    let elements ← rules.expression
    sign ")"
    let body ← body
    pure (declared :: elements :: body)
  let whileLoop := Reader.node .other do
    word "while"
    let condition ← between "(" ")" rules.expression
    let empty : Reader (List Tree) := do
      sign ";"
      pure []
    let body ← empty <|> body
    pure (condition :: body)
  let doLoop := Reader.node .other do
    word "do"
    let body ← Reader.listed do
      Reader.check (!(← atWord "while"))
      controlBody rules
    word "while"
    let condition ← between "(" ")" rules.expression
    pure (body ++ [condition])
  forLoop <|> whileLoop <|> doLoop

/-- The signs of assignments. -/
def assignmentSigns : List String := ["=", "+=", "-=", "*=", "/=", "%="]

/-- An expression, or an assignment to one. -/
def assignmentOrExpression (rules : Rules) : Reader Tree := do
  let start ← Reader.here
  let left ← rules.expression
  let assignment : Reader Tree := do
    sameStatement
    let _ ← Reader.token fun t => t.kind == .sign && assignmentSigns.contains t.text
    let right ← rules.expression
    Reader.close start .other [left, right]
  assignment <|> pure left

/-- A statement with the label in front of it, which does not belong to it. -/
def label : Reader Unit := do
  skipName
  attached "@"

/-- A declaration, a loop or an expression. -/
def statement (rules : Rules) : Reader Tree := do
  let _ ← Reader.optional label
  propertyDeclaration rules <|> functionDeclaration rules <|> classDeclaration rules
    <|> objectDeclaration rules <|> typeAlias rules <|> loop rules
    <|> assignmentOrExpression rules

/-- A run of statements. -/
def statements (rules : Rules) : Reader (List Tree) := do
  let _ ← Reader.many (sign ";")
  Reader.listed (Reader.node .statements (Reader.many1 do
    let statement ← rules.statement
    let _ ← Reader.many (sign ";")
    pure statement))

/-! ## 6. Files -/

/-- The rules, given the rules for what is nested. -/
def Rules.next (rules : Rules) : Rules where
  expression := Kotlin.expression rules
  unary := Kotlin.unary rules
  type := Kotlin.type rules
  valueArguments := Kotlin.valueArguments rules
  lambda := Kotlin.lambda rules
  statement := Kotlin.statement rules
  statements := Kotlin.statements rules
  classBody := Kotlin.classBody rules
  functionRest := Kotlin.functionRest rules
  delegation := Kotlin.delegation rules

/-- The rules for constructs that are nested up to a depth. -/
def Rules.upTo (depth : Nat) : Rules := depth.repeat Rules.next Rules.none

/-- The name of the package. -/
def packageHeader : Reader Tree :=
  Reader.node .packageHeader do
    word "package"
    let name ← identifier
    let _ ← Reader.optional (sign ";")
    pure [name]

/-- An import. -/
def importHeader : Reader Tree :=
  Reader.node .importHeader do
    word "import"
    let name ← identifier
    let all : Reader Unit := do
      sign "."
      sign "*"
    let renamed : Reader Unit := do
      word "as"
      skipName
    let _ ← Reader.optional (all <|> renamed)
    let _ ← Reader.optional (sign ";")
    pure [name]

/-- An annotation of the file. -/
def fileAnnotation (rules : Rules) : Reader Tree := do
  Reader.check ((← Reader.peekSecond?).any (isWord "file"))
  annotationUse rules

/-- What stands at the top of a file. -/
def topLevel (rules : Rules) : Reader Tree := do
  let _ ← Reader.many (sign ";")
  fileAnnotation rules <|> packageHeader <|> importHeader <|> rules.statement

/-- The syntax tree of a file. Nothing is nested deeper than the file has characters. -/
def parse (contents : List Char) : Tree :=
  let tokens := tokensAt 0 contents
  let rules := Rules.upTo (4 * contents.length + 8)
  let (all, rest) := Reader.manyFrom (topLevel rules) ⟨tokens, 0⟩
  ⟨.sourceFile, .plain, ⟨0, rest.last⟩, String.ofList contents, all⟩

end AndroidLint.Kotlin
