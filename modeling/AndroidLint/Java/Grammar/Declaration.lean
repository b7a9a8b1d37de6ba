/-
  File:      AndroidLint/Java/Grammar/Declaration.lean
  Subject:   Declarations of Java, and whole files.
-/
import AndroidLint.Java.Grammar.Statement

namespace AndroidLint.Java

open Syntax

/-! ## 1. Methods -/

/-- A parameter of a method. The object itself may stand among them as `this`. -/
def formalParameter (rules : Rules) : Reader Tree := do
  let start ← Reader.here
  let modifiers ← Reader.listed (modifiers rules)
  let type ← rules.type
  let spread : Reader Tree := do
    sign "..."
    let _ ← Reader.many rules.annotationUse
    let declarator ← variableDeclarator rules
    Reader.close start .spreadParameter (modifiers ++ [type, declarator])
  let receiver : Reader Tree := do
    let _ ← Reader.many (do let _ ← identifier; sign ".")
    word "this"
    Reader.close start .other (modifiers ++ [type])
  let plain : Reader Tree := do
    let name ← declaredName rules
    Reader.close start .formalParameter (modifiers ++ [type.as .type, name])
  spread <|> receiver <|> plain

/-- The parameters of a method. -/
def formalParameters (rules : Rules) : Reader Tree :=
  Reader.as .parameters
    (Reader.node .other (between "(" ")" (commaSeparated (formalParameter rules))))

/-- The exceptions that a method declares. -/
def throwsClause (rules : Rules) : Reader (List Tree) := Reader.listed <|
  Reader.node .other do
    word "throws"
    Reader.separated1 (sign ",") rules.type

/-- A method. One of an annotation type is an element with a default value, not a method. -/
def method (rules : Rules) (ofAnnotationType : Bool) : Reader Tree :=
  Reader.node (if ofAnnotationType then .other else .methodDeclaration) do
    let modifiers ← Reader.listed (modifiers rules)
    let _ ← Reader.optional do
      typeParameters rules
      Reader.many rules.annotationUse
    let type ← Reader.as .type rules.type
    let name ← Reader.as .name identifier
    let parameters ← formalParameters rules
    let _ ← Reader.many (dimension rules)
    let throws ← throwsClause rules
    let default ← Reader.listed do
      word "default"
      Reader.as .value rules.elementValue
    let without : Reader (List Tree) := do
      sign ";"
      pure []
    let body ← without <|> Reader.listed (Reader.as .body rules.block)
    pure (modifiers ++ [type, name, parameters] ++ throws ++ default ++ body)

/-- The call of another constructor at the beginning of one. -/
def constructorCall (rules : Rules) : Reader Tree := do
  let plain := Reader.node .other do
    let _ ← Reader.optional (typeArguments rules)
    let target ← wordLeaf .this "this" <|> wordLeaf .super "super"
    let arguments ← argumentList rules
    sign ";"
    pure [target, arguments]
  let ofOuter := Reader.node .other do
    let outer ← primary rules
    sign "."
    let _ ← Reader.optional (typeArguments rules)
    let target ← wordLeaf .super "super"
    let arguments ← argumentList rules
    sign ";"
    pure [outer.as .object, target, arguments]
  plain <|> ofOuter

/-- A constructor. -/
def constructor (rules : Rules) : Reader Tree :=
  Reader.node .constructorDeclaration do
    let modifiers ← Reader.listed (modifiers rules)
    let _ ← Reader.optional (typeParameters rules)
    let name ← Reader.as .name identifier
    let parameters ← formalParameters rules
    let throws ← throwsClause rules
    let body ← Reader.node .constructorBody do
      sign "\x7b"
      let call ← Reader.listed (constructorCall rules)
      let statements ← Reader.many rules.statement
      sign "\x7d"
      pure (call ++ statements.flatten)
    pure (modifiers ++ [name, parameters] ++ throws ++ [body.as .body])

/-- A constructor of a record that takes its parameters from the record. -/
def compactConstructor (rules : Rules) : Reader Tree :=
  Reader.node .other do
    let modifiers ← Reader.listed (modifiers rules)
    let name ← Reader.as .name identifier
    let body ← Reader.as .body rules.block
    pure (modifiers ++ [name, body])

/-! ## 2. Classes -/

/-- A member of a class; a lone semicolon is none. -/
def memberDeclaration (rules : Rules) (ofAnnotationType : Bool) : Reader (List Tree) := do
  let one (r : Reader Tree) : Reader (List Tree) := do return [← r]
  let empty : Reader (List Tree) := do
    sign ";"
    pure []
  let staticInitializer := Reader.node .staticInitializer do
    word "static"
    return [← rules.block]
  if ← atSign "\x7b" then one rules.block
  else
    empty <|> one staticInitializer <|> one rules.typeDeclaration <|> one (constructor rules)
      <|> one (compactConstructor rules) <|> one (method rules ofAnnotationType)
      <|> one (variableDeclaration rules .fieldDeclaration)

/-- Members in braces. -/
def members (rules : Rules) (ofAnnotationType : Bool) : Reader (List Tree) := do
  let all ← between "\x7b" "\x7d" (Reader.many (memberDeclaration rules ofAnnotationType))
  pure all.flatten

/-- The body of a class. -/
def classBody (rules : Rules) : Reader Tree := Reader.node .classBody (members rules false)

/-- A constant of an enumeration. -/
def enumConstant (rules : Rules) : Reader Tree :=
  Reader.node .enumConstant do
    let modifiers ← Reader.listed (modifiers rules)
    let name ← Reader.as .name identifier
    let arguments ← if ← atSign "(" then Reader.listed (argumentList rules) else pure []
    let body ← if ← atSign "\x7b" then Reader.listed (Reader.as .body rules.classBody) else pure []
    pure (modifiers ++ name :: arguments ++ body)

/-- The body of an enumeration. -/
def enumBody (rules : Rules) : Reader Tree :=
  Reader.node .other do
    sign "\x7b"
    let constants ← commaSeparated (enumConstant rules)
    let _ ← Reader.optional (sign ",")
    let rest ← Reader.listed (Reader.node .enumBodyDeclarations do
      sign ";"
      let all ← Reader.many (memberDeclaration rules false)
      pure all.flatten)
    sign "\x7d"
    pure (constants ++ rest)

/-- A list of types after a word. -/
def typeList (rules : Rules) (keyword : String) : Reader (List Tree) := Reader.listed <|
  Reader.node .other do
    word keyword
    Reader.separated1 (sign ",") rules.type

/-- A class. -/
def classRest (rules : Rules) : Reader (List Tree) := do
  word "class"
  let name ← Reader.as .name identifier
  let _ ← Reader.optional (typeParameters rules)
  let superclass ← Reader.listed <| Reader.as .superclass <| Reader.node .other do
    word "extends"
    return [← rules.type]
  let interfaces ← typeList rules "implements"
  let permits ← typeList rules "permits"
  let body ← Reader.as .body rules.classBody
  pure (name :: superclass ++ interfaces ++ permits ++ [body])

/-- An interface. -/
def interfaceRest (rules : Rules) : Reader (List Tree) := do
  word "interface"
  let name ← Reader.as .name identifier
  let _ ← Reader.optional (typeParameters rules)
  let interfaces ← typeList rules "extends"
  let permits ← typeList rules "permits"
  let body ← Reader.as .body (Reader.node .other (members rules false))
  pure (name :: interfaces ++ permits ++ [body])

/-- An enumeration. -/
def enumRest (rules : Rules) : Reader (List Tree) := do
  word "enum"
  let name ← Reader.as .name identifier
  let interfaces ← typeList rules "implements"
  let body ← Reader.as .body (enumBody rules)
  pure (name :: interfaces ++ [body])

/-- An annotation type. -/
def annotationTypeRest (rules : Rules) : Reader (List Tree) := do
  sign "@"
  word "interface"
  let name ← Reader.as .name identifier
  let body ← Reader.as .body (Reader.node .other (members rules true))
  pure [name, body]

/-- A record. -/
def recordRest (rules : Rules) : Reader (List Tree) := do
  word "record"
  let name ← Reader.as .name identifier
  let _ ← Reader.optional (typeParameters rules)
  let parameters ← formalParameters rules
  let interfaces ← typeList rules "implements"
  let body ← Reader.as .body rules.classBody
  pure (name :: parameters :: interfaces ++ [body])

/-- A class or something like it. -/
def typeDeclaration (rules : Rules) : Reader Tree := do
  let start ← Reader.here
  let modifiers ← Reader.listed (modifiers rules)
  let close (kind : Kind) (rest : Reader (List Tree)) : Reader Tree := do
    Reader.close start kind (modifiers ++ (← rest))
  close .classDeclaration (classRest rules)
    <|> close .interfaceDeclaration (interfaceRest rules)
    <|> close .enumDeclaration (enumRest rules)
    <|> close .annotationTypeDeclaration (annotationTypeRest rules)
    <|> close .recordDeclaration (recordRest rules)

/-! ## 3. Files -/

/-- The rules, given the rules for what is nested. -/
def Rules.next (rules : Rules) : Rules where
  expression := Java.expression rules
  unary := Java.unary rules
  type := Java.type rules
  annotationUse := Java.annotationUse rules
  elementValue := Java.elementValue rules
  initializer := Java.initializer rules
  block := Java.block rules
  statement := Java.statement rules
  switchBlock := Java.switchBlock rules
  classBody := Java.classBody rules
  typeDeclaration := Java.typeDeclaration rules

/-- The rules for constructs that are nested up to a depth. -/
def Rules.upTo (depth : Nat) : Rules := depth.repeat Rules.next Rules.none

/-- The declaration of the package. -/
def packageDeclaration (rules : Rules) : Reader Tree :=
  Reader.node .packageDeclaration do
    let _ ← Reader.many rules.annotationUse
    word "package"
    let name ← qualifiedName
    sign ";"
    pure [name]

/-- An import. -/
def importDeclaration : Reader Tree :=
  Reader.node .importDeclaration do
    word "import"
    let _ ← Reader.optional (word "static")
    let name ← qualifiedName
    let all ← Reader.listed do
      sign "."
      Reader.leaf .asterisk (Reader.token (isSign "*"))
    sign ";"
    pure (name :: all)

/-- The declaration of a module. -/
def moduleDeclaration (rules : Rules) : Reader Tree :=
  Reader.node .other do
    let _ ← Reader.many rules.annotationUse
    let _ ← Reader.optional (word "open")
    word "module"
    let _ ← qualifiedName
    bracketed "\x7b" "\x7d"
    pure []

/-- A declaration at the top of a file. -/
def topLevel (rules : Rules) : Reader (List Tree) := do
  let one (r : Reader Tree) : Reader (List Tree) := do return [← r]
  one (packageDeclaration rules) <|> one importDeclaration <|> one (moduleDeclaration rules)
    <|> one rules.typeDeclaration <|> one (method rules false) <|> rules.statement

/-- The syntax tree of a file. Nothing is nested deeper than the file has tokens, and between two
    tokens the rules go down a few steps only. -/
def parse (contents : List Char) : Tree :=
  let tokens := Java.tokens contents
  let rules := Rules.upTo (4 * tokens.length + 8)
  let (all, rest) := Reader.manyFrom (topLevel rules) ⟨tokens, 0⟩
  ⟨.other, .plain, ⟨0, rest.last⟩, String.ofList contents, all.flatten⟩

end AndroidLint.Java
