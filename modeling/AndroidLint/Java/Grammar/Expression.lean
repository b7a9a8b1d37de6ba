/-
  File:      AndroidLint/Java/Grammar/Expression.lean
  Subject:   Expressions of Java.
-/
import AndroidLint.Java.Grammar.Operator

namespace AndroidLint.Java

open Syntax

/-! ## 1. Lambdas -/

/-- Whether a lambda begins here: a name or a bracketed run of tokens before an arrow. -/
def atLambda : Reader Bool := Reader.succeeds do
  bracketed "(" ")" <|> do let _ ← identifier
  sign "->"

/-- A lambda. Its parameters are not looked into. -/
def lambda (rules : Rules) : Reader Tree :=
  Reader.node .lambda do
    let parameters ← Reader.node .other do
      bracketed "(" ")" <|> do let _ ← identifier
      pure []
    sign "->"
    let body ← if ← atSign "\x7b" then rules.block else rules.expression
    pure [parameters.as .parameters, body.as .body]

/-! ## 2. Expressions that begin with a word or a bracket -/

/-- The arguments of a call. -/
def argumentList (rules : Rules) : Reader Tree :=
  Reader.as .arguments (Reader.node .other (between "(" ")" (commaSeparated rules.expression)))

/-- An expression in brackets. -/
def parenthesized (rules : Rules) : Reader Tree :=
  Reader.node .parenthesized do return [← between "(" ")" rules.expression]

/-- The elements of an array. -/
def arrayInitializer (rules : Rules) : Reader Tree :=
  Reader.node .arrayInitializer do
    sign "\x7b"
    let elements ← commaSeparated rules.initializer
    let _ ← Reader.optional (sign ",")
    sign "\x7d"
    pure elements

/-- An expression or the elements of an array. -/
def initializer (rules : Rules) : Reader Tree := do
  if ← atSign "\x7b" then arrayInitializer rules else rules.expression

/-- What follows `new`, given what stands before it: an object with the arguments of its
    constructor, or an array. -/
def creation (rules : Rules) (start : Input TokenKind) (outer : List Tree) : Reader Tree := do
  word "new"
  let annotations ← Reader.many rules.annotationUse
  let _ ← Reader.optional (typeArguments rules)
  let type ← Reader.as .type (simpleType rules)
  let before := outer ++ annotations ++ [type]
  if ← atSign "(" then
    let arguments ← argumentList rules
    let body ← if ← atSign "\x7b" then Reader.listed rules.classBody else pure []
    Reader.close start .objectCreation (before ++ arguments :: body)
  else
    let empty := Reader.node .other do
      let _ ← Reader.many1 (dimension rules)
      pure []
    let measured := Reader.node .other do
      let _ ← Reader.many rules.annotationUse
      sign "["
      let size ← rules.expression
      sign "]"
      pure [size]
    let rest ← (do
        let dimensions ← empty
        let elements ← Reader.as .value (arrayInitializer rules)
        pure [dimensions, elements])
      <|> do
        let sizes ← Reader.many1 measured
        let dimensions ← Reader.listed empty
        pure (sizes ++ dimensions)
    Reader.close start .arrayCreation (before ++ rest)

/-- A name, or a call of a method by its name alone. -/
def nameOrCall (rules : Rules) : Reader Tree := do
  let start ← Reader.here
  let name ← identifier
  if ← atSign "(" then
    let arguments ← argumentList rules
    Reader.close start .methodInvocation [name.as .name, arguments]
  else pure name

/-- A type before `.class` or `::`, where it is more than a name. -/
def typeExpression (rules : Rules) : Reader Tree :=
  Reader.node .other do
    let type ← type rules
    Reader.check <| type.text.toList.any fun c => c == '[' || c == '<' || Text.isBlank c ||
      primitiveTypes.contains type.text
    let reference : Reader Unit := do
      sign "::"
      let _ ← Reader.optional (typeArguments rules)
      word "new" <|> do let _ ← identifier
    reference <|> do sign "."; word "class"
    pure [type]

/-- A literal. -/
def literal : Reader Tree := do
  let t ← Reader.token fun t => t.kind != .sign
  let kind ← match t.kind with
    | .integer => pure Kind.integerLiteral
    | .float => pure .floatLiteral
    | .character => pure .characterLiteral
    | .string => pure .stringLiteral
    | .word =>
      match t.text with
      | "true" => pure .trueLiteral
      | "false" => pure .falseLiteral
      | "null" => pure .nullLiteral
      | "this" => pure .this
      | "super" => pure .super
      | _ => Reader.fail
    | .sign => Reader.fail
  pure ⟨kind, .plain, t.range, t.text, []⟩

/-- An expression without anything after it that belongs to it. -/
def atom (rules : Rules) : Reader Tree := do
  let start ← Reader.here
  if ← atSign "(" then parenthesized rules
  else if ← atWord "new" then creation rules start []
  else if ← atWord "switch" then
    Reader.node .other do
      word "switch"
      return [← parenthesized rules, ← rules.switchBlock]
  else literal <|> typeExpression rules <|> nameOrCall rules

/-! ## 3. What follows an expression -/

/-- What a dot can add to an expression. -/
def member (rules : Rules) (start : Input TokenKind) (object : Tree) : Reader Tree := do
  sign "."
  let object := object.as .object
  if ← atWord "new" then creation rules start [object]
  else if ← atWord "class" then
    word "class"
    Reader.close start .other [object]
  else if ← atWord "this" then
    word "this"
    Reader.close start .fieldAccess [object]
  else
    let _ ← Reader.optional do
      word "super"
      sign "."
    let _ ← Reader.optional (typeArguments rules)
    let text := Reader.leaf .stringLiteral (Reader.token (·.kind == .string))
    let name ← identifier <|> text
    if name.kind == .stringLiteral then Reader.close start .other [object, name]
    else if ← atSign "(" then
      let arguments ← argumentList rules
      Reader.close start .methodInvocation [object, name.as .name, arguments]
    else Reader.close start .fieldAccess [object, name]

/-- One more thing that follows an expression. -/
def suffix (rules : Rules) (start : Input TokenKind) (object : Tree) : Reader Tree := do
  let element : Reader Tree := do
    let index ← between "[" "]" rules.expression
    Reader.close start .other [object, index]
  let reference : Reader Tree := do
    sign "::"
    let _ ← Reader.optional (typeArguments rules)
    word "new" <|> do let _ ← identifier
    Reader.close start .other [object]
  member rules start object <|> element <|> reference

/-- An expression with all that follows it. -/
def primary (rules : Rules) : Reader Tree := do
  let start ← Reader.here
  Reader.iterate (suffix rules start) (← atom rules)

/-! ## 4. Operators before and after -/

/-- Whether an operand of a cast can begin here. After the name of a class no sign can, because it
    would be an operator between two operands. -/
def atCastOperand (primitive : Bool) : Reader Bool := do
  match ← Reader.peek? with
  | none => pure false
  | some t =>
    match t.kind with
    | .sign => pure (t.text == "(" || t.text == "!" || t.text == "~" ||
        (primitive && ["+", "-", "++", "--"].contains t.text))
    | .word => pure (t.text != "instanceof")
    | _ => pure true

/-- A cast. -/
def cast (rules : Rules) : Reader Tree :=
  Reader.node .cast do
    let types ← between "(" ")" (Reader.separated1 (sign "&") rules.type)
    let primitive := types.any fun t => primitiveTypes.contains t.text
    Reader.check (← atCastOperand primitive)
    let value ← if ← atLambda then lambda rules else rules.unary
    pure (types.map (·.as .type) ++ [value.as .value])

/-- The signs that change the operand after them. -/
def unarySigns : List String := ["+", "-", "!", "~"]

/-- An operand with the operators before and after it. -/
def unary (rules : Rules) : Reader Tree := do
  let start ← Reader.here
  let step : Reader Unit := sign "++" <|> sign "--"
  let before := Reader.node .unary do
    let operator ← Reader.leaf .token (Reader.token fun t =>
      t.kind == .sign && unarySigns.contains t.text)
    let operand ← rules.unary
    pure [operator.as .operator, operand.as .operand]
  let stepBefore := Reader.node .other do
    step
    return [← rules.unary]
  let plain : Reader Tree := do
    let operand ← primary rules
    Reader.iterate (fun t => do step; Reader.close start .other [t]) operand
  before <|> stepBefore <|> cast rules <|> plain

/-! ## 5. Whole expressions -/

/-- A pattern after `instanceof` or `case`, as tokens: a type with a name, or with patterns for its
    parts. -/
def pattern (rules : Rules) : Reader Tree :=
  Reader.node .other do
    let _ ← Reader.optional (word "final")
    let type ← rules.type
    let parts : Reader Unit := do
      bracketed "(" ")"
      let _ ← Reader.optional identifier
    parts <|> do let _ ← identifier
    pure [type]

/-- A link of a chain of operands. -/
def link (rules : Rules) : Reader Link := do
  if ← atWord "instanceof" then
    word "instanceof"
    let plain : Reader Tree := do
      let _ ← Reader.optional (word "final")
      rules.type
    let right ← pattern rules <|> plain
    pure (.test [right.as .right] (← Reader.here).last)
  else
    let (operator, level) ← binaryOperator
    let start ← Reader.here
    let right ← if ← atLambda then lambda rules else rules.unary
    pure (.operator operator level ⟨start, right⟩)

/-- Operands with operators between them. -/
def chain (rules : Rules) : Reader Tree := do
  let start ← Reader.here
  let first ← rules.unary
  return Chain.tree ⟨start, first⟩ (← Reader.many (link rules))

/-- A chain, or a choice between two expressions that depends on one. -/
def conditional (rules : Rules) : Reader Tree := do
  let start ← Reader.here
  let condition ← chain rules
  if ← atSign "?" then
    sign "?"
    let consequence ← rules.expression
    sign ":"
    let alternative ← rules.expression
    Reader.close start .ternary [condition, consequence.as .consequence, alternative]
  else pure condition

/-- An expression. -/
def expression (rules : Rules) : Reader Tree := do
  if ← atLambda then lambda rules
  else
    let start ← Reader.here
    let left ← conditional rules
    let assignment : Reader Tree := do
      assignmentOperator
      let right ← rules.expression
      Reader.close start .other [left.as .left, right.as .right]
    assignment <|> pure left

end AndroidLint.Java
