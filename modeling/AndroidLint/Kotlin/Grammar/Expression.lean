/-
  File:      AndroidLint/Kotlin/Grammar/Expression.lean
  Subject:   Expressions of Kotlin.

  Operators between operands are not told apart: a chain of operands is one node that holds them
  all, because no rule looks at it.
-/
import AndroidLint.Kotlin.Grammar.Basic

namespace AndroidLint.Kotlin

open Syntax

/-! ## 1. Calls -/

/-- An argument of a call: the name that it may be given comes first, the value last. -/
def valueArgument (rules : Rules) : Reader Tree :=
  Reader.node .valueArgument do
    let annotations ← Reader.many (annotationUse rules)
    let name ← Reader.listed do
      let name ← simpleIdentifier
      sign "="
      pure name
    let spread := Reader.node .other do
      sign "*"
      return [← rules.expression]
    let value ← spread <|> rules.expression
    pure (annotations ++ name ++ [value])

/-- The arguments of a call. -/
def valueArguments (rules : Rules) : Reader Tree :=
  Reader.node .valueArguments (between "(" ")" (commaSeparated (valueArgument rules)))

/-- The parameters of a lambda up to the arrow. -/
def lambdaParameters (rules : Rules) : Reader Unit := do
  let typed : Reader Unit := do
    let _ ← Reader.optional do
      sign ":"
      rules.type
  let plain : Reader Unit := do
    skipName
    typed
  let destructured : Reader Unit := do
    bracketed "(" ")"
    typed
  let _ ← commaSeparated (plain <|> destructured)
  sign "->"

/-- A lambda. -/
def lambda (rules : Rules) : Reader Tree :=
  Reader.node .other do
    sign "\x7b"
    let _ ← Reader.optional (lambdaParameters rules)
    let statements ← rules.statements
    sign "\x7d"
    pure statements

/-- Statements in braces. -/
def block (rules : Rules) : Reader (List Tree) := between "\x7b" "\x7d" rules.statements

/-- A lambda after a call, which may carry annotations and a label. -/
def annotatedLambda (rules : Rules) : Reader Tree :=
  Reader.node .other do
    let annotations ← Reader.many (annotationUse rules)
    let _ ← Reader.optional do
      skipName
      attached "@"
    let lambda ← rules.lambda
    pure (annotations ++ [lambda])

/-! ## 2. What follows an expression -/

/-- What a dot adds to an expression. -/
def navigation (rules : Rules) (start : Input TokenKind) (object : Tree) : Reader Tree := do
  let suffix ← Reader.node .navigationSuffix do
    sign "." <|> sign "?." <|> sign "::"
    let parenthesized := Reader.node .parenthesizedExpression do
      return [← between "(" ")" rules.expression]
    let name ← simpleIdentifier <|> parenthesized <|>
      Reader.leaf .token (Reader.token (isWord "class"))
    pure [name]
  Reader.close start .navigationExpression [object, suffix]

/-- A call of what stands before. -/
def call (rules : Rules) (start : Input TokenKind) (callee : Tree) : Reader Tree := do
  let suffix ← Reader.node .callSuffix do
    let types ← Reader.listed (typeArguments rules)
    let arguments ← rules.valueArguments <|> annotatedLambda rules
    pure (types ++ [arguments])
  Reader.close start .callExpression [callee, suffix]

/-- One more thing that follows an expression in the same statement. -/
def suffix (rules : Rules) (start : Input TokenKind) (object : Tree) : Reader Tree := do
  sameStatement
  let element : Reader Tree := do
    let indices ← between "[" "]" (commaSeparated rules.expression)
    Reader.close start .other (object :: indices)
  let mark : Reader Tree := do
    sign "!!" <|> sign "++" <|> sign "--"
    Reader.close start .other [object]
  navigation rules start object <|> call rules start object <|> element <|> mark

/-! ## 3. Branches -/

/-- The body of a branch or a loop. -/
def controlBody (rules : Rules) : Reader Tree :=
  Reader.node .other do
    if ← atSign "\x7b" then block rules else return [← rules.statement]

/-- A choice between two branches. -/
def ifExpression (rules : Rules) : Reader Tree :=
  Reader.node .other do
    word "if"
    let condition ← between "(" ")" rules.expression
    let consequence ← Reader.listed do
      Reader.check (!(← atWord "else"))
      controlBody rules
    let alternative ← Reader.optional do
      let _ ← Reader.optional (sign ";")
      word "else"
      Reader.listed (controlBody rules)
    pure (condition :: consequence ++ alternative.getD [])

/-- The declaration of a variable without a value. -/
def variableDeclaration (rules : Rules) : Reader Tree :=
  Reader.node .variableDeclaration do
    let annotations ← Reader.many (annotationUse rules)
    let name ← simpleIdentifier
    let type ← Reader.listed do
      sign ":"
      rules.type
    pure (annotations ++ name :: type)

/-- Several variables in brackets. -/
def multiVariableDeclaration (rules : Rules) : Reader Tree :=
  Reader.node .other (between "(" ")" (commaSeparated (variableDeclaration rules)))

/-- A choice between cases. -/
def whenExpression (rules : Rules) : Reader Tree :=
  Reader.node .other do
    word "when"
    let subject : Reader (List Tree) := do
      let declared ← Reader.listed do
        let _ ← Reader.many (annotationUse rules)
        word "val"
        let declaration ← variableDeclaration rules
        sign "="
        pure declaration
      let value ← rules.expression
      pure (declared ++ [value])
    let subject ← Reader.optional (between "(" ")" subject)
    let membership := Reader.node .other do
      let _ ← Reader.optional (sign "!")
      word "in"
      return [← rules.expression]
    let classTest := Reader.node .other do
      let _ ← Reader.optional (sign "!")
      word "is"
      return [← rules.type]
    let otherwise := Reader.leaf .token (Reader.token (isWord "else"))
    let entry := Reader.node .other do
      let conditions ← commaSeparated (membership <|> classTest <|> otherwise <|> rules.expression)
      sign "->"
      let body ← controlBody rules
      let _ ← Reader.many (sign ";")
      pure (conditions ++ [body])
    let entries ← between "\x7b" "\x7d" (Reader.many entry)
    pure (subject.getD [] ++ entries)

/-- A block with the exceptions that are caught around it. -/
def tryExpression (rules : Rules) : Reader Tree :=
  Reader.node .other do
    word "try"
    let body ← block rules
    let clause := Reader.node .other do
      word "catch"
      sign "("
      let annotations ← Reader.many (annotationUse rules)
      let name ← simpleIdentifier
      sign ":"
      let type ← rules.type
      let _ ← Reader.optional (sign ",")
      sign ")"
      let body ← block rules
      pure (annotations ++ name :: type :: body)
    let clauses ← Reader.many clause
    let final ← Reader.listed (Reader.node .other do
      word "finally"
      block rules)
    pure (body ++ clauses ++ final)

/-- A statement that leaves a block. -/
def jumpExpression (rules : Rules) : Reader Tree :=
  Reader.node .other do
    let label : Reader Unit := do
      attached "@"
      skipName
    let value : Reader Tree := do
      sameStatement
      rules.expression
    if ← atWord "throw" then
      word "throw"
      return [← rules.expression]
    else if ← atWord "return" then
      word "return"
      let _ ← Reader.optional label
      Reader.listed value
    else
      word "break" <|> word "continue"
      let _ ← Reader.optional label
      pure []

/-! ## 4. Expressions that begin with a word or a bracket -/

/-- A string with the expressions inside it. -/
def stringLiteral (rules : Rules) : Reader Tree := do
  let t ← Reader.token (·.kind == .string)
  let inside := (interpolations t.range.start t.text).filterMap fun (offset, code) =>
    let piece := Reader.node .other do return [← rules.expression]
    (piece ⟨tokensAt offset code, offset⟩).map (·.1)
  pure ⟨.stringLiteral, .plain, t.range, t.text, inside⟩

/-- A literal other than a string. -/
def literal : Reader Tree := do
  let t ← Reader.token fun t => t.kind != .sign && t.kind != .string
  let kind ← match t.kind with
    | .integer => pure Kind.integerLiteral
    | .long => pure .longLiteral
    | .unsigned => pure .other
    | .real => pure .realLiteral
    | .character => pure .characterLiteral
    | _ =>
      match t.text with
      | "true" | "false" => if t.kind == .word then pure .booleanLiteral else Reader.fail
      | "null" => pure .token
      | _ => Reader.fail
  pure ⟨kind, .plain, t.range, t.text, []⟩

/-- The object itself, which may carry a label. -/
def selfReference (rules : Rules) : Reader Tree := do
  let label : Reader Unit := do
    attached "@"
    skipName
  let this := Reader.node .thisExpression do
    word "this"
    let _ ← Reader.optional label
    pure []
  let super := Reader.node .superExpression do
    word "super"
    let types ← Reader.listed (Reader.node .other (do return [← between "<" ">" rules.type]))
    let _ ← Reader.optional label
    pure types
  this <|> super

/-- A reference to a function or a class by its name. -/
def callableReference : Reader Tree :=
  Reader.node .other do
    let _ ← Reader.optional skipName
    sign "::"
    skipName <|> word "class"
    pure []

/-- An object without a name. -/
def objectLiteral (rules : Rules) : Reader Tree :=
  Reader.node .other do
    let _ ← Reader.optional (word "data")
    word "object"
    let specifiers ← Reader.optional do
      sign ":"
      rules.delegation
    let body ← rules.classBody
    pure (specifiers.getD [] ++ [body])

/-- A function without a name. -/
def anonymousFunction (rules : Rules) : Reader Tree :=
  Reader.node .other do
    let _ ← Reader.optional (word "suspend")
    word "fun"
    Reader.check (← atSign "(")
    rules.functionRest

/-- An expression without anything after it that belongs to it. -/
def atom (rules : Rules) : Reader Tree := do
  let parenthesized := Reader.node .parenthesizedExpression do
    return [← between "(" ")" rules.expression]
  let collection := Reader.node .other do between "[" "]" (commaSeparated rules.expression)
  match ← Reader.peek? with
  | none => Reader.fail
  | some t =>
    match t.kind with
    | .string => stringLiteral rules
    | .sign =>
      match t.text with
      | "(" => parenthesized
      | "[" => collection
      | "\x7b" => rules.lambda
      | _ => callableReference
    | .word =>
      match t.text with
      | "if" => ifExpression rules
      | "when" => whenExpression rules
      | "try" => tryExpression rules
      | "return" | "throw" | "break" | "continue" => jumpExpression rules
      | "this" | "super" => selfReference rules
      | "object" => objectLiteral rules
      | "fun" => anonymousFunction rules
      | _ =>
        literal <|> callableReference <|> objectLiteral rules <|> anonymousFunction rules
          <|> simpleIdentifier
    | _ => literal

/-- An expression with all that follows it. -/
def postfixed (rules : Rules) : Reader Tree := do
  let start ← Reader.here
  Reader.iterate (suffix rules start) (← atom rules)

/-- An operand with the operators in front of it. -/
def unary (rules : Rules) : Reader Tree := do
  let signed := Reader.node .prefixExpression do
    let operator ← Reader.leaf .token (Reader.token fun t =>
      t.kind == .sign && ["-", "+", "!", "--", "++", "!!"].contains t.text)
    let operand ← rules.unary
    pure [operator, operand]
  let annotated := Reader.node .prefixExpression do
    let mark ← annotationUse rules
    let operand ← rules.unary
    pure [mark, operand]
  let labelled := Reader.node .prefixExpression do
    skipName
    attached "@"
    let operand ← rules.unary
    pure [operand]
  signed <|> annotated <|> labelled <|> postfixed rules

/-! ## 5. Operators between operands -/

/-- The signs between two operands. -/
def operatorSigns : List String :=
  ["*", "/", "%", "+", "-", "..", "..<", "?:", "<", "<=", "==", "!=", "===", "!==", "&&", "||"]

/-- An operator in the same statement, with the operand or type after it. -/
def link (rules : Rules) : Reader Tree := do
  sameStatement
  let operator : Reader Unit := do
    let _ ← Reader.token fun t => t.kind == .sign && operatorSigns.contains t.text
  let greater : Reader Unit := do
    sign ">"
    let _ ← Reader.optional (attached "=")
  let membership : Reader Unit := do
    let _ ← Reader.optional (sign "!")
    word "in"
  let function : Reader Unit := skipName
  let operand : Reader Tree := do
    operator <|> greater <|> membership <|> function
    rules.unary
  let typed : Reader Tree := do
    let test : Reader Unit := do
      let _ ← Reader.optional (sign "!")
      word "is"
    let cast : Reader Unit := do
      word "as"
      let _ ← Reader.optional (attached "?")
    test <|> cast
    rules.type
  typed <|> operand

/-- An expression. -/
def expression (rules : Rules) : Reader Tree := do
  let start ← Reader.here
  let first ← rules.unary
  let rest ← Reader.many (link rules)
  if rest.isEmpty then pure first else Reader.close start .other (first :: rest)

end AndroidLint.Kotlin
