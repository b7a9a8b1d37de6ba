/-
  File:      AndroidLint/Java/Grammar/Statement.lean
  Subject:   Statements of Java.
-/
import AndroidLint.Java.Grammar.Expression

namespace AndroidLint.Java

open Syntax

/-! ## 1. Variables -/

/-- The name of a variable, with the brackets that may follow it. -/
def declaredName (rules : Rules) : Reader Tree := do
  let name ← Reader.as .name identifier
  let _ ← Reader.many (dimension rules)
  pure name

/-- A variable with its value. -/
def variableDeclarator (rules : Rules) : Reader Tree :=
  Reader.node .variableDeclarator do
    let name ← declaredName rules
    let value ← Reader.listed do
      sign "="
      Reader.as .value rules.initializer
    pure (name :: value)

/-- Variables of one type, up to the semicolon. -/
def variableDeclaration (rules : Rules) (kind : Kind) : Reader Tree :=
  Reader.node kind do
    let modifiers ← Reader.listed (modifiers rules)
    let type ← Reader.as .type rules.type
    let declarators ← Reader.separated1 (sign ",") (variableDeclarator rules)
    sign ";"
    pure (modifiers ++ type :: declarators)

/-! ## 2. Loops and choices -/

/-- A loop over the elements of something. -/
def enhancedFor (rules : Rules) : Reader Tree :=
  Reader.node .enhancedForStatement do
    word "for"
    sign "("
    let modifiers ← Reader.listed (modifiers rules)
    let type ← Reader.as .type rules.type
    let name ← declaredName rules
    sign ":"
    let value ← Reader.as .value rules.expression
    sign ")"
    let body ← rules.statement
    pure (modifiers ++ [type, name, value] ++ body)

/-- A loop with a beginning, a condition and a step. -/
def plainFor (rules : Rules) : Reader Tree :=
  Reader.node .forStatement do
    word "for"
    sign "("
    let declared : Reader (List Tree) := do
      return [← variableDeclaration rules .localVariableDeclaration]
    let expressions : Reader (List Tree) := do
      let all ← commaSeparated rules.expression
      sign ";"
      pure all
    let beginning ← declared <|> expressions
    let condition ← Reader.listed rules.expression
    sign ";"
    let update ← commaSeparated rules.expression
    sign ")"
    let body ← rules.statement
    pure (beginning ++ condition ++ update ++ body)

/-- A label of a `switch`. -/
def switchLabel (rules : Rules) : Reader Tree :=
  Reader.node .other do
    let guard := do
      word "when"
      rules.expression
    let labelled : Reader (List Tree) := do
      word "case"
      let patterns : Reader (List Tree) := do return [← pattern rules]
      let constants := Reader.separated1 (sign ",")
        (conditional rules <|> wordLeaf .token "default")
      let labels ← patterns <|> constants
      let guard ← Reader.listed guard
      pure (labels ++ guard)
    let fallback : Reader (List Tree) := do
      word "default"
      pure []
    labelled <|> fallback

/-- The body of a `switch`. -/
def switchBlock (rules : Rules) : Reader Tree := do
  let group := Reader.node .other do
    let labels ← Reader.many1 do
      let label ← switchLabel rules
      sign ":"
      pure label
    let statements ← Reader.many rules.statement
    pure (labels ++ statements.flatten)
  let arm := Reader.node .other do
    let label ← switchLabel rules
    sign "->"
    let action ← rules.statement
    pure (label :: action)
  Reader.node .switchBlock (between "\x7b" "\x7d" (Reader.many (group <|> arm)))

/-! ## 3. Exceptions -/

/-- A clause that catches exceptions. -/
def catchClause (rules : Rules) : Reader Tree :=
  Reader.node .catchClause do
    word "catch"
    let parameter := Reader.node .catchParameter do
      let modifiers ← Reader.listed (modifiers rules)
      let types ← Reader.node .catchType (Reader.separated1 (sign "|") rules.type)
      let name ← declaredName rules
      pure (modifiers ++ [types, name])
    let parameter ← between "(" ")" parameter
    let body ← Reader.as .body rules.block
    pure [parameter, body]

/-- The resources of a `try`. -/
def resources (rules : Rules) : Reader Tree := do
  let declared := Reader.node .other do
    let modifiers ← Reader.listed (modifiers rules)
    let type ← Reader.as .type rules.type
    let name ← declaredName rules
    sign "="
    let value ← Reader.as .value rules.expression
    pure (modifiers ++ [type, name, value])
  let used := Reader.node .other do return [← rules.expression]
  Reader.node .other do
    sign "("
    let all ← Reader.separated1 (sign ";") (declared <|> used)
    let _ ← Reader.optional (sign ";")
    sign ")"
    pure all

/-- A `try`, with or without resources. -/
def tryStatement (rules : Rules) : Reader Tree :=
  Reader.node .tryStatement do
    word "try"
    let resources ← Reader.listed (Reader.as .resources (resources rules))
    let body ← Reader.as .body rules.block
    let clauses ← Reader.many (catchClause rules)
    let final ← Reader.listed (Reader.node .finallyClause do
      word "finally"
      return [← rules.block])
    pure (resources ++ body :: clauses ++ final)

/-! ## 4. All statements -/

/-- A block. -/
def block (rules : Rules) : Reader Tree :=
  Reader.node .block do
    let statements ← between "\x7b" "\x7d" (Reader.many rules.statement)
    pure statements.flatten

/-- A statement that begins with a keyword and ends with a semicolon; `inside` reads what stands
    between. -/
def simple (keyword : String) (inside : Reader (List Tree)) : Reader Tree :=
  Reader.node .other do
    word keyword
    let children ← inside
    sign ";"
    pure children

/-- A statement that begins with a keyword and a condition in brackets. -/
def guarded (rules : Rules) (keyword : String) (inside : Reader (List Tree)) : Reader Tree :=
  Reader.node .other do
    word keyword
    let condition ← parenthesized rules
    let children ← inside
    pure (condition :: children)

/-- A statement that begins with a given keyword. -/
def keywordStatement (rules : Rules) (keyword : String) : Reader Tree :=
  match keyword with
  | "if" => guarded rules keyword do
    let consequence ← rules.statement
    let alternative ← Reader.optional do
      word "else"
      rules.statement
    pure (consequence ++ alternative.getD [])
  | "while" => guarded rules keyword rules.statement
  | "switch" => guarded rules keyword do return [← rules.switchBlock]
  | "synchronized" => guarded rules keyword do return [← rules.block]
  | "for" => enhancedFor rules <|> plainFor rules
  | "do" => Reader.node .other do
    word keyword
    let body ← rules.statement
    word "while"
    let condition ← parenthesized rules
    sign ";"
    pure (body ++ [condition])
  | "try" => tryStatement rules
  | "return" => simple keyword (Reader.listed rules.expression)
  | "throw" => simple keyword do return [← rules.expression]
  | "break" | "continue" => simple keyword (Reader.listed identifier)
  | "assert" => simple keyword do
    let condition ← rules.expression
    let message ← Reader.listed do
      sign ":"
      rules.expression
    pure (condition :: message)
  | "yield" => do
    let next ← Reader.peekSecond?
    Reader.check (!next.any fun t => t.kind == .sign &&
      (assignmentSigns ++ [".", "[", "++", "--", "->", "::", ":", ")"]).contains t.text)
    simple keyword do return [← rules.expression]
  | _ => Reader.fail

/-- An expression as a statement. -/
def expressionStatement (rules : Rules) : Reader Tree :=
  Reader.node .expressionStatement do
    let e ← rules.expression
    sign ";"
    pure [e]

/-- A statement with a label. -/
def labelledStatement (rules : Rules) : Reader Tree :=
  Reader.node .other do
    let label ← identifier
    sign ":"
    let statement ← rules.statement
    pure (label :: statement)

/-- A statement; an empty one is no node. -/
def statement (rules : Rules) : Reader (List Tree) := do
  let one (r : Reader Tree) : Reader (List Tree) := do return [← r]
  match ← Reader.peek? with
  | none => Reader.fail
  | some t =>
    if isSign ";" t then do sign ";"; pure []
    else if isSign "\x7b" t then one rules.block
    else
      one (if t.kind == .word then keywordStatement rules t.text else Reader.fail)
        <|> one rules.typeDeclaration
        <|> one (variableDeclaration rules .localVariableDeclaration)
        <|> one (labelledStatement rules)
        <|> one (expressionStatement rules)

end AndroidLint.Java
