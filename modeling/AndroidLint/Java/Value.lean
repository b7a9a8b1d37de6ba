/-
  File:      AndroidLint/Java/Value.lean
  Subject:   What an expression of Java is, and its type.

  `expr` keeps the value of literals, the path of names and the shape of calls and arrays; of
  anything else it keeps the type only, where the file decides it.
-/
import AndroidLint.Java.Scope
import AndroidLint.Source.Literal
import AndroidLint.Source.Model
import AndroidLint.Text.LetterCase

namespace AndroidLint.Java

open Source Syntax

/-! ## 1. Types of operators -/

/-- The order of the numeric types; smaller ones are widened to larger ones. -/
def numericRank? (type : String) : Option Nat :=
  match unbox type with
  | "byte" | "short" | "char" | "int" => some 1
  | "long" => some 2
  | "float" => some 3
  | "double" => some 4
  | _ => none

/-- The numeric type of a rank. -/
def rankType : Nat → String
  | 1 => "int"
  | 2 => "long"
  | 3 => "float"
  | _ => "double"

/-- Whether a type is known to be the type of strings. -/
def isStringType (type : Option String) : Bool :=
  type == some "String" || type == some "java.lang.String"

/-- The type of two numbers after the smaller one is widened. -/
def widenedType? (left right : Option String) : Option String := do
  let l ← numericRank? (← left)
  let r ← numericRank? (← right)
  pure (rankType (max l r))

/-- The type of an operator's result, given the types of its operands. -/
def binaryType? (operator : String) (left right : Option String) : Option String :=
  match operator with
  | "==" | "!=" | "<" | ">" | "<=" | ">=" | "&&" | "||" => some "boolean"
  | "+" => if isStringType left || isStringType right then some "String" else widenedType? left right
  | "<<" | ">>" | ">>>" => (left.bind numericRank?).map fun rank => rankType (min rank 2)
  | "&" | "|" | "^" =>
    if left = some "boolean" ∧ right = some "boolean" then some "boolean"
    else widenedType? left right
  | _ => widenedType? left right

/-- What an operator in front makes of its operand: a sign is taken into a number, and `+` changes
    nothing. -/
def unaryExpr (operator : String) (operand : Option Expr) : ExprKind Expr × Option String :=
  match operator, operand with
  | "!", _ => (.other, some "boolean")
  | _, none => (.other, none)
  | "+", some e => (e.kind, e.type)
  | "-", some e =>
    match e.kind with
    | .int v => (.int (-v), e.type)
    | .float v => (.float (-v), e.type)
    | _ => (.other, e.type)
  | _, some e => (.other, e.type)

/-! ## 2. Leaves -/

/-- The type of a whole number, which its suffix tells. -/
def intType (text : String) : String :=
  if Text.hasTail "l" text || Text.hasTail "L" text then "long" else "int"

/-- A dotted path. A resource is a whole number, and a path from `this` has the type of the
    field. -/
def pathExpr (s : Scopes) (text : String) : ExprKind Expr × Option String :=
  let path := Text.withoutBlanks text
  let type :=
    if (Expr.resourcePath? path).isSome then some "int"
    else (Text.afterHead? "this." path).bind s.field?
  (.name path, type)

/-- The type of a call's result, where its name tells it. -/
def callType? (receiver : Option String) (name : String) : Option String :=
  match receiver, name with
  | _, "toString" => some "String"
  | some "String", "valueOf" => some "String"
  | some "String", "format" => some "String"
  | _, _ => none

/-- The erased type that a node names. -/
def typeOf? (t : Tree) : Option String := (t.textOf? .type).map erase

/-! ## 3. Expressions -/

mutual

/-- What an expression is, and its type. -/
def expr (s : Scopes) (t : Tree) : Expr :=
  let plain (e : ExprKind Expr × Option String) : Expr := ⟨e.1, e.2, t.range⟩
  match t.kind with
  | .integerLiteral => plain (intExpr (intType t.text) t.text)
  | .floatLiteral => plain (floatExpr t.text)
  | .trueLiteral => plain (.bool true, some "boolean")
  | .falseLiteral => plain (.bool false, some "boolean")
  | .nullLiteral => plain (.null, none)
  | .characterLiteral => plain (.char (charLiteral t.text), some "char")
  | .stringLiteral => plain (.str (stringLiteral t.text), some "String")
  | .parenthesized =>
    match _found : t.children with
    | inner :: _ => { expr s inner with range := t.range }
    | [] => plain (.other, none)
  | .unary =>
    let operand := match _found : t.child? .operand with
      | some o => some (expr s o)
      | none => none
    plain (unaryExpr ((t.textOf? .operator).getD "") operand)
  | .identifier => plain (.name t.text, s.type? t.text)
  | .fieldAccess => plain (pathExpr s t.text)
  | .methodInvocation =>
    let name := (t.textOf? .name).getD ""
    let args := match _found : t.child? .arguments with
      | some a => exprs s a.children
      | none => []
    plain (.call name args, callType? ((t.textOf? .object).map Text.withoutBlanks) name)
  | .objectCreation => plain (.new ((typeOf? t).getD ""), typeOf? t)
  | .arrayCreation =>
    let type := (typeOf? t).map (· ++ "[]")
    match _found : t.child? .value with
    | some elements => plain (.array (typeOf? t) (exprs s elements.children), type)
    | none => plain (.other, type)
  | .arrayInitializer => plain (.array none (exprs s t.children), none)
  | .cast =>
    let kind := match _found : t.child? .value with
      | some value => (expr s value).kind
      | none => .other
    plain (kind, typeOf? t)
  | .binary =>
    let left := match _found : t.child? .left with
      | some l => (expr s l).type
      | none => none
    let right := match _found : t.child? .right with
      | some r => (expr s r).type
      | none => none
    plain (.other, binaryType? ((t.textOf? .operator).getD "") left right)
  | .ternary =>
    let type := match _found : t.child? .consequence with
      | some c => (expr s c).type
      | none => none
    plain (.other, type)
  | .instanceOf => plain (.other, some "boolean")
  | _ => plain (.other, none)
termination_by 2 * t.size
decreasing_by
  all_goals
    first
    | have h := Tree.size_lt_of_child? _found; have := Tree.size_eq a; omega
    | have h := Tree.size_lt_of_child? _found; have := Tree.size_eq elements; omega
    | have h := Tree.size_lt_of_child? _found; omega
    | (have h := Tree.size_eq t; rw [_found] at h; simp only [Tree.sizes] at h; omega)
    | (have h := Tree.size_eq t; omega)

/-- What several expressions are. -/
def exprs (s : Scopes) (ts : List Tree) : List Expr :=
  match ts with
  | [] => []
  | t :: rest => expr s t :: exprs s rest
termination_by 2 * Tree.sizes ts + 1
decreasing_by
  · simp only [Tree.sizes]; omega
  · have := Tree.size_eq t; simp only [Tree.sizes]; omega

end

/-- The arguments of a call. -/
def arguments (s : Scopes) (t : Tree) : List Expr :=
  match t.child? .arguments with
  | some a => exprs s a.children
  | none => []

/-- On what a method is called, given the node before the dot. -/
def receiver (s : Scopes) (t : Tree) : Receiver :=
  match t.kind with
  | .this => .implicit
  | .super => .super
  | .identifier =>
    match s.type? t.text with
    | some type => .type type
    | none => if Text.startsCapital t.text then .type t.text else .unknown
  | .fieldAccess =>
    let path := Text.withoutBlanks t.text
    match Text.afterHead? "this." path with
    | some field => match s.field? field with
      | some type => .type type
      | none => .unknown
    | none =>
      let last := Text.lastPart '.' path
      if Text.startsCapital last && last.toList.any Text.isSmall then .type path else .unknown
  | .objectCreation => match typeOf? t with
    | some type => .type type
    | none => .unknown
  | .parenthesized | .cast => match (expr s t).type with
    | some type => .type type
    | none => .unknown
  | _ => .unknown

end AndroidLint.Java
