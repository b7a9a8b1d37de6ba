/-
  File:      AndroidLint/Kotlin/Kind.lean
  Subject:   The kinds of nodes of a Kotlin syntax tree.

  A construct has a kind of its own when some rule looks at it; all others are `other`.
-/
import AndroidLint.Syntax.Tree

namespace AndroidLint.Kotlin

/-- The kinds of nodes. -/
inductive Kind where
  | sourceFile | packageHeader | importHeader | identifier
  | propertyDeclaration | variableDeclaration | parameter | classParameter
  | userType | nullableType
  | statements
  | callExpression | callSuffix | valueArguments | valueArgument
  | navigationExpression | navigationSuffix | simpleIdentifier | thisExpression | superExpression
  | integerLiteral | longLiteral | realLiteral | booleanLiteral | characterLiteral | stringLiteral
  | prefixExpression | parenthesizedExpression
  -- words and signs that stand for themselves, and the rest
  | token | other
  deriving DecidableEq, Repr

/-- A node of a Kotlin syntax tree. -/
abbrev Tree := Syntax.Tree Kind

/-- The children that are more than a word or a sign. -/
def named (t : Tree) : List Tree := t.children.filter (·.kind != .token)

theorem mem_of_named {t u : Tree} (h : u ∈ named t) : u ∈ t.children := (List.mem_filter.mp h).1

end AndroidLint.Kotlin
