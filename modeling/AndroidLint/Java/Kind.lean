/-
  File:      AndroidLint/Java/Kind.lean
  Subject:   The kinds of nodes of a Java syntax tree.

  A construct has a kind of its own when some rule looks at it; all others are `other`.
-/
import AndroidLint.Syntax.Tree

namespace AndroidLint.Java

/-- The kinds of nodes. -/
inductive Kind where
  -- declarations
  | packageDeclaration | importDeclaration | asterisk
  | classDeclaration | interfaceDeclaration | enumDeclaration | annotationTypeDeclaration
  | recordDeclaration
  | classBody | enumBodyDeclarations | enumConstant
  | fieldDeclaration | methodDeclaration | constructorDeclaration | staticInitializer
  | variableDeclarator | formalParameter | spreadParameter
  | modifiers | annotationUse | elementValuePair | elementValueArray
  -- statements
  | block | constructorBody | switchBlock | forStatement | enhancedForStatement
  | tryStatement | catchClause | catchParameter | catchType | finallyClause
  | localVariableDeclaration | expressionStatement
  -- expressions
  | integerLiteral | floatLiteral | trueLiteral | falseLiteral | nullLiteral
  | characterLiteral | stringLiteral
  | identifier | scopedIdentifier | this | super
  | parenthesized | unary | binary | ternary | cast | instanceOf
  | fieldAccess | methodInvocation | objectCreation | arrayCreation | arrayInitializer | lambda
  -- types, words and signs, and the rest
  | type | token | other
  deriving DecidableEq, Repr

/-- Whether a node declares a class or something like it. -/
def Kind.declaresType : Kind → Bool
  | .classDeclaration | .interfaceDeclaration | .enumDeclaration | .annotationTypeDeclaration
  | .recordDeclaration => true
  | _ => false

/-- A node of a Java syntax tree. -/
abbrev Tree := Syntax.Tree Kind

end AndroidLint.Java
