/-
  File:      AndroidLint/Java/Annotations.lean
  Subject:   Annotations, modifiers and parameters of declarations.
-/
import AndroidLint.Java.Value

namespace AndroidLint.Java

open Source Syntax

/-! ## 1. Annotations -/

/-- The value that an expression gives an argument. -/
def valueOfExpr (e : Expr) (written : String) : AnnotationValue :=
  match e.kind with
  | .int v => .int v
  | .float v => .float v
  | .bool v => .bool v
  | .str v => .str v
  | .name path => .name path
  | _ => .other (Text.withoutBlanks written)

mutual

/-- The value of an argument. -/
def annotationValue (s : Scopes) (t : Tree) : AnnotationValue :=
  if t.kind = .elementValueArray then .array (annotationValues s t.children)
  else valueOfExpr (expr s t) t.text
termination_by 2 * t.size
decreasing_by have := Tree.size_eq t; omega

/-- The values of several arguments. -/
def annotationValues (s : Scopes) (ts : List Tree) : List AnnotationValue :=
  match ts with
  | [] => []
  | t :: rest => annotationValue s t :: annotationValues s rest
termination_by 2 * Tree.sizes ts + 1
decreasing_by
  · simp only [Tree.sizes]; omega
  · have := Tree.size_eq t; simp only [Tree.sizes]; omega

end

/-- An argument with its name. -/
def annotationArgument? (s : Scopes) (t : Tree) : Option (String × AnnotationValue) :=
  if t.kind = .elementValuePair then
    (t.child? .value).map fun value => ((t.textOf? .key).getD "value", annotationValue s value)
  else some ("value", annotationValue s t)

/-- An annotation. -/
def annotationOf (s : Scopes) (t : Tree) : AnnotationUse where
  name := ((t.textOf? .name).map Text.withoutBlanks).getD ""
  arguments := match t.child? .arguments with
    | some args => args.children.filterMap (annotationArgument? s)
    | none => []
  range := t.range

/-- What stands in the modifiers of a declaration. -/
def modifierNodes (t : Tree) : List Tree := (t.ofKind .modifiers).flatMap (·.children)

/-- The annotations of a declaration. -/
def annotationsOf (s : Scopes) (t : Tree) : List AnnotationUse :=
  ((modifierNodes t).filter (·.kind == .annotationUse)).map (annotationOf s)

/-- The words that modify a declaration. -/
def modifierWordsOf (t : Tree) : List String :=
  ((modifierNodes t).filter (·.kind != .annotationUse)).map (·.text)

/-! ## 2. Parameters -/

/-- A parameter; a node that is none gives nothing. -/
def parameter? (s : Scopes) (t : Tree) : Option Parameter :=
  match t.kind with
  | .formalParameter => do
    let name ← t.textOf? .name
    let type ← typeOf? t
    pure { name, type, annotations := annotationsOf s t, isVarargs := false }
  | .spreadParameter => do
    let declarator ← t.children.find? (·.kind == .variableDeclarator)
    let name ← declarator.textOf? .name
    let type ← t.children.find? fun c => c.kind != .modifiers && c.kind != .variableDeclarator
    pure { name, type := erase type.text, annotations := annotationsOf s t, isVarargs := true }
  | _ => none

/-- The parameters of a method. -/
def parametersOf (s : Scopes) (t : Tree) : List Parameter :=
  match t.child? .parameters with
  | some ps => ps.children.filterMap (parameter? s)
  | none => []

/-- The variables that the parameters are in the body of the method. -/
def parameterNames (ps : List Parameter) : Names :=
  (ps.map fun p => (p.name, if p.isVarargs then p.type ++ "[]" else p.type)).reverse

/-- From where a method can be used. Members of interfaces are public unless they say otherwise. -/
def visibilityOf (modifiers : List String) (inInterface : Bool) : Visibility :=
  if modifiers.contains "private" then .hidden
  else if modifiers.contains "protected" then .subclasses
  else if modifiers.contains "public" || inInterface then .everywhere
  else .package

end AndroidLint.Java
