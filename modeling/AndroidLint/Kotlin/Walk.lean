/-
  File:      AndroidLint/Kotlin/Walk.lean
  Subject:   The calls of a Kotlin file.

  A variable has a type when all declarations of its name in the file agree on it; scopes are not
  told apart.
-/
import AndroidLint.Kotlin.Grammar.Declaration
import AndroidLint.Source.Literal
import AndroidLint.Source.Model
import AndroidLint.Text.LetterCase

namespace AndroidLint.Kotlin

open Source Syntax

/-! ## 1. Variables -/

/-- Names with the type that all their declarations agree on; the entry in front counts. -/
abbrev Variables := List (String × Option String)

/-- Take one declaration into account. -/
def Variables.record (vs : Variables) (name : String) (type : Option String) : Variables :=
  match vs.lookup name with
  | some existing => if existing = type then vs else (name, none) :: vs
  | none => (name, type) :: vs

/-- The type of a variable. -/
def Variables.type? (vs : Variables) (name : String) : Option String := (vs.lookup name).join

/-- The name that a written type has in messages and comparisons. -/
def typeName (written : String) : String :=
  match Text.dropBack (· == '?') (Text.withoutBlanks written) with
  | "Int" => "int"
  | "Long" => "long"
  | "Short" => "short"
  | "Byte" => "byte"
  | "Float" => "float"
  | "Double" => "double"
  | "Boolean" => "boolean"
  | "Char" => "char"
  | other => String.ofList (other.toList.takeWhile (· != '<'))

/-! ## 2. Calls -/

/-- The parts of a call. -/
structure CallParts where
  name : Tree
  receiver : Option Tree
  suffix : Tree

/-- The parts of a call of something that has a name. -/
def callParts? (t : Tree) : Option CallParts := do
  let callee ← (named t).head?
  let suffix ← (named t).find? (·.kind == .callSuffix)
  match callee.kind with
  | .simpleIdentifier => pure ⟨callee, none, suffix⟩
  | .navigationExpression =>
    let navigation ← (named callee).find? (·.kind == .navigationSuffix)
    let name ← (named navigation).find? (·.kind == .simpleIdentifier)
    pure ⟨name, (named callee).head?, suffix⟩
  | _ => none

/-- The values of the arguments of a call. -/
def argumentNodes (suffix : Tree) : List Tree :=
  let lists := (named suffix).filter (·.kind == .valueArguments)
  let arguments := (lists.flatMap named).filter (·.kind == .valueArgument)
  arguments.flatMap fun a => (named a).getLast?.toList

theorem sizes_named_lt (t : Tree) : Tree.sizes (named t) < t.size := by
  refine Nat.lt_of_le_of_lt (Tree.sizes_filter_le (·.kind != Kind.token) t.children) ?_
  rw [Tree.size_eq t]
  omega

theorem sizes_last_le (t : Tree) : Tree.sizes (named t).getLast?.toList ≤ t.size := by
  cases h : (named t).getLast? with
  | none => simp [Tree.sizes]
  | some c =>
    have h1 := Tree.size_le_sizes (List.mem_of_getLast? h)
    have h2 := sizes_named_lt t
    simp only [Option.toList, Tree.sizes]
    omega

theorem sizes_argumentNodes_lt (suffix : Tree) :
    Tree.sizes (argumentNodes suffix) < suffix.size := by
  refine Nat.lt_of_le_of_lt (Tree.sizes_flatMap_le sizes_last_le _) ?_
  refine Nat.lt_of_le_of_lt (Tree.sizes_filter_le _ _) ?_
  refine Nat.lt_of_le_of_lt
    (Tree.sizes_flatMap_le (fun t => Nat.le_of_lt (sizes_named_lt t)) _) ?_
  exact Nat.lt_of_le_of_lt (Tree.sizes_filter_le _ _) (sizes_named_lt suffix)

theorem suffix_mem_named {t : Tree} {parts : CallParts} (h : callParts? t = some parts) :
    parts.suffix ∈ named t := by
  simp only [callParts?, Option.bind_eq_bind, Option.bind_eq_some_iff] at h
  obtain ⟨callee, _, suffix, hs, h⟩ := h
  have hm := List.mem_of_find?_eq_some hs
  split at h
  · obtain rfl := Option.some.inj h; exact hm
  · simp only [Option.bind_eq_some_iff] at h
    obtain ⟨_, _, _, _, h⟩ := h
    obtain rfl := Option.some.inj h
    exact hm
  · cases h

theorem size_suffix_lt {t : Tree} {parts : CallParts} (h : callParts? t = some parts) :
    parts.suffix.size < t.size := by
  have h1 := Tree.size_le_sizes (suffix_mem_named h)
  have h2 := sizes_named_lt t
  omega

/-! ## 3. Expressions -/

/-- What an operator in front makes of its operand: a minus sign is taken into a number. -/
def prefixExpr (negative : Bool) (operand : Option Expr) : ExprKind Expr × Option String :=
  match operand with
  | none => (.other, none)
  | some e =>
    match negative, e.kind with
    | true, .int v => (.int (-v), e.type)
    | true, .float v => (.float (-v), e.type)
    | _, _ => (.other, e.type)

/-- What a call with a name is as an expression. -/
def callExpr (name : String) (args : List Expr) : ExprKind Expr × Option String :=
  if name = "arrayOf" then (.array none args, none)
  else (.call name args, if name = "toString" then some "String" else none)

mutual

/-- What an expression is, and its type. -/
def expr (vs : Variables) (t : Tree) : Expr :=
  let plain (e : ExprKind Expr × Option String) : Expr := ⟨e.1, e.2, t.range⟩
  match t.kind with
  | .integerLiteral => plain (intExpr "int" t.text)
  | .longLiteral => plain (intExpr "long" t.text)
  | .realLiteral => plain (floatExpr t.text)
  | .booleanLiteral => plain (.bool (t.text == "true"), some "boolean")
  | .characterLiteral => plain (.char (charLiteral t.text), some "char")
  | .stringLiteral => plain (.str (Source.stringLiteral t.text), some "String")
  | .prefixExpression =>
    let operand := match _found : (named t).getLast? with
      | some o => some (expr vs o)
      | none => none
    plain (prefixExpr (Text.hasHead "-" t.text) operand)
  | .parenthesizedExpression =>
    match _found : (named t).head? with
    | some inner => { expr vs inner with range := t.range }
    | none => plain (.other, none)
  | .simpleIdentifier =>
    if t.text = "null" then plain (.null, none) else plain (.name t.text, vs.type? t.text)
  | .navigationExpression =>
    let path := Text.withoutBlanks t.text
    plain (.name path, (Expr.resourcePath? path).map fun _ => "int")
  | .callExpression =>
    match _found : callParts? t with
    | some parts => plain (callExpr parts.name.text (exprs vs (argumentNodes parts.suffix)))
    | none => plain (.other, none)
  | _ => plain (if t.text = "null" then .null else .other, none)
termination_by 2 * t.size
decreasing_by
  · have h1 := Tree.size_le_sizes (List.mem_of_getLast? _found)
    have h2 := sizes_named_lt t
    omega
  · have h1 := Tree.size_le_sizes (List.mem_of_head? _found)
    have h2 := sizes_named_lt t
    omega
  · have h1 := size_suffix_lt _found
    have h2 := sizes_argumentNodes_lt parts.suffix
    omega

/-- What several expressions are. -/
def exprs (vs : Variables) (ts : List Tree) : List Expr :=
  match ts with
  | [] => []
  | t :: rest => expr vs t :: exprs vs rest
termination_by 2 * Tree.sizes ts + 1
decreasing_by
  · simp only [Tree.sizes]; omega
  · have := Tree.size_eq t; simp only [Tree.sizes]; omega

end

/-! ## 4. Declared variables -/

/-- The type that a declaration writes. -/
def writtenType? (t : Tree) : Option String :=
  ((named t).find? fun c => c.kind == .userType || c.kind == .nullableType).map (typeName ·.text)

/-- The name that a declaration gives. -/
def declaredName? (t : Tree) : Option String :=
  ((named t).find? (·.kind == .simpleIdentifier)).map (·.text)

/-- The variable that a node declares, with its type: the one that is written, or that of its
    value. -/
def declared? (vs : Variables) (t : Tree) : Option (String × Option String) :=
  match t.kind with
  | .propertyDeclaration =>
    match (named t).dropWhile (·.kind != .variableDeclaration) with
    | [] => none
    | declaration :: rest =>
      let inferred := rest.head?.bind fun value => (expr vs value).type
      (declaredName? declaration).map fun name => (name, (writtenType? declaration).or inferred)
  | .parameter | .classParameter => (declaredName? t).map fun name => (name, writtenType? t)
  | _ => none

mutual

/-- Take all declarations below a node into account. -/
def collect (vs : Variables) (t : Tree) : Variables :=
  let vs := match declared? vs t with
    | some (name, type) => vs.record name type
    | none => vs
  collectAll vs (named t)
termination_by 2 * t.size
decreasing_by have := sizes_named_lt t; omega

/-- Take all declarations below several nodes into account. -/
def collectAll (vs : Variables) (ts : List Tree) : Variables :=
  match ts with
  | [] => vs
  | t :: rest => collectAll (collect vs t) rest
termination_by 2 * Tree.sizes ts + 1
decreasing_by
  · simp only [Tree.sizes]; omega
  · have := Tree.size_eq t; simp only [Tree.sizes]; omega

end

/-! ## 5. The walk -/

/-- On what a method is called, given the node before the dot. -/
def receiver (vs : Variables) (t : Tree) : Receiver :=
  match t.kind with
  | .thisExpression => .implicit
  | .superExpression => .super
  | .simpleIdentifier =>
    match vs.type? t.text with
    | some type => .type type
    | none => if Text.startsCapital t.text then .type t.text else .unknown
  | _ => .unknown

/-- A call; `parent` is the kind of the node above. A capitalised name without a receiver is a
    constructor's. -/
def call? (vs : Variables) (parent : Kind) (t : Tree) : Option Call :=
  (callParts? t).map fun parts =>
    let name := parts.name.text
    let isConstructor := parts.receiver.isNone && Text.startsCapital name
    { name, isConstructor
      receiver := match parts.receiver with
        | none => if isConstructor then .type name else .implicit
        | some r => receiver vs r
      receiverText := parts.receiver.map (Text.withoutBlanks ·.text)
      args := exprs vs (argumentNodes parts.suffix)
      resultUnused := parent == .statements || parent == .sourceFile
      caught := []
      caller := none
      range := t.range
      nameRange := parts.name.range }

mutual

/-- The calls of a node and of all nodes below it. -/
def calls (vs : Variables) (parent : Kind) (t : Tree) : List Call :=
  let here := if t.kind = .callExpression then (call? vs parent t).toList else []
  here ++ callsAll vs t.kind (named t)
termination_by 2 * t.size
decreasing_by have := sizes_named_lt t; omega

/-- The calls of several nodes. -/
def callsAll (vs : Variables) (parent : Kind) (ts : List Tree) : List Call :=
  match ts with
  | [] => []
  | t :: rest => calls vs parent t ++ callsAll vs parent rest
termination_by 2 * Tree.sizes ts + 1
decreasing_by
  · simp only [Tree.sizes]; omega
  · have := Tree.size_eq t; simp only [Tree.sizes]; omega

end

/-- The dotted name that a header holds. -/
def headerName? (kind : Kind) (t : Tree) : Option String :=
  if t.kind = kind then ((named t).find? (·.kind == .identifier)).map (·.text) else none

/-- What the checks need to know of a Kotlin file. Its classes are not looked at. -/
def compilationUnit (path : Path) (contents : List Char) : CompilationUnit :=
  let root := parse contents
  { path, language := .kotlin
    package := root.children.findSome? (headerName? .packageHeader)
    imports := root.children.filterMap (headerName? .importHeader)
    classes := []
    calls := calls (collect [] root) .sourceFile root }

end AndroidLint.Kotlin
