/-
  File:      AndroidLint/Java/Walk.lean
  Subject:   The classes and calls of a Java file.

  `walk` goes through a syntax tree in the order of the text and keeps, in a `State`, the classes
  and blocks around the place it has reached, the method it is in and the exceptions that are
  caught there. What it finds is added to the state.
-/
import AndroidLint.Java.Annotations
import AndroidLint.Java.Grammar.Declaration

namespace AndroidLint.Java

open Source Syntax

/-! ## 1. The state of the walk -/

/-- Where the walk is, and what it has found. -/
structure State where
  package : Option String
  scopes : Scopes
  /-- The method around, if there is one. -/
  caller : Option Caller
  /-- The exceptions caught around, the outermost first. -/
  caught : List String
  /-- The classes that are complete. -/
  classes : List ClassDecl
  /-- The calls in the order in which they were met. -/
  calls : List Call

namespace State

/-- At the beginning of a file. -/
def initial : State := ⟨none, .empty, none, [], [], []⟩

/-- Enter a block. -/
def enter (s : State) (names : Names) : State := { s with scopes := s.scopes.enter names }

/-- Leave a block. -/
def leave (s : State) : State := { s with scopes := s.scopes.leave }

/-- Declare a variable. -/
def declare (s : State) (name type : String) : State :=
  { s with scopes := s.scopes.declare name type }

/-- The qualified name of a class that is declared here. -/
def qualify (s : State) (name : String) : String :=
  match s.scopes.classes with
  | outer :: _ => outer.qualifiedName ++ "." ++ name
  | [] => match s.package with
    | some package => package ++ "." ++ name
    | none => name

/-- The qualified name of the innermost class around. -/
def owner (s : State) : String :=
  match s.scopes.classes with
  | inner :: _ => inner.qualifiedName
  | [] => ""

/-- The qualified name of the outermost class around, or of a class that is declared outside all
    others. -/
def topLevel (s : State) (qualifiedName : String) : String :=
  match s.scopes.classes.getLast? with
  | some outermost => outermost.qualifiedName
  | none => qualifiedName

/-- Add a call. -/
def addCall (s : State) (call : Option Call) : State :=
  match call with
  | some call => { s with calls := s.calls ++ [call] }
  | none => s

end State

/-! ## 2. Calls -/

/-- The call of a method; `parent` is the kind of the node above. -/
def methodCall? (s : State) (parent : Kind) (t : Tree) : Option Call :=
  (t.child? .name).map fun name =>
    { name := name.text
      receiver := match t.child? .object with
        | some object => receiver s.scopes object
        | none => .implicit
      receiverText := (t.textOf? .object).map Text.withoutBlanks
      args := arguments s.scopes t
      isConstructor := false
      resultUnused := parent == .expressionStatement
      caught := s.caught
      caller := s.caller
      range := t.range
      nameRange := name.range }

/-- The call of a constructor. -/
def constructorCall? (s : State) (parent : Kind) (t : Tree) : Option Call :=
  (t.child? .type).map fun type =>
    let typeName := erase type.text
    { name := Text.lastPart '.' typeName
      receiver := .type typeName
      receiverText := none
      args := arguments s.scopes t
      isConstructor := true
      resultUnused := parent == .expressionStatement
      caught := s.caught
      caller := s.caller
      range := t.range
      nameRange := ⟨t.range.start, type.range.stop⟩ }

/-- The calls that ask whether a permission is granted. -/
def permissionChecks : List String :=
  ["checkSelfPermission", "checkPermission", "checkCallingPermission",
    "checkCallingOrSelfPermission", "enforcePermission", "enforceCallingPermission",
    "enforceCallingOrSelfPermission"]

mutual

/-- Whether some call below a node asks for a permission. -/
def checksPermission (t : Tree) : Bool :=
  (t.kind == .methodInvocation && (t.textOf? .name).any permissionChecks.contains)
    || anyChecksPermission t.children
termination_by 2 * t.size
decreasing_by have := Tree.size_eq t; omega

/-- Whether some call below some nodes asks for a permission. -/
def anyChecksPermission (ts : List Tree) : Bool :=
  match ts with
  | [] => false
  | t :: rest => checksPermission t || anyChecksPermission rest
termination_by 2 * Tree.sizes ts + 1
decreasing_by
  · simp only [Tree.sizes]; omega
  · have := Tree.size_eq t; simp only [Tree.sizes]; omega

end

/-! ## 3. Declarations -/

/-- The nodes of the members of a class. -/
def memberNodes (body : Tree) : List Tree :=
  body.children.flatMap fun c => if c.kind = .enumBodyDeclarations then c.children else [c]

theorem sizes_memberNodes_le (body : Tree) : Tree.sizes (memberNodes body) < body.size := by
  rw [Tree.size_eq body]
  unfold memberNodes
  induction body.children with
  | nil => simp [Tree.sizes]
  | cons c cs ih =>
    simp only [List.flatMap_cons, Tree.sizes_append, Tree.sizes]
    have hc := Tree.size_eq c
    split
    · omega
    · simp only [Tree.sizes]; omega

/-- The names and types of the fields that a member declares. -/
def fieldNames (className : String) (member : Tree) : Names :=
  match member.kind with
  | .fieldDeclaration =>
    (member.ofKind .variableDeclarator).filterMap fun d =>
      (d.textOf? .name).map fun name => (name, (typeOf? member).getD "")
  | .enumConstant => ((member.textOf? .name).map fun name => (name, className)).toList
  | _ => []

/-- What code inside a class sees of it. -/
def classScope (qualifiedName className : String) (members : List Tree) : ClassScope :=
  ⟨qualifiedName, (members.flatMap (fieldNames className)).reverse⟩

/-- The kind of class that a node declares. -/
def classKind : Kind → ClassKind
  | .interfaceDeclaration => .interface
  | .enumDeclaration => .enum
  | .annotationTypeDeclaration => .annotationType
  | _ => .plain

/-- The superclass that a node names. -/
def superclass? (t : Tree) : Option String :=
  ((t.child? .superclass).bind (·.children.head?)).map (erase ·.text)

/-- A field of a class; the declaration gives its type and modifiers. -/
def fieldOf (s : State) (declaration : Tree) (inInterface : Bool) (name : String)
    (initializer : Option Expr) : Field :=
  let modifiers := modifierWordsOf declaration
  { name, initializer
    type := (typeOf? declaration).getD ""
    annotations := annotationsOf s.scopes declaration
    isStatic := inInterface || modifiers.contains "static"
    isFinal := inInterface || modifiers.contains "final" }

/-- A constant of an enumeration. -/
def enumField (className name : String) : Field where
  name := name
  type := className
  annotations := []
  isStatic := true
  isFinal := true
  initializer := none

/-- A method without regard to its body. -/
def methodOf (s : State) (t : Tree) (owner : String) (inInterface : Bool) : Method :=
  let modifiers := modifierWordsOf t
  let isConstructor := t.kind == .constructorDeclaration
  { owner, isConstructor
    name := (t.textOf? .name).getD "<init>"
    parameters := parametersOf s.scopes t
    returnType := if isConstructor then none else typeOf? t
    annotations := annotationsOf s.scopes t
    visibility := visibilityOf modifiers inInterface
    isStatic := modifiers.contains "static"
    range := t.range }

/-- The types that a clause catches. -/
def catchTypes (parameter : Tree) : List String :=
  ((parameter.ofKind .catchType).flatMap (·.children)).map (erase ·.text)

/-- The types that the clauses of a `try` catch. -/
def caughtBy (t : Tree) : List String :=
  ((t.ofKind .catchClause).flatMap (·.ofKind .catchParameter)).flatMap catchTypes

/-- The variable of a clause, with the first of the types that are caught. -/
def caughtName? (parameter : Tree) : Option (String × String) :=
  (parameter.textOf? .name).map fun name => (name, (catchTypes parameter).head?.getD "")

/-- Declare the variable of a clause. -/
def declareCaught (clause : Tree) (s : State) : State :=
  ((clause.ofKind .catchParameter).filterMap caughtName?).foldl (fun s x => s.declare x.1 x.2) s

/-- The type that a variable gets: the one that is written, or for `var` that of its value. -/
def declaredType (s : State) (written : String) (declarator : Tree) : String :=
  if written = "var" then ((declarator.child? .value).bind fun v => (expr s.scopes v).type).getD ""
  else written

/-- Declare the variables of a declaration. -/
def declareVariables (t : Tree) (s : State) : State :=
  (t.ofKind .variableDeclarator).foldl (fun s declarator =>
    match declarator.textOf? .name with
    | some name => s.declare name (declaredType s ((typeOf? t).getD "") declarator)
    | none => s) s

/-- Declare the variable of a loop over elements. -/
def declareElement (t : Tree) (s : State) : State :=
  match t.textOf? .name, typeOf? t with
  | some name, some type => s.declare name type
  | _, _ => s

/-! ## 4. The walk -/

/-- What the members of a class have given so far. -/
structure Members where
  fields : List Field
  methods : List Method

/-- The name of the class that a node declares. -/
def classNameOf (t : Tree) : String := (t.textOf? .name).getD "<anonymous>"

/-- The class that a node declares at the place that the walk has reached, with its members. -/
def State.classOf (s : State) (t : Tree) (members : Members) : ClassDecl where
  name := classNameOf t
  qualifiedName := s.qualify (classNameOf t)
  kind := classKind t.kind
  superclass := superclass? t
  annotations := annotationsOf s.scopes t
  fields := members.fields
  methods := members.methods
  topLevel := s.topLevel (s.qualify (classNameOf t))
  range := t.range

mutual

/-- Go through a class. -/
def walkClass (t : Tree) (s : State) : State :=
  let name := classNameOf t
  let qualifiedName := s.qualify name
  match _found : t.child? .body with
  | none => { s with classes := s.classes ++ [s.classOf t ⟨[], []⟩] }
  | some body =>
    let scope := classScope qualifiedName name (memberNodes body)
    let inside := { s with scopes := s.scopes.enterClass scope }
    let (members, after) :=
      walkMembers name qualifiedName (t.kind == .interfaceDeclaration) (memberNodes body) ⟨[], []⟩
        inside
    { after with
      scopes := after.scopes.leaveClass
      classes := after.classes ++ [s.classOf t members] }
termination_by 4 * t.size
decreasing_by
  have h1 := Tree.size_lt_of_child? _found
  have h2 := sizes_memberNodes_le body
  omega

/-- Go through the members of a class. -/
def walkMembers (className owner : String) (inInterface : Bool) (ts : List Tree)
    (members : Members) (s : State) : Members × State :=
  match ts with
  | [] => (members, s)
  | t :: rest =>
    let (members, s) :=
      if t.kind = .fieldDeclaration then
        let (fields, s) := walkFields t inInterface (t.ofKind .variableDeclarator) s
        ({ members with fields := members.fields ++ fields }, s)
      else if t.kind = .enumConstant then
        let field := (t.textOf? .name).map (enumField className)
        ({ members with fields := members.fields ++ field.toList }, walkDetached .other t s)
      else if t.kind = .methodDeclaration ∨ t.kind = .constructorDeclaration then
        let method := methodOf s t owner inInterface
        ({ members with methods := members.methods ++ [method] },
          walkMethod t owner inInterface s)
      else if t.kind.declaresType then (members, walkClass t s)
      else if t.kind = .staticInitializer ∨ t.kind = .block then
        (members, walkDetached .other t s)
      else (members, s)
    walkMembers className owner inInterface rest members s
termination_by 4 * Tree.sizes ts + 3
decreasing_by
  · have h1 := Tree.sizes_filter_le (·.kind == Kind.variableDeclarator) t.children
    have h2 := Tree.size_eq t
    simp only [Tree.sizes, Tree.ofKind]
    omega
  all_goals
    have := Tree.size_eq t
    simp only [Tree.sizes]
    omega

/-- Go through the declarators of a field declaration. -/
def walkFields (declaration : Tree) (inInterface : Bool) (ts : List Tree) (s : State) :
    List Field × State :=
  match ts with
  | [] => ([], s)
  | t :: rest =>
    match t.textOf? .name with
    | none => walkFields declaration inInterface rest s
    | some name =>
      match _found : t.child? .value with
      | none =>
        let field := fieldOf s declaration inInterface name none
        let (fields, s) := walkFields declaration inInterface rest s
        (field :: fields, s)
      | some value =>
        let s := walkDetached t.kind value s
        let field := fieldOf s declaration inInterface name (some (expr s.scopes value))
        let (fields, s) := walkFields declaration inInterface rest s
        (field :: fields, s)
termination_by 4 * Tree.sizes ts + 3
decreasing_by
  all_goals
    have := Tree.size_eq t
    simp only [Tree.sizes]
    first
    | omega
    | (have h := Tree.size_lt_of_child? _found; omega)

/-- Go through the body of a method. -/
def walkMethod (t : Tree) (owner : String) (inInterface : Bool) (s : State) : State :=
  match _found : t.child? .body with
  | none => s
  | some body =>
    let method := methodOf s t owner inInterface
    let caller : Caller :=
      { owner, method := method.name, annotations := method.annotations
        checksPermission := checksPermission body }
    let inside := { s with caller := some caller, caught := [] }
    let after := (walk t.kind body (inside.enter (parameterNames method.parameters))).leave
    { after with caller := s.caller, caught := s.caught }
termination_by 4 * t.size
decreasing_by have h := Tree.size_lt_of_child? _found; omega

/-- Go through code outside all methods. -/
def walkDetached (parent : Kind) (t : Tree) (s : State) : State :=
  { walk parent t { s with caller := none } with caller := s.caller }
termination_by 4 * t.size + 2
decreasing_by omega

/-- Go through a node; `parent` is the kind of the node above. -/
def walk (parent : Kind) (t : Tree) (s : State) : State :=
  match t.kind with
  | .methodInvocation =>
    walkAll t.kind t.children (s.addCall (methodCall? s parent t))
  | .objectCreation =>
    walkCreation t.kind t.children (s.addCall (constructorCall? s parent t))
  | .localVariableDeclaration => declareVariables t (walkAll t.kind t.children s)
  | .block | .constructorBody | .switchBlock | .forStatement =>
    (walkAll t.kind t.children (s.enter [])).leave
  | .enhancedForStatement =>
    (walkAll t.kind t.children (declareElement t (s.enter []))).leave
  | .tryStatement =>
    let inside := s.enter []
    let afterResources := match _found : t.child? .resources with
      | some resources => walk t.kind resources inside
      | none => inside
    let afterBody := match _found : t.child? .body with
      | some body =>
        let after := walk t.kind body
          { afterResources with caught := afterResources.caught ++ caughtBy t }
        { after with caught := after.caught.take afterResources.caught.length }
      | none => afterResources
    walkClauses t.kind t.children afterBody.leave
  | .catchClause =>
    let inside := declareCaught t (s.enter [])
    match _found : t.child? .body with
    | some body => (walk t.kind body inside).leave
    | none => inside.leave
  | .lambda =>
    match _found : t.child? .body with
    | some body => (walk t.kind body (s.enter [])).leave
    | none => (s.enter []).leave
  | kind => if kind.declaresType then walkClass t s else walkAll t.kind t.children s
termination_by 4 * t.size + 1
decreasing_by
  all_goals
    have := Tree.size_eq t
    first
    | omega
    | (have h := Tree.size_lt_of_child? _found; omega)

/-- Go through several nodes. -/
def walkAll (parent : Kind) (ts : List Tree) (s : State) : State :=
  match ts with
  | [] => s
  | t :: rest => walkAll parent rest (walk parent t s)
termination_by 4 * Tree.sizes ts + 3
decreasing_by
  all_goals
    have := Tree.size_eq t
    simp only [Tree.sizes]
    omega

/-- Go through the parts of a creation of an object. The body of a class without a name belongs to
    the class around it. -/
def walkCreation (parent : Kind) (ts : List Tree) (s : State) : State :=
  match ts with
  | [] => s
  | t :: rest =>
    walkCreation parent rest
      (if t.kind = .classBody then walkAnonymous s.owner t.kind t.children s else walk parent t s)
termination_by 4 * Tree.sizes ts + 3
decreasing_by
  all_goals
    have := Tree.size_eq t
    simp only [Tree.sizes]
    omega

/-- Go through the members of a class without a name. -/
def walkAnonymous (owner : String) (parent : Kind) (ts : List Tree) (s : State) : State :=
  match ts with
  | [] => s
  | t :: rest =>
    walkAnonymous owner parent rest
      (if t.kind = .methodDeclaration then walkMethod t owner false s else walk parent t s)
termination_by 4 * Tree.sizes ts + 3
decreasing_by
  all_goals
    have := Tree.size_eq t
    simp only [Tree.sizes]
    omega

/-- Go through the clauses of a `try`. -/
def walkClauses (parent : Kind) (ts : List Tree) (s : State) : State :=
  match ts with
  | [] => s
  | t :: rest =>
    walkClauses parent rest
      (if t.kind = .catchClause ∨ t.kind = .finallyClause then walk parent t s else s)
termination_by 4 * Tree.sizes ts + 3
decreasing_by
  all_goals
    have := Tree.size_eq t
    simp only [Tree.sizes]
    omega

end

/-! ## 5. Files -/

/-- The dotted name that a declaration of a package or an import holds. -/
def declaredPath? (t : Tree) : Option String :=
  (t.children.find? fun c => c.kind == .scopedIdentifier || c.kind == .identifier).map (·.text)

/-- The import that a node declares. -/
def import? (t : Tree) : Option String :=
  if t.kind = .importDeclaration then
    (declaredPath? t).map fun path => if (t.ofKind .asterisk).isEmpty then path else path ++ ".*"
  else none

/-- Go through a declaration at the top of a file. -/
def walkTop (s : State) (t : Tree) : State :=
  if t.kind = .packageDeclaration then { s with package := declaredPath? t }
  else if t.kind.declaresType then walkClass t s
  else s

/-- What the checks need to know of a Java file with a syntax tree. -/
def unitOf (path : Path) (root : Tree) : CompilationUnit :=
  let s := root.children.foldl walkTop State.initial
  { path, language := .java, package := s.package
    imports := root.children.filterMap import?
    classes := s.classes, calls := s.calls }

/-- What the checks need to know of a Java file. -/
def compilationUnit (path : Path) (contents : List Char) : CompilationUnit :=
  unitOf path (parse contents)

end AndroidLint.Java
