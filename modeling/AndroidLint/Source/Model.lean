/-
  File:      AndroidLint/Source/Model.lean
  Subject:   What the checks need to know of a source file.

  A file is a list of classes and a list of calls. Types and receivers are decided from the file
  itself; what needs the other files of the project is left to the checks.
-/
import AndroidLint.Path
import AndroidLint.Source.Annotations
import AndroidLint.Source.Expr

namespace AndroidLint.Source

/-- The languages of source files. -/
inductive Language where
  | java
  | kotlin
  deriving DecidableEq, Repr

/-- The name of a language. -/
def Language.name : Language → String
  | .java => "java"
  | .kotlin => "kotlin"

/-! ## 1. Classes -/

/-- From where a member can be used. -/
inductive Visibility where
  | hidden
  | package
  | subclasses
  | everywhere
  deriving DecidableEq, Repr

/-- The kinds of classes. -/
inductive ClassKind where
  | plain
  | interface
  | enum
  | annotationType
  deriving DecidableEq, Repr

/-- A field of a class. -/
structure Field where
  name : String
  type : String
  annotations : List AnnotationUse
  isStatic : Bool
  isFinal : Bool
  initializer : Option Expr

/-- A parameter of a method. -/
structure Parameter where
  name : String
  type : String
  annotations : List AnnotationUse
  /-- Takes any number of arguments. -/
  isVarargs : Bool

/-- A method or a constructor. -/
structure Method where
  name : String
  /-- The qualified name of the class that declares it. -/
  owner : String
  parameters : List Parameter
  returnType : Option String
  annotations : List AnnotationUse
  visibility : Visibility
  isStatic : Bool
  isConstructor : Bool
  range : ByteRange

namespace Method

/-- Whether the last parameter takes any number of arguments. -/
def isVarargs (m : Method) : Bool := (m.parameters.getLast?.map (·.isVarargs)).getD false

/-- Whether a call with so many arguments can mean the method. -/
def acceptsArity (m : Method) (count : Nat) : Bool :=
  if m.isVarargs then m.parameters.length ≤ count + 1 else count == m.parameters.length

/-- The parameter that takes the argument at an index. -/
def parameterFor? (m : Method) (index : Nat) : Option Parameter :=
  match m.parameters[index]? with
  | some p => some p
  | none => if m.isVarargs then m.parameters.getLast? else none

end Method

/-- A class, an interface, an enumeration or an annotation type. -/
structure ClassDecl where
  name : String
  qualifiedName : String
  kind : ClassKind
  /-- The superclass as written, without type arguments. -/
  superclass : Option String
  annotations : List AnnotationUse
  fields : List Field
  methods : List Method
  /-- The qualified name of the outermost class around it. -/
  topLevel : String
  range : ByteRange

/-- The first field with a name. -/
def ClassDecl.field? (c : ClassDecl) (name : String) : Option Field := c.fields.find? (·.name == name)

/-! ## 2. Calls -/

/-- On what a method is called. -/
inductive Receiver where
  /-- The object whose code it is. -/
  | implicit
  /-- That object as one of its superclass. -/
  | super
  /-- A value of a known type, or a class. -/
  | type (name : String)
  | unknown
  deriving DecidableEq, Repr

/-- The method whose body holds a call. -/
structure Caller where
  /-- The qualified name of the class around it. -/
  owner : String
  method : String
  annotations : List AnnotationUse
  /-- The body asks whether a permission is granted. -/
  checksPermission : Bool

/-- A call of a method or a constructor. -/
structure Call where
  /-- The name of the method, or of the class whose constructor is called. -/
  name : String
  receiver : Receiver
  /-- The receiver as written, without blanks. -/
  receiverText : Option String
  args : List Expr
  isConstructor : Bool
  /-- The call is a statement, so its result is dropped. -/
  resultUnused : Bool
  /-- The exceptions that are caught around it. -/
  caught : List String
  caller : Option Caller
  range : ByteRange
  /-- The name of the method, or `new` with the class. -/
  nameRange : ByteRange

/-! ## 3. Files -/

/-- A source file. -/
structure CompilationUnit where
  path : Path
  language : Language
  package : Option String
  imports : List String
  /-- All classes, those inside others included. -/
  classes : List ClassDecl
  /-- All calls, in the order in which they are met. -/
  calls : List Call

/-- The first class with a qualified name. -/
def CompilationUnit.class? (u : CompilationUnit) (qualifiedName : String) : Option ClassDecl :=
  u.classes.find? (·.qualifiedName == qualifiedName)

end AndroidLint.Source
