/-
  File:      AndroidLint/Contract/Visibility.lean
  Subject:   Methods that are visible only for the sake of tests.
-/
import AndroidLint.Contract.Call

namespace AndroidLint.Contract

open Source

/-- The visibility that a method would have but for its tests. -/
inductive IntendedScope where
  /-- Inside the outermost class around it. -/
  | sameClass
  | samePackage
  | subclasses
  | testsOnly
  deriving DecidableEq, Repr

namespace IntendedScope

/-- The scope that an annotation's argument names. -/
def ofValue : Option AnnotationValue → IntendedScope
  | some (.int 2) => .sameClass
  | some (.int 4) => .subclasses
  | some (.int 5) => .testsOnly
  | some (.name name) =>
    match Text.lastPart '.' name with
    | "PRIVATE" => .sameClass
    | "PROTECTED" => .subclasses
    | "NONE" => .testsOnly
    | _ => .samePackage
  | _ => .samePackage

/-- What is said of a call from outside the scope. -/
def message : IntendedScope → String
  | .testsOnly => "This method should only be accessed from tests"
  | .sameClass => "This method should only be accessed from tests or within private scope"
  | .samePackage => "This method should only be accessed from tests or within package private scope"
  | .subclasses => "This method should only be accessed from tests or within protected scope"

end IntendedScope

/-- Whether caller and method are in the same package. -/
def inSamePackage (c : ResolvedCall) : Bool :=
  c.unit.package == (c.sources.unitOf? c.owner).bind (·.package)

/-- Whether a call from a class is within a scope. -/
def IntendedScope.admits (scope : IntendedScope) (c : ResolvedCall) (caller : ClassDecl) : Bool :=
  match scope with
  | .sameClass => caller.topLevel == c.owner.topLevel
  | .samePackage => inSamePackage c
  | .subclasses =>
    inSamePackage c ||
      (c.sources.hierarchy caller).any (·.qualifiedName == c.owner.qualifiedName)
  | .testsOnly => false

/-- A call of a method that is there for tests only; `isTest` says whether the call is in a test. -/
def visibilityIncident? (isTest : Bool) (c : ResolvedCall) : Option Incident := do
  let a ← findAnnotation? c.method.annotations ["VisibleForTesting"]
  if isTest then none
  let caller ← c.caller?
  let scope := IntendedScope.ofValue (a.value? "otherwise")
  if scope.admits c caller then none
  else some (.new .visibleForTests (c.locate c.call.nameRange) scope.message)

end AndroidLint.Contract
