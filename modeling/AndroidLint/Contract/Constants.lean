/-
  File:      AndroidLint/Contract/Constants.lean
  Subject:   Parameters that take only certain constants.

  An annotation type that is itself annotated with the constants it allows limits the parameters it
  stands on. Constants are allowed by name, and a number or a string is allowed when it is the value
  of one of them.
-/
import AndroidLint.Contract.Call

namespace AndroidLint.Contract

open Source

/-- An allowed value. -/
structure Allowed where
  /-- The class and the name of a constant. -/
  field : Option (String × String)
  value : Option Literal
  /-- How messages show it. -/
  display : String

/-- The values that an annotation type allows. -/
structure ConstantSet where
  allowed : List Allowed
  /-- The values may be combined. -/
  isFlag : Bool

namespace ConstantSet

/-- What is said of a value that is not allowed. -/
def message (t : ConstantSet) : String :=
  (if t.isFlag then "Must be one or more of: " else "Must be one of: ") ++
    Text.join ", " (t.allowed.map (·.display))

/-- Whether a constant is allowed. -/
def allowsField (t : ConstantSet) (owner : ClassDecl) (field : Field) : Bool :=
  t.allowed.any fun a => a.field == some (owner.qualifiedName, field.name)

/-- Whether a literal is allowed. -/
def allowsValue (t : ConstantSet) (value : Literal) : Bool :=
  t.allowed.any fun a => a.value == some value

end ConstantSet

/-- The literal that a constant stands for. -/
def fieldValue? (s : Sources) (owner : ClassDecl) (field : Field) : Option Literal := do
  let value ← field.initializer
  let home ← s.unitOf? owner
  s.constant? home (some owner) value

/-- A value that an annotation type allows. A constant that is not of the project is allowed by
    nothing but its name. -/
def allowed? (s : Sources) (type : ClassDecl) (value : AnnotationValue) : Option Allowed := do
  let unit ← s.unitOf? type
  match value with
  | .name path =>
    match s.findField? unit (some type) path with
    | none => some ⟨none, none, path⟩
    | some (owner, field) =>
      some ⟨some (owner.qualifiedName, field.name), fieldValue? s owner field,
        owner.displayName ++ "." ++ field.name⟩
  | .int v => some ⟨none, some (.int v), toString v⟩
  | .str v => some ⟨none, some (.str v), "\"" ++ v ++ "\""⟩
  | _ => none

/-- The values that an annotation allows, when its type limits them. -/
def constantSet? (s : Sources) (unit : CompilationUnit) (a : AnnotationUse) :
    Option ConstantSet := do
  let type ← s.find? a.name (some unit)
  let definition ← findAnnotation? type.annotations ["IntDef", "StringDef", "LongDef"]
  let values ← definition.value? "value"
  pure
    { allowed := values.elements.filterMap (allowed? s type)
      isFlag := ((definition.value? "flag").bind AnnotationValue.toBool?).getD false }

/-- Whether an argument is allowed; nothing when that cannot be told. Zero is the empty combination
    of flags. -/
def isAllowed? (c : ResolvedCall) (t : ConstantSet) (e : Expr) : Option Bool :=
  match e.kind with
  | .name path =>
    (c.sources.findField? c.unit c.caller? path).map fun (owner, field) => t.allowsField owner field
  | .int v => some ((v == 0 && t.isFlag) || t.allowsValue (.int v))
  | .str v => some (t.allowsValue (.str v))
  | _ => none

/-- An argument that its parameter does not take. -/
def wrongConstant? (c : ResolvedCall) (home : CompilationUnit) (e : Expr) (p : Parameter) :
    Option Incident := do
  let t ← p.annotations.findSome? (constantSet? c.sources home)
  if ← isAllowed? c t e then none
  else some (.new .wrongConstant (c.locate e.range) t.message)

/-- The arguments of a call that are not among the constants allowed. -/
def constantIncidents (c : ResolvedCall) : List Incident :=
  match c.sources.unitOf? c.owner with
  | some home => c.arguments.filterMap fun (e, p) => wrongConstant? c home e p
  | none => []

end AndroidLint.Contract
