/-
  File:      AndroidLint/Source/Classes.lean
  Subject:   The classes of a project, and how names in source code find them.

  A class that is declared twice is the one declared last. A name is tried as a qualified name,
  then as one that the file it stands in makes short (a class nested in one of the file's own, an
  import, the package), and at last as the end of a qualified name, if there is only one such class:

  * `find?`       the class that a name means in a file;
  * `hierarchy`   a class and its superclasses, as far as they belong to the project;
  * `findField?`  the field that a name means;
  * `constant?`   the literal that an expression comes down to.
-/
import AndroidLint.Source.Model

namespace AndroidLint.Source

/-- The source files of a project. -/
structure Sources where
  units : List CompilationUnit

namespace Sources

/-! ## 1. Classes by qualified name -/

/-- All classes with the files that declare them, the last declared first. -/
def declarations (s : Sources) : List (CompilationUnit × ClassDecl) :=
  (s.units.flatMap fun u => u.classes.map fun c => (u, c)).reverse

/-- The class with a qualified name and the file that declares it. -/
def declared? (s : Sources) (qualifiedName : String) : Option (CompilationUnit × ClassDecl) :=
  s.declarations.find? fun d => d.2.qualifiedName == qualifiedName

/-- The qualified names of all classes. -/
def qualifiedNames (s : Sources) : List String := s.declarations.map (·.2.qualifiedName)

/-- The file that declares a class. -/
def unitOf? (s : Sources) (c : ClassDecl) : Option CompilationUnit :=
  (s.declared? c.qualifiedName).map (·.1)

/-! ## 2. Classes by the names in source code -/

/-- The qualified names that a short name can stand for in a file, in the order in which they are
    tried. -/
def readings (name : String) (unit : CompilationUnit) : List String :=
  let first := (Text.splitFirst? '.' name).map (·.1) |>.getD name
  let rest := String.ofList (name.toList.drop first.length)
  unit.classes.map (·.qualifiedName ++ "." ++ name) ++
    (unit.imports.filter (Text.lastPart '.' · == first)).map (· ++ rest) ++
    (unit.package.map (· ++ "." ++ name)).toList

/-- The class whose qualified name alone ends in a dot and the name. -/
def onlyEnding? (s : Sources) (name : String) : Option ClassDecl :=
  match (s.qualifiedNames.filter (Text.hasTail ("." ++ name) ·)).eraseDups with
  | [qualifiedName] => (s.declared? qualifiedName).map (·.2)
  | _ => none

/-- The class that a name means in a file. -/
def find? (s : Sources) (name : String) (context : Option CompilationUnit) : Option ClassDecl :=
  let names := name :: (context.map (readings name)).getD []
  match names.findSome? s.declared? with
  | some (_, c) => some c
  | none => s.onlyEnding? name

theorem declared?_mem {s : Sources} {q : String} {d : CompilationUnit × ClassDecl}
    (h : s.declared? q = some d) : d.2.qualifiedName ∈ s.qualifiedNames :=
  List.mem_map.2 ⟨d, List.mem_of_find?_eq_some h, rfl⟩

theorem onlyEnding?_mem {s : Sources} {name : String} {c : ClassDecl}
    (h : s.onlyEnding? name = some c) : c.qualifiedName ∈ s.qualifiedNames := by
  unfold onlyEnding? at h
  split at h
  next q _ =>
    obtain ⟨d, hd, rfl⟩ := Option.map_eq_some_iff.1 h
    exact declared?_mem hd
  next => cases h

theorem find?_mem {s : Sources} {name : String} {context : Option CompilationUnit} {c : ClassDecl}
    (h : s.find? name context = some c) : c.qualifiedName ∈ s.qualifiedNames := by
  simp only [find?] at h
  split at h
  next u d hd =>
    cases h
    obtain ⟨q, _, hq⟩ := List.exists_of_findSome?_eq_some hd
    exact declared?_mem (d := (u, c)) hq
  next => exact onlyEnding?_mem h

/-! ## 3. Superclasses and enclosing classes -/

/-- The superclass, when it belongs to the project. -/
def superclass? (s : Sources) (c : ClassDecl) : Option ClassDecl := do
  let name ← c.superclass
  s.find? name (s.unitOf? c)

theorem superclass?_mem {s : Sources} {c d : ClassDecl} (h : s.superclass? c = some d) :
    d.qualifiedName ∈ s.qualifiedNames := by
  obtain ⟨_, _, hf⟩ := Option.bind_eq_some_iff.1 h
  exact find?_mem hf

/-- The names of classes that are not yet seen. -/
def unseen (s : Sources) (seen : List String) : List String :=
  s.qualifiedNames.filter fun q => !seen.contains q

theorem length_unseen_lt {s : Sources} {seen : List String} {q : String}
    (hq : q ∈ s.qualifiedNames) (hn : seen.contains q = false) :
    (s.unseen (q :: seen)).length < (s.unseen seen).length := by
  have heq : s.unseen (q :: seen) = (s.unseen seen).filter (· != q) := by
    rw [unseen, unseen, List.filter_filter]
    congr 1
    funext r
    by_cases h : r = q
    · subst h; simp
    · simp [h]
  rw [heq]
  refine List.length_filter_lt_length_iff_exists.2 ⟨q, ?_, by simp⟩
  exact List.mem_filter.2 ⟨hq, by simpa using hn⟩

/-- A class and its superclasses, up to one that is already seen. -/
def hierarchyFrom (s : Sources) (seen : List String) (c : ClassDecl) : List ClassDecl :=
  match _found : s.superclass? c with
  | none => [c]
  | some d =>
    if _new : seen.contains d.qualifiedName = true then [c]
    else c :: hierarchyFrom s (d.qualifiedName :: seen) d
termination_by (s.unseen seen).length
decreasing_by exact length_unseen_lt (superclass?_mem _found) (by simpa using _new)

/-- A class and its superclasses, as far as they belong to the project. -/
def hierarchy (s : Sources) (c : ClassDecl) : List ClassDecl := s.hierarchyFrom [c.qualifiedName] c

/-- The names that a dotted name begins with, the longest first. -/
def outerNames (name : String) : List String :=
  let parts := Text.split '.' name
  (List.range (parts.length - 1)).reverse.map fun n => Text.join "." (parts.take (n + 1))

/-- The classes around a class, the innermost first. -/
def enclosing (s : Sources) (c : ClassDecl) : List ClassDecl :=
  ((outerNames c.qualifiedName).map fun q => (s.declared? q).map (·.2)).takeWhile Option.isSome
    |>.filterMap id

/-! ## 4. Methods -/

/-- The method that a call on a class means, by its name and the number of arguments. -/
def findMethod? (s : Sources) (c : ClassDecl) (name : String) (arity : Nat) : Option Method :=
  (s.hierarchy c).findSome? fun d =>
    d.methods.find? fun m => m.name == name && !m.isConstructor && m.acceptsArity arity

end Sources

/-- The constructor that takes so many arguments. -/
def ClassDecl.constructor? (c : ClassDecl) (arity : Nat) : Option Method :=
  c.methods.find? fun m => m.isConstructor && m.acceptsArity arity

/-- The name of a class from its outermost class on, such as `Outer.Inner`. -/
def ClassDecl.displayName (c : ClassDecl) : String :=
  match Text.afterHead? c.topLevel c.qualifiedName with
  | some nested => if nested = "" then c.name else Text.lastPart '.' c.topLevel ++ nested
  | none => c.name

namespace Sources

/-! ## 5. Fields and constants -/

/-- The classes whose fields can be named without a class in the code of a class. -/
def fieldScopes (s : Sources) (c : ClassDecl) : List ClassDecl :=
  s.hierarchy c ++ (s.enclosing c).flatMap s.hierarchy

/-- The field that a name means, with the class that has it. A name without a class means only
    fields that are static or final. -/
def findField? (s : Sources) (unit : CompilationUnit) (c : Option ClassDecl) (path : String) :
    Option (ClassDecl × Field) :=
  match Text.splitLast? '.' path with
  | some (owner, name) => do
    let owner ← s.find? owner (some unit)
    (s.hierarchy owner).findSome? fun d => (d.field? name).map fun f => (d, f)
  | none => do
    let c ← c
    (s.fieldScopes c).findSome? fun d =>
      ((d.field? path).filter fun f => f.isStatic || f.isFinal).map fun f => (d, f)

end Sources

/-- A value that is written out in source code. -/
inductive Literal where
  | int (value : Int)
  | float (value : Float)
  | str (value : String)
  | bool (value : Bool)
  | char (value : Char)
  deriving BEq

namespace Sources

/-- The literal that an expression comes down to in at most `steps` steps from a final field to its
    initializer. -/
def constantWithin? (s : Sources) : Nat → CompilationUnit → Option ClassDecl → Expr → Option Literal
  | steps, unit, c, e =>
    match e.kind with
    | .int v => some (.int v)
    | .float v => some (.float v)
    | .str v => some (.str v)
    | .bool v => some (.bool v)
    | .char v => some (.char v)
    | .name path =>
      match steps with
      | 0 => none
      | steps + 1 => do
        let (owner, field) ← s.findField? unit c path
        if !field.isFinal then none
        let value ← field.initializer
        let home ← s.unitOf? owner
        s.constantWithin? steps home (some owner) value
    | _ => none

/-- The literal that an expression in the code of a class comes down to. Constants are followed
    through at most eight others. -/
def constant? (s : Sources) (unit : CompilationUnit) (c : Option ClassDecl) (e : Expr) :
    Option Literal :=
  s.constantWithin? 8 unit c e

end Sources

end AndroidLint.Source
