/-
  File:      AndroidLint/Path.lean
  Subject:   Slash-separated paths.

  A path is kept as it was written. Two ways of writing name the same file when their components
  agree: repeated slashes, a slash at the end and an inner `.` are no components. `..` is one, and so
  is a `.` in front.
-/
import AndroidLint.Text.Split

namespace AndroidLint

/-- A path as it was written. -/
structure Path where
  text : String
  deriving DecidableEq, Repr, Inhabited

namespace Path

/-- One step of a path. -/
inductive Component where
  | root
  | current
  | parent
  | name (name : String)
  deriving DecidableEq, Repr

namespace Component

/-- The place of a kind of step in the order of paths. -/
def rank : Component → Nat
  | root => 0
  | current => 1
  | parent => 2
  | name _ => 3

/-- Steps are ordered by kind, names by their characters. -/
def compare : Component → Component → Ordering
  | name a, name b => Ord.compare a b
  | a, b => Ord.compare a.rank b.rank

/-- How a step is written. -/
def text : Component → String
  | root => "/"
  | current => "."
  | parent => ".."
  | name n => n

end Component

/-- The parts between the slashes. -/
def segments (p : Path) : List String := Text.split '/' p.text

/-- Whether the path begins at the root of the file system. -/
def isAbsolute (p : Path) : Bool := Text.hasHead "/" p.text

/-- The step that a part between slashes stands for, if any; `first` marks the first part. -/
def component? (first : Bool) (segment : String) : Option Component :=
  if segment = "" then none
  else if segment = "." then (if first then some .current else none)
  else if segment = ".." then some .parent
  else some (.name segment)

/-- The steps of a path. -/
def components (p : Path) : List Component :=
  match p.segments with
  | [] => []
  | s :: ss =>
    let rest := ss.filterMap (component? false)
    if p.isAbsolute then .root :: rest
    else
      match component? true s with
      | some c => c :: rest
      | none => rest

/-- Whether two paths name the same file. -/
def same (p q : Path) : Bool := p.components == q.components

/-- Lexicographic order of the steps of two paths. -/
def compareSteps : List Component → List Component → Ordering
  | [], [] => .eq
  | [], _ :: _ => .lt
  | _ :: _, [] => .gt
  | a :: as, b :: bs => (a.compare b).then (compareSteps as bs)

/-- The order of paths, step by step. -/
def compare (p q : Path) : Ordering := compareSteps p.components q.components

/-- The last step, when it is a name. -/
def lastName? (steps : List Component) : Option String :=
  match steps.getLast? with
  | some (.name n) => some n
  | _ => none

/-- The name of the file. -/
def fileName? (p : Path) : Option String := lastName? p.components

/-- The steps of the folder that holds the file. -/
def folderSteps (p : Path) : List Component := p.components.dropLast

/-- The ending of the file name after its last dot. A dot in front begins no ending. -/
def extension? (p : Path) : Option String := do
  let name ← p.fileName?
  let (stem, ending) ← Text.splitLast? '.' name
  if stem = "" then none else some ending

/-! ## 1. Folders as written -/

/-- Without the parts at the end that are no steps. The list runs from the last part to the first,
    which always stays. -/
def trimParts : List String → List String
  | s :: t :: rest => if s = "" ∨ s = "." then trimParts (t :: rest) else s :: t :: rest
  | parts => parts

/-- The path of a list of parts, given last part first. -/
def ofParts (absolute : Bool) (parts : List String) : Path :=
  if absolute && parts == [""] then ⟨"/"⟩ else ⟨Text.join "/" parts.reverse⟩

/-- The folder that holds the file, as written. -/
def parent? (p : Path) : Option Path :=
  match trimParts p.segments.reverse with
  | [] => none
  | [s] => if p.isAbsolute || s == "" then none else some ⟨""⟩
  | _ :: rest => some (ofParts p.isAbsolute (trimParts rest))

/-! ## 2. Joining and stripping -/

/-- A path below another one; an absolute path stands for itself. -/
def append (base p : Path) : Path :=
  if p.isAbsolute || base.text = "" then p
  else if Text.hasTail "/" base.text then ⟨base.text ++ p.text⟩
  else ⟨base.text ++ "/" ++ p.text⟩

instance : Append Path := ⟨append⟩

/-- Drop `n` steps in front, and the parts after them that are no steps. The list runs from the
    first part on; `first` marks that part. -/
def dropParts (first absolute : Bool) : Nat → List String → List String
  | _, [] => []
  | 0, s :: rest =>
    if !first && (component? false s).isNone then dropParts false absolute 0 rest else s :: rest
  | n + 1, s :: rest =>
    if first && absolute then dropParts false absolute n rest
    else if (component? first s).isSome then dropParts false absolute n rest
    else dropParts false absolute (n + 1) rest

/-- The path below `base`, when it lies there. -/
def relativeTo? (p base : Path) : Option Path :=
  if base.components.isPrefixOf p.components then
    match base.components with
    | [] => some p
    | steps => some ⟨Text.join "/" (dropParts true p.isAbsolute steps.length p.segments)⟩
  else none

/-- The path below `base`, or the path itself when it lies elsewhere. -/
def relativeTo (p base : Path) : Path := (p.relativeTo? base).getD p

/-- The path with forward slashes, as reports print it. -/
def display (p : Path) : String := Text.replaceChar '\\' '/' p.text

end Path

end AndroidLint
