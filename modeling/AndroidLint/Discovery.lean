/-
  File:      AndroidLint/Discovery.lean
  Subject:   Finding the files of a project.

  The targets of the configuration are searched, or the whole root when there are none. A target
  itself is never passed over, what is below it may be.
-/
import AndroidLint.Grouping
import AndroidLint.Ignore.Rules
import AndroidLint.Project

namespace AndroidLint

/-- A file that is found. -/
structure FoundFile where
  /-- Where it is. -/
  path : Path
  /-- The same below the root of the project. -/
  relative : Path
  deriving DecidableEq, Repr

namespace Discovery

/-! ## 1. One target -/

/-- Whether the search from a folder reaches what has these names below it: nothing on the way may be
    passed over. -/
def reaches (d : Disk) (folder : Place) (names : List String) : Bool :=
  (List.range names.length).all fun n =>
    !Ignore.isSkipped d (folder ++ names.take (n + 1)) (n + 1 < names.length)

/-- The files below a folder, by the names that lead to them. -/
def filesBelow (d : Disk) (folder : Place) : List (List String) :=
  d.entries.filterMap fun (place, e) =>
    match e with
    | .folder => none
    | .file _ => if folder.isPrefixOf place then some (place.drop folder.length) else none

/-- The paths of the files that the search of a target reaches. -/
def search (d : Disk) (target : Path) : List Path :=
  match d.find? target with
  | none => []
  | some (_, .file _) => [target]
  | some (folder, .folder) =>
    ((filesBelow d folder).filter (reaches d folder)).map fun names =>
      names.foldl (fun path name => path ++ Path.mk name) target

/-! ## 2. All targets -/

/-- Whether the checks look at a file. -/
def keeps (c : Config) (relative : Path) : Bool :=
  !c.excludes relative && FileKind.ofPath relative != .other

/-- Leave out each file whose relative path is that of the one before it. -/
def withoutRepeats (found : List FoundFile) : List FoundFile :=
  Grouping.withoutRepeats (fun a b => a.relative.same b.relative) found

/-- The order of files by their relative paths. -/
def comesFirst (a b : FoundFile) : Bool := (a.relative.compare b.relative).isLE

/-- The files that the checks look at, in order. -/
def find (d : Disk) (c : Config) (root : Path) : List FoundFile :=
  let targets := if c.targets.isEmpty then [root] else c.targets.map (root ++ ·)
  let found := (targets.flatMap (search d)).map fun path => ⟨path, path.relativeTo root⟩
  withoutRepeats ((found.filter fun f => keeps c f.relative).mergeSort comesFirst)

end Discovery

/-! ## 3. Loading a project -/

/-- A file that cannot be read as text. -/
structure UnreadableFile where
  path : Path
  deriving DecidableEq, Repr

/-- The text of the error. -/
def UnreadableFile.message (e : UnreadableFile) : String := s!"Failed to read {e.path.text}"

/-- Load a project with the texts of its files. -/
def Project.load (d : Disk) (root : Path) (c : Config) : Except UnreadableFile Project := do
  let files ← (Discovery.find d c root).mapM fun found =>
    match d.text found.path with
    | .ok text => .ok (⟨found.relative, text⟩ : File)
    | .error _ => .error ⟨found.path⟩
  pure { root, files, config := c }

end AndroidLint
