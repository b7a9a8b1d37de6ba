/-
  File:      AndroidLint/File.lean
  Subject:   The files of a project and what they are to the checks.

  What a file is follows from its path alone.
-/
import AndroidLint.Path

namespace AndroidLint

/-! ## 1. Kinds -/

/-- What a file is to the checks. -/
inductive FileKind where
  | manifest
  /-- XML in a values folder of the resources. -/
  | values
  /-- Any other XML among the resources. -/
  | resource
  | java
  | kotlin
  | gradle
  | other
  deriving DecidableEq, Repr

namespace FileKind

/-- The kind of an XML file whose folder and the folder around it are given, when they have
    names. -/
def ofXmlFolder (folder outer : Option String) : FileKind :=
  if outer = some "res" then
    match folder with
    | some name => if name = "values" || Text.hasHead "values-" name then values else resource
    | none => resource
  else other

/-- The kind of the file at a path. -/
def ofPath (p : Path) : FileKind :=
  let name := p.fileName?.getD ""
  if name = "AndroidManifest.xml" then manifest
  else if Text.hasTail ".gradle" name || Text.hasTail ".gradle.kts" name then gradle
  else
    match p.extension? with
    | some "java" => java
    | some "kt" => kotlin
    | some "xml" => ofXmlFolder (Path.lastName? p.folderSteps) (Path.lastName? p.folderSteps.dropLast)
    | _ => other

/-- Whether the file is source code. -/
def isSource (k : FileKind) : Bool := k = java || k = kotlin

/-- Whether the file is read as XML. -/
def isXml (k : FileKind) : Bool := k = manifest || k = values || k = resource

end FileKind

/-! ## 2. Files -/

/-- A file with its path below the root of the project. -/
structure File where
  path : Path
  contents : String
  deriving DecidableEq, Repr

namespace File

/-- What the file is to the checks. -/
def kind (f : File) : FileKind := FileKind.ofPath f.path

/-- The folder of a resource file, such as `res/values-es`. -/
def resourceFolder? (f : File) : Option Path :=
  if f.kind = .values || f.kind = .resource then f.path.parent? else none

/-- The name of the file after the name of its folder, such as `values-es/strings.xml`. -/
def folderAndName (f : File) : String :=
  let name := f.path.fileName?.getD ""
  match Path.lastName? f.path.folderSteps with
  | some folder => folder ++ "/" ++ name
  | none => name

end File

/-! ## 3. Counts -/

/-- How many files of each kind there are. -/
structure FileCounts where
  manifests : Nat
  values : Nat
  resources : Nat
  java : Nat
  kotlin : Nat
  gradle : Nat
  deriving DecidableEq, Repr

namespace FileCounts

/-- Count the kinds of some files. -/
def ofKinds (kinds : List FileKind) : FileCounts where
  manifests := kinds.count .manifest
  values := kinds.count .values
  resources := kinds.count .resource
  java := kinds.count .java
  kotlin := kinds.count .kotlin
  gradle := kinds.count .gradle

/-- The number of files that the checks look at. -/
def total (c : FileCounts) : Nat :=
  c.manifests + c.values + c.resources + c.java + c.kotlin + c.gradle

end FileCounts

end AndroidLint
