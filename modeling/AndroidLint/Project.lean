/-
  File:      AndroidLint/Project.lean
  Subject:   An Android project as the checks see it.

  A project is its files and its configuration. A file that is no well-formed XML is passed over
  where XML is wanted.
-/
import AndroidLint.Config
import AndroidLint.File
import AndroidLint.Gradle
import AndroidLint.Java.Walk
import AndroidLint.Kotlin.Walk
import AndroidLint.Manifest
import AndroidLint.Resource.Values
import AndroidLint.Source.Classes

namespace AndroidLint

/-- A project. -/
structure Project where
  root : Path
  files : List File
  config : Config

/-- The root element of a file, when it is well-formed XML. -/
def File.rootElement? (f : File) : Option Xml.Element := (Xml.parse f.contents.toList).toOption

theorem File.rootElement?_of_parse {f : File} {root : Xml.Element}
    (h : Xml.parse f.contents.toList = .ok root) : f.rootElement? = some root := by
  rw [File.rootElement?, h]
  rfl

/-- Whether reading the file as XML runs into offsets that cut a character. -/
def File.isTorn (f : File) : Bool :=
  match Xml.parse f.contents.toList with
  | .error .torn => true
  | _ => false

/-- The source file that a file holds. -/
def File.unit? (f : File) : Option Source.CompilationUnit :=
  match f.kind with
  | .java => some (Java.compilationUnit f.path f.contents.toList)
  | .kotlin => some (Kotlin.compilationUnit f.path f.contents.toList)
  | _ => none

namespace Project

/-! ## 1. Files -/

/-- The file at a path. -/
def file? (p : Project) (path : Path) : Option File := p.files.find? (·.path.same path)

/-- The files of a kind. -/
def filesOf (p : Project) (kind : FileKind) : List File := p.files.filter (·.kind = kind)

/-- The values files with the resources they define. -/
def valuesFiles (p : Project) : List (File × List Resource.Definition) :=
  (p.filesOf .values).filterMap fun f =>
    f.rootElement?.map fun root => (f, Resource.definitions root)

/-- The source files. -/
def sources (p : Project) : Source.Sources := ⟨p.files.filterMap File.unit?⟩

/-! ## 2. The manifest -/

/-- Whether a path is nearer to the root of the project than another; of two that are equally near,
    the lesser one. -/
def nearer (p q : Path) : Bool :=
  ((Ord.compare p.components.length q.components.length).then (p.compare q)).isLT

/-- The nearest of some files to the root, the first of those that are equally near. -/
def nearest? (files : List File) : Option File :=
  files.foldl (fun best f =>
    match best with
    | some b => if nearer f.path b.path then some f else some b
    | none => some f) none

/-- The main manifest. -/
def mainManifest? (p : Project) : Option File := nearest? (p.filesOf .manifest)

/-- The main manifest with its root element, when it is well formed. -/
def manifestRoot? (p : Project) : Option (File × Xml.Element) := do
  let f ← p.mainManifest?
  let root ← f.rootElement?
  pure (f, root)

/-- What the main manifest says. -/
def manifest? (p : Project) : Option Manifest := p.manifestRoot?.map fun m => Manifest.ofRoot m.2

/-! ## 3. Build scripts -/

/-- What the build scripts say together. -/
def gradle (p : Project) : Gradle :=
  ((p.filesOf .gradle).map fun f => Gradle.ofScript f.contents.toList).foldl Gradle.merge Gradle.none

/-- Whether there are build scripts. -/
def hasGradle (p : Project) : Bool := !(p.filesOf .gradle).isEmpty

/-- Whether the project is a library. -/
def isLibrary (p : Project) : Bool := p.config.android.library || p.gradle.isLibrary

/-- The platform level aimed at. Build scripts take precedence over the manifest. -/
def targetSdk? (p : Project) : Option Nat :=
  p.gradle.targetLevel?.or (p.manifest?.bind (·.targetSdk?))

end Project

end AndroidLint
