/-
  File:      AndroidLint/Manifest.lean
  Subject:   What a manifest says about the application.
-/
import AndroidLint.Text.Number
import AndroidLint.Xml.Document

namespace AndroidLint

/-- The class that a component's name stands for: a name that begins with a dot, or has none, is
    relative to the package. -/
def resolveClassName (name : String) (package : Option String) : String :=
  match package with
  | some package =>
    if Text.hasHead "." name then package ++ name
    else if name.toList.contains '.' then name
    else package ++ "." ++ name
  | none => (Text.afterHead? "." name).getD name

/-- The platform levels that a `uses-sdk` element asks for, as written. -/
structure UsesSdk where
  minimum : Option String
  target : Option String
  range : ByteRange

/-- A component that the application registers. -/
structure Component where
  tag : String
  /-- The name as written. -/
  name : String
  /-- The name with the package in front of it, where it is relative. -/
  qualifiedName : String
  /-- The attribute that gives the name. -/
  nameRange : ByteRange

/-- What a manifest says about the application. -/
structure Manifest where
  package : Option String
  usesSdk : List UsesSdk
  permissions : List String
  components : List Component

namespace Manifest

/-- The tags of components. -/
def componentTags : List String :=
  ["activity", "activity-alias", "service", "receiver", "provider"]

/-- The tags that ask for a permission. -/
def permissionTags : List String :=
  ["uses-permission", "uses-permission-sdk-23", "uses-permission-sdk-m"]

/-- The levels that an element asks for. -/
def usesSdkOf (e : Xml.Element) : UsesSdk where
  minimum := e.androidValue? "minSdkVersion"
  target := e.androidValue? "targetSdkVersion"
  range := e.range

/-- The component that an element registers, when it is named. -/
def component? (package : Option String) (e : Xml.Element) : Option Component :=
  (e.androidAttribute? "name").map fun name =>
    { tag := e.tag, name := name.value, qualifiedName := resolveClassName name.value package,
      nameRange := name.range }

/-- What a document says when it is read as a manifest. Elements count wherever they stand. -/
def ofRoot (root : Xml.Element) : Manifest :=
  let package := (root.attribute? "package").map (·.value)
  let tagged (tags : List String) := root.descendants.filter (tags.contains ·.tag)
  { package
    usesSdk := (tagged ["uses-sdk"]).map usesSdkOf
    permissions := (tagged permissionTags).filterMap (·.androidValue? "name")
    components := (tagged componentTags).filterMap (component? package) }

/-- The least platform level, when the first `uses-sdk` gives it as a number. -/
def minimumSdk? (m : Manifest) : Option Nat := m.usesSdk.head?.bind (·.minimum) >>= Text.level?

/-- The platform level aimed at, when the first `uses-sdk` gives it as a number. -/
def targetSdk? (m : Manifest) : Option Nat := m.usesSdk.head?.bind (·.target) >>= Text.level?

/-- Whether the application asks for a permission. -/
def hasPermission (m : Manifest) (permission : String) : Bool := m.permissions.contains permission

end Manifest

end AndroidLint
