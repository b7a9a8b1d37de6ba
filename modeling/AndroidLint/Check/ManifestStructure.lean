/-
  File:      AndroidLint/Check/ManifestStructure.lean
  Subject:   The checks of manifests.

  Every manifest is checked for its structure; the platform levels are checked in the main one only.
-/
import AndroidLint.Grouping
import AndroidLint.Incident
import AndroidLint.Project

namespace AndroidLint.Check

open Xml (Element)

/-- The whole of an element. -/
def elementLocation (file : File) (e : Element) : Location :=
  .ofRange file.path file.contents e.range

/-- The name in the start tag of an element. -/
def tagLocation (file : File) (e : Element) : Location :=
  .ofRange file.path file.contents e.nameRange

/-- An attribute, from its name to the end of its value. -/
def attributeLocation (file : File) (a : Xml.Attribute) : Location :=
  .ofRange file.path file.contents a.range

/-! ## 1. Order and places of elements -/

/-- The elements that stand before `application`. -/
def beforeApplication : List String :=
  ["uses-sdk", "uses-permission", "uses-permission-sdk-23", "permission", "permission-tree",
   "permission-group", "uses-feature", "uses-configuration", "supports-screens",
   "compatible-screens", "supports-gl-texture", "instrumentation"]

/-- The elements that stand directly in `application`. -/
def applicationChildren : List String :=
  ["activity", "activity-alias", "service", "receiver", "provider", "uses-library"]

/-- The elements that stand directly in `manifest`. -/
def manifestChildren : List String :=
  ["uses-permission", "permission", "uses-sdk", "uses-feature", "instrumentation", "application"]

/-- Elements that come after `application` and belong before it. -/
def lateElements (file : File) (root : Element) : List Incident :=
  let late := root.children.dropWhile (·.tag != "application")
  (late.filter (beforeApplication.contains ·.tag)).map fun e =>
    .new .manifestOrder (elementLocation file e)
      s!"`<{e.tag}>` tag appears after `<application>` tag"

/-- An element that stands in the wrong one. -/
def misplaced? (file : File) (parent e : Element) : Option Incident :=
  if applicationChildren.contains e.tag && parent.tag != "application" then
    some <| .new .wrongManifestParent (elementLocation file e)
      s!"The `<{e.tag}>` element must be a direct child of the `<application>` element"
  else if manifestChildren.contains e.tag && parent.tag != "manifest" then
    some <| .new .wrongManifestParent (elementLocation file e)
      s!"The `<{e.tag}>` element must be a direct child of the `<manifest>` root element"
  else none

/-- The elements that stand in the wrong ones. -/
def misplacedElements (file : File) (root : Element) : List Incident :=
  root.descendants.flatMap fun parent => parent.children.filterMap (misplaced? file parent)

/-! ## 2. Platform levels -/

/-- All but the first `uses-sdk`. -/
def extraUsesSdk (file : File) (root : Element) : List Incident :=
  match root.childrenNamed "uses-sdk" with
  | [] => []
  | first :: others => others.map fun e =>
    (Incident.new .multipleUsesSdk (elementLocation file e)
      ("There should only be a single `<uses-sdk>` element in the manifest: merge these " ++
       "together")).relatedTo
      ((elementLocation file first).saying "Also appears here")

/-- One level of a `uses-sdk`: it is to be given once, either here or in a build script. -/
def levelIncident? (file : File) (usesSdk : Element) (name : String)
    (fromGradle : Option PlacedValue) (missing : String) : Option Incident :=
  match usesSdk.androidAttribute? name, fromGradle with
  | some a, some level =>
    some <| .new .gradleOverrides (attributeLocation file a)
      (s!"This `{name}` value (`{a.value}`) is not used; it is always overridden by the value " ++
       s!"specified in the Gradle build script (`{level.value}`)")
  | none, none => some <| .new .usesMinSdkAttributes (tagLocation file usesSdk) missing
  | _, _ => none

/-- What is wrong with the platform levels of the main manifest. -/
def sdkIncidents (gradle : Gradle) (file : File) (root : Element) : List Incident :=
  match root.childrenNamed "uses-sdk" with
  | [] =>
    if gradle.minimumSdk.isSome then []
    else
      [.new .usesMinSdkAttributes (tagLocation file root)
        ("Manifest should specify a minimum API level with `<uses-sdk " ++
         "android:minSdkVersion=\"?\" />`; if it really supports all versions of Android set it to 1")]
  | usesSdk :: _ =>
    (levelIncident? file usesSdk "minSdkVersion" gradle.minimumSdk
      ("`<uses-sdk>` tag should specify a minimum API level with " ++
       "`android:minSdkVersion=\"?\"`")).toList ++
    (levelIncident? file usesSdk "targetSdkVersion" gradle.targetSdk
      ("`<uses-sdk>` tag should specify a target API level (the highest verified version; when " ++
       "running on later versions, compatibility behaviors may be enabled) with " ++
       "`android:targetSdkVersion=\"?\"`")).toList

/-! ## 3. Repeated registrations -/

/-- The names of some elements. -/
def namesOf (es : List Element) : List Xml.Attribute := es.filterMap (·.androidAttribute? "name")

/-- Activities that are registered again in the same `application`. -/
def repeatedActivities (file : File) (root application : Element) : List Incident :=
  let package := (root.attribute? "package").map (·.value)
  let qualified (a : Xml.Attribute) := resolveClassName a.value package
  (Grouping.repeats qualified (namesOf (application.childrenNamed "activity"))).map fun (_, a) =>
    .new .duplicateActivity (attributeLocation file a)
      s!"Duplicate registration for activity `{qualified a}`"

/-- Features that are declared again. -/
def repeatedFeatures (file : File) (root : Element) : List Incident :=
  (Grouping.repeats (·.value) (namesOf (root.childrenNamed "uses-feature"))).map fun (_, a) =>
    .new .duplicateUsesFeature (attributeLocation file a)
      s!"Duplicate declaration of uses-feature `{a.value}`"

/-! ## 4. The application -/

/-- The qualifier of the platform's namespace on the root element. -/
def androidQualifier (root : Element) : String :=
  match root.attributes.find? fun a => a.qualifier? == some "xmlns" && a.value == Xml.androidUri with
  | some a => a.localName
  | none => "android"

/-- An application that does not say whether its data may be backed up. -/
def backupIncident? (file : File) (root application : Element) : Option Incident :=
  if (application.androidAttribute? "allowBackup").isSome then none
  else
    let insertion := TextEdit.insertion file.path application.nameRange.stop
      s!" {androidQualifier root}:allowBackup=\"true\""
    some <| (Incident.new .allowBackup (tagLocation file application)
      ("Should explicitly set `android:allowBackup` to `true` or `false` (it's `true` by default, " ++
       "and that can have some security implications for the application's data)")).fixedBy
      (.edits "Set allowBackup=\"true\"" [insertion])

/-- An application without an icon. -/
def iconIncident? (file : File) (application : Element) : Option Incident :=
  if (application.androidAttribute? "icon").isSome then none
  else
    some <| .new .missingApplicationIcon (tagLocation file application)
      "Should explicitly set `android:icon`, there is no default"

/-- A launcher icon that is a drawable. -/
def drawableIcon? (file : File) (e : Element) : Option Incident := do
  let icon ← e.androidAttribute? "icon"
  let name ← Text.afterHead? "@drawable/" icon.value
  let replacement := "@mipmap/" ++ name
  pure <| (Incident.new .mipmapIcons (.ofRange file.path file.contents icon.valueRange)
    "Should use `@mipmap` instead of `@drawable` for launcher icons").fixedBy
    (.replacing s!"Replace with {replacement}" file.path icon.valueRange replacement)

/-- What is wrong with the first `application`. -/
def applicationIncidents (isLibrary : Bool) (file : File) (root : Element) : List Incident :=
  match root.childrenNamed "application" with
  | [] => []
  | application :: _ =>
    let launchers := application ::
      application.children.filter fun e => e.tag == "activity" || e.tag == "activity-alias"
    (if isLibrary then []
      else (backupIncident? file root application).toList ++
        (iconIncident? file application).toList) ++
      launchers.filterMap (drawableIcon? file)

/-! ## 5. All together -/

/-- What is wrong with one manifest; `isMain` marks the main one. -/
def manifestFileIncidents (p : Project) (isMain : Bool) (file : File) (root : Element) :
    List Incident :=
  lateElements file root ++ extraUsesSdk file root ++
    (if isMain then sdkIncidents p.gradle file root else []) ++
    misplacedElements file root ++
    (root.childrenNamed "application").flatMap (repeatedActivities file root) ++
    repeatedFeatures file root ++ applicationIncidents p.isLibrary file root

/-- What is wrong with the manifests of a project. -/
def manifestIncidents (p : Project) : List Incident :=
  let main := p.manifestRoot?.map (·.1.path)
  (p.filesOf .manifest).flatMap fun file =>
    match file.rootElement? with
    | some root =>
      if root.tag = "manifest" then
        manifestFileIncidents p (main.any (·.same file.path)) file root
      else []
    | none => []

end AndroidLint.Check
