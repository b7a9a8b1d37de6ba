/-
  File:      AndroidLint/Issue.lean
  Subject:   The kinds of problems that the checks report.

  An issue is known by its id. The id is looked up without regard to the case of its letters;
  a configuration names issues by the exact id.
-/
import AndroidLint.Text.Split

namespace AndroidLint

/-! ## 1. Severity -/

/-- How bad a reported problem is. -/
inductive Severity where
  | informational
  | warning
  | error
  | fatal
  deriving DecidableEq, Repr

namespace Severity

/-- The name of a severity in configurations and reports. -/
def name : Severity → String
  | informational => "informational"
  | warning => "warning"
  | error => "error"
  | fatal => "fatal"

/-- The word for a severity in the text report, where fatal problems are errors too. -/
def label : Severity → String
  | informational => "Information"
  | warning => "Warning"
  | error | fatal => "Error"

/-- Whether a problem of this severity makes the run fail. -/
def isError : Severity → Bool
  | error | fatal => true
  | informational | warning => false

end Severity

/-- What a configuration may ask for an issue: a severity, or not to report it. -/
inductive Grade where
  | report (severity : Severity)
  | ignore
  deriving DecidableEq, Repr

namespace Grade

/-- Read the name of a grade; capital letters count as small ones. -/
def ofName? (name : String) : Option Grade :=
  match Text.lower name with
  | "fatal" => some (.report .fatal)
  | "error" => some (.report .error)
  | "warning" => some (.report .warning)
  | "informational" | "info" => some (.report .informational)
  | "ignore" | "off" => some .ignore
  | _ => none

/-- The severity that is left to report. -/
def severity? : Grade → Option Severity
  | report s => some s
  | ignore => none

end Grade

/-! ## 2. Issues -/

/-- Broad groups of issues. -/
inductive Category where
  | correctness
  | messages
  | security
  | usability
  | icons
  deriving DecidableEq, Repr

/-- The name of a group in reports. -/
def Category.name : Category → String
  | correctness => "Correctness"
  | messages => "Correctness:Messages"
  | security => "Security"
  | usability => "Usability"
  | icons => "Usability:Icons"

/-- A kind of problem. -/
inductive Issue where
  | allowBackup
  | checkResult
  | duplicateActivity
  | duplicateDefinition
  | duplicateUsesFeature
  | gradleOverrides
  | manifestOrder
  | mipmapIcons
  | missingApplicationIcon
  | missingPermission
  | multipleUsesSdk
  | range
  | referenceType
  | resourceType
  | stringEscaping
  | stringFormatCount
  | stringFormatInvalid
  | stringFormatMatches
  | usesMinSdkAttributes
  | visibleForTests
  | wrongConstant
  | wrongManifestParent
  | wrongThread
  deriving DecidableEq, Repr

/-- What is told about an issue. -/
structure Issue.Description where
  /-- One line. -/
  brief : String
  explanation : String
  category : Category
  /-- From one, the lowest, to ten. -/
  priority : Nat
  /-- The severity unless a configuration says otherwise. -/
  severity : Severity

namespace Issue

/-- The id of an issue. -/
def id : Issue → String
  | .allowBackup => "AllowBackup"
  | .checkResult => "CheckResult"
  | .duplicateActivity => "DuplicateActivity"
  | .duplicateDefinition => "DuplicateDefinition"
  | .duplicateUsesFeature => "DuplicateUsesFeature"
  | .gradleOverrides => "GradleOverrides"
  | .manifestOrder => "ManifestOrder"
  | .mipmapIcons => "MipmapIcons"
  | .missingApplicationIcon => "MissingApplicationIcon"
  | .missingPermission => "MissingPermission"
  | .multipleUsesSdk => "MultipleUsesSdk"
  | .range => "Range"
  | .referenceType => "ReferenceType"
  | .resourceType => "ResourceType"
  | .stringEscaping => "StringEscaping"
  | .stringFormatCount => "StringFormatCount"
  | .stringFormatInvalid => "StringFormatInvalid"
  | .stringFormatMatches => "StringFormatMatches"
  | .usesMinSdkAttributes => "UsesMinSdkAttributes"
  | .visibleForTests => "VisibleForTests"
  | .wrongConstant => "WrongConstant"
  | .wrongManifestParent => "WrongManifestParent"
  | .wrongThread => "WrongThread"

/-- What is told about an issue. -/
def description : Issue → Description
  | .allowBackup =>
    { brief := "AllowBackup/FullBackupContent Problems"
      explanation :=
        "The `allowBackup` attribute determines if an application's data can be backed up and " ++
        "restored. By default this flag is set to `true` which means application data can be " ++
        "backed up and restored by the OS. Setting it explicitly documents the decision."
      category := .security
      priority := 3
      severity := .warning }
  | .checkResult =>
    { brief := "Ignoring results"
      explanation :=
        "Some methods have no side effects, and calling them without doing something with the " ++
        "result is suspicious."
      category := .correctness
      priority := 6
      severity := .warning }
  | .duplicateActivity =>
    { brief := "Activity registered more than once"
      explanation :=
        "An activity should only be registered once in the manifest. If it is accidentally " ++
        "registered more than once, then subtle errors can occur, since attribute declarations " ++
        "from the two elements are not merged, so you may accidentally remove previous " ++
        "declarations."
      category := .correctness
      priority := 5
      severity := .fatal }
  | .duplicateDefinition =>
    { brief := "Duplicate definitions of resources"
      explanation :=
        "You can define a resource multiple times in different resource folders; that's how " ++
        "string translations are done, for example. However, defining the same resource more " ++
        "than once in the same resource folder is likely an error, for example attempting to " ++
        "add a new resource without realizing that the name is already used, and so on."
      category := .correctness
      priority := 6
      severity := .error }
  | .duplicateUsesFeature =>
    { brief := "Feature declared more than once"
      explanation :=
        "A given feature should only be declared once in the manifest."
      category := .correctness
      priority := 5
      severity := .warning }
  | .gradleOverrides =>
    { brief := "Value overridden by Gradle build script"
      explanation :=
        "The value of (for example) `minSdkVersion` is only used if it is not specified in the " ++
        "`build.gradle` build scripts. When specified in the Gradle build scripts, the manifest " ++
        "value is ignored and can be misleading, so should be removed to avoid ambiguity."
      category := .correctness
      priority := 4
      severity := .warning }
  | .manifestOrder =>
    { brief := "Incorrect order of elements in manifest"
      explanation :=
        "The <application> tag should appear after the elements which declare which version you " ++
        "need, which features you need, which libraries you need, and so on. In the past there " ++
        "have been subtle bugs (such as themes not getting applied correctly) when the " ++
        "`<application>` tag appears before some of these other elements, so it's best to order " ++
        "your manifest in the logical dependency order."
      category := .correctness
      priority := 5
      severity := .warning }
  | .mipmapIcons =>
    { brief := "Use Mipmap Launcher Icons"
      explanation :=
        "Launcher icons should be provided in the `mipmap` resource directory. This is the same " ++
        "as the `drawable` resource directory, except resources in the `mipmap` directory will " ++
        "not get stripped out when creating density-specific APKs."
      category := .icons
      priority := 5
      severity := .warning }
  | .missingApplicationIcon =>
    { brief := "Missing application icon"
      explanation :=
        "You should set an icon for the application as whole because there is no default. This " ++
        "attribute must be set as a reference to a drawable resource containing the image (for " ++
        "example `@mipmap/icon`)."
      category := .icons
      priority := 5
      severity := .warning }
  | .missingPermission =>
    { brief := "Missing Permissions"
      explanation :=
        "This check scans through your code and libraries and looks at the APIs being used, and " ++
        "checks this against the set of permissions required to access those APIs. If the code " ++
        "using those APIs is called at runtime, then the program will crash.\n\nFurthermore, " ++
        "for permissions that are revocable (with targetSdkVersion 23), client code must also " ++
        "be prepared to handle the calls throwing an exception if the user rejects the request " ++
        "for permission at runtime."
      category := .correctness
      priority := 9
      severity := .error }
  | .multipleUsesSdk =>
    { brief := "Multiple `<uses-sdk>` elements in the manifest"
      explanation :=
        "The `<uses-sdk>` element should appear just once; the tools will **not** merge the " ++
        "contents of all the elements so if you split up the attributes across multiple " ++
        "elements, only one of them will take effect."
      category := .correctness
      priority := 6
      severity := .fatal }
  | .range =>
    { brief := "Outside Range"
      explanation :=
        "Some parameters are required to be in a particular numerical range; this check makes " ++
        "sure that arguments passed fall within the range. For arrays, Strings and collections " ++
        "this refers to the size or length."
      category := .correctness
      priority := 6
      severity := .error }
  | .referenceType =>
    { brief := "Incorrect reference types"
      explanation :=
        "When you generate a resource alias, the resource you are pointing to must be of the " ++
        "same type as the alias."
      category := .correctness
      priority := 8
      severity := .fatal }
  | .resourceType =>
    { brief := "Wrong Resource Type"
      explanation :=
        "Ensures that resource id's passed to APIs are of the right type; for example, calling " ++
        "`Resources.getColor(R.string.name)` is wrong."
      category := .correctness
      priority := 7
      severity := .error }
  | .stringEscaping =>
    { brief := "Invalid string escapes"
      explanation :=
        "Apostrophes (') must always be escaped (with a \\\\), unless they appear in a string " ++
        "which is itself escaped in double quotes (\")."
      category := .messages
      priority := 9
      severity := .error }
  | .stringFormatCount =>
    { brief := "Formatting argument types incomplete or inconsistent"
      explanation :=
        "When a formatted string takes arguments, the number of arguments should be the same in " ++
        "all translations; otherwise some locales will drop or misplace values."
      category := .messages
      priority := 5
      severity := .warning }
  | .stringFormatInvalid =>
    { brief := "Invalid format string"
      explanation :=
        "If a string contains a '%' character, then the string may be a formatting string which " ++
        "will be passed to `String.format` from Java code to replace each '%' occurrence with " ++
        "specific values. Format strings must use valid conversions, translations must agree on " ++
        "the conversion used for each argument, and strings that are not format strings must " ++
        "not be passed to `String.format`."
      category := .messages
      priority := 9
      severity := .error }
  | .stringFormatMatches =>
    { brief := "`String.format` string doesn't match the XML format string"
      explanation :=
        "The format string resource used by a `String.format` or `getString` call must expect " ++
        "the number of arguments supplied, and each conversion must accept the type of the " ++
        "value passed for it. Mismatches throw at runtime or produce garbled output."
      category := .messages
      priority := 9
      severity := .error }
  | .usesMinSdkAttributes =>
    { brief := "Minimum SDK and target SDK attributes not defined"
      explanation :=
        "The manifest should contain a `<uses-sdk>` element which defines the minimum API Level " ++
        "required for the application to run, as well as the target version (the highest API " ++
        "level you have tested the version for)."
      category := .correctness
      priority := 9
      severity := .warning }
  | .visibleForTests =>
    { brief := "Visible Only For Tests"
      explanation :=
        "With the `@VisibleForTesting` annotation you can specify an `otherwise=` attribute " ++
        "which specifies the intended visibility if the method had not been made more widely " ++
        "visible for the tests.\n\nThis check looks for accesses from within production code " ++
        "(e.g. not tests) where the access is not permitted by the intended visibility."
      category := .correctness
      priority := 4
      severity := .warning }
  | .wrongConstant =>
    { brief := "Incorrect constant"
      explanation :=
        "Ensures that when a parameter in a method only allows a specific set of constants, " ++
        "calls obey those rules."
      category := .correctness
      priority := 6
      severity := .error }
  | .wrongManifestParent =>
    { brief := "Wrong manifest parent"
      explanation :=
        "The `<uses-library>` element should be defined as a direct child of the " ++
        "`<application>` tag, not the `<manifest>` tag or an `<activity>` tag. Similarly, a " ++
        "`<uses-sdk>` tag must be declared at the root level, and so on. This check looks for " ++
        "incorrect declaration locations in the manifest, and complains if an element is found " ++
        "in the wrong place."
      category := .correctness
      priority := 6
      severity := .fatal }
  | .wrongThread =>
    { brief := "Wrong Thread"
      explanation :=
        "Ensures that a method which expects to be called on a specific thread, is actually " ++
        "called from that thread. For example, calls on methods in widgets should always be " ++
        "made on the UI thread."
      category := .correctness
      priority := 6
      severity := .error }

/-- The severity of an issue unless a configuration says otherwise. -/
def severity (i : Issue) : Severity := i.description.severity

/-- All issues, in the order of their ids. -/
def all : List Issue :=
  [.allowBackup, .checkResult, .duplicateActivity, .duplicateDefinition, .duplicateUsesFeature,
   .gradleOverrides, .manifestOrder, .mipmapIcons, .missingApplicationIcon, .missingPermission,
   .multipleUsesSdk, .range, .referenceType, .resourceType, .stringEscaping, .stringFormatCount,
   .stringFormatInvalid, .stringFormatMatches, .usesMinSdkAttributes, .visibleForTests,
   .wrongConstant, .wrongManifestParent, .wrongThread]

theorem mem_all (i : Issue) : i ∈ all := by cases i <;> decide

/-- The issue with an id; the case of letters does not matter. -/
def find? (id : String) : Option Issue :=
  all.find? fun i => Text.lower i.id == Text.lower id

end Issue

end AndroidLint
