/-
  File:      AndroidLint/Config.lean
  Subject:   What can be configured about a run.
-/
import AndroidLint.Glob
import AndroidLint.Issue
import AndroidLint.Path

namespace AndroidLint

/-- How results are reported. -/
structure ReportSettings where
  /-- The name of the format. -/
  format : String := "text"
  /-- Print the corrections as differences after the report. -/
  showFixes : Bool := false
  deriving DecidableEq, Repr

/-- What the checks are told about the project. -/
structure AndroidSettings where
  /-- Treat the project as a library whatever its build scripts say. -/
  library : Bool := false
  /-- Patterns of the paths of tests. -/
  testSourcePatterns : List String :=
    ["**/src/test/java/**", "**/src/test/kotlin/**", "**/src/androidTest/**"]
  deriving DecidableEq, Repr

/-- The configuration of a run. -/
structure Config where
  /-- The folders to look into; none means the whole project. -/
  targets : List Path := []
  /-- Patterns of paths that are left out. -/
  exclude : List String := ["**/build/**", "**/generated/**", "**/.gradle/**", "**/.idea/**"]
  /-- When not empty, the ids of the only issues that are checked. -/
  check : List String := []
  /-- The ids of issues that are not reported. -/
  disable : List String := []
  /-- The names of grades by issue id, in the order of the ids, each id once. -/
  severity : List (String × String) := []
  report : ReportSettings := {}
  android : AndroidSettings := {}
  deriving DecidableEq, Repr

/-- Why there is no configuration. -/
inductive ConfigError where
  /-- The file cannot be read as text. -/
  | unreadable (file : Path)
  | notYaml
  | notToml
  | unknownSeverity (value id : String)
  deriving DecidableEq, Repr

/-- The text of an error. -/
def ConfigError.message : ConfigError → String
  | unreadable file => s!"Failed to read config file: {file.text}"
  | notYaml => "Failed to parse YAML config"
  | notToml => "Failed to parse TOML config"
  | unknownSeverity value id =>
    (s!"Unknown severity `{value}` for issue {id} (expected fatal, error, warning, " ++
     "informational or ignore)")

namespace Config

/-- Grades must have names that are known. -/
def validate (c : Config) : Except ConfigError Unit :=
  match c.severity.find? fun entry => (Grade.ofName? entry.2).isNone with
  | some (id, value) => .error (.unknownSeverity value id)
  | none => .ok ()

/-- Whether a path is left out. -/
def excludes (c : Config) (p : Path) : Bool := c.exclude.any (Glob.isMatch · p.display)

/-- Whether a path is that of a test. -/
def isTestSource (c : Config) (p : Path) : Bool :=
  c.android.testSourcePatterns.any (Glob.isMatch · p.display)

/-- The grade that is configured for an issue. -/
def grade? (c : Config) (i : Issue) : Option Grade := do
  let (_, name) ← c.severity.find? (·.1 == i.id)
  Grade.ofName? name

/-- The severity of an issue, or nothing when it is not reported. -/
def severityFor (c : Config) (i : Issue) : Option Severity :=
  if c.disable.contains i.id then none
  else if !c.check.isEmpty && !c.check.contains i.id then none
  else
    match c.grade? i with
    | some grade => grade.severity?
    | none => some i.severity

/-- Set a grade in a list of grades that is in the order of the ids. -/
def setGrade (id value : String) : List (String × String) → List (String × String)
  | [] => [(id, value)]
  | entry :: rest =>
    if id < entry.1 then (id, value) :: entry :: rest
    else if id = entry.1 then (id, value) :: rest
    else entry :: setGrade id value rest

end Config

end AndroidLint
