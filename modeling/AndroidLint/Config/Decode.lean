/-
  File:      AndroidLint/Config/Decode.lean
  Subject:   A configuration out of a value of a data format.

  Formats differ in what counts as a text, a truth value or a list; `View` is what a format says
  about its values. Every field of a configuration may be missing, a field that is not known is
  passed over, and one that occurs twice or holds the wrong kind of value makes the whole fail.
-/
import AndroidLint.Config

namespace AndroidLint.Config

/-- How a format's values are looked at. -/
structure View (ν : Type) where
  text? : ν → Option String
  flag? : ν → Option Bool
  items? : ν → Option (List ν)
  /-- The entries of a table, by key. -/
  entries? : ν → Option (List (String × ν))
  /-- The fields of a record whose fields have the given names in this order. -/
  fields? : List String → ν → Option (List (String × ν))

namespace View

variable {ν : Type} (view : View ν)

/-- The value of a field, decoded; `default` when the field is missing. -/
def field? {α : Type} (fields : List (String × ν)) (name : String) (decode : ν → Option α)
    (default : α) : Option α :=
  match fields.filter (·.1 == name) with
  | [] => some default
  | [(_, value)] => decode value
  | _ => none

/-- A list of texts. -/
def texts? (value : ν) : Option (List String) := do
  (← view.items? value).mapM view.text?

/-- Grades by issue id. Of several grades for one issue the last one counts. -/
def grades? (value : ν) : Option (List (String × String)) := do
  let entries ← (← view.entries? value).mapM fun (id, v) => (view.text? v).map fun s => (id, s)
  pure (entries.foldl (fun grades (id, name) => setGrade id name grades) [])

/-- How results are reported. -/
def report? (value : ν) : Option ReportSettings := do
  let fields ← view.fields? ["format", "show_fixes"] value
  let default : ReportSettings := {}
  let format ← field? fields "format" view.text? default.format
  let showFixes ← field? fields "show_fixes" view.flag? default.showFixes
  pure { format, showFixes }

/-- What the checks are told about the project. -/
def android? (value : ν) : Option AndroidSettings := do
  let fields ← view.fields? ["library", "test_source_patterns"] value
  let default : AndroidSettings := {}
  let library ← field? fields "library" view.flag? default.library
  let testSourcePatterns ←
    field? fields "test_source_patterns" view.texts? default.testSourcePatterns
  pure { library, testSourcePatterns }

end View

/-- The names of the fields of a configuration. -/
def fieldNames : List String :=
  ["targets", "exclude", "check", "disable", "severity", "report", "android"]

/-- The configuration that a value describes. -/
def decode? {ν : Type} (view : View ν) (value : ν) : Option Config := do
  let fields ← view.fields? fieldNames value
  let default : Config := {}
  let targets ← View.field? fields "targets" (fun v => (view.texts? v).map (·.map Path.mk))
    default.targets
  let exclude ← View.field? fields "exclude" view.texts? default.exclude
  let check ← View.field? fields "check" view.texts? default.check
  let disable ← View.field? fields "disable" view.texts? default.disable
  let severity ← View.field? fields "severity" view.grades? default.severity
  let report ← View.field? fields "report" view.report? default.report
  let android ← View.field? fields "android" view.android? default.android
  pure { targets, exclude, check, disable, severity, report, android }

end AndroidLint.Config
