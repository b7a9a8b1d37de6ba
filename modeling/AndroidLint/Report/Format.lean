/-
  File:      AndroidLint/Report/Format.lean
  Subject:   The formats of reports.
-/
import AndroidLint.Text.Split

namespace AndroidLint

/-- A format of reports. -/
inductive ReportFormat where
  | text
  | json
  | sarif
  deriving DecidableEq, Repr

namespace ReportFormat

/-- Read the name of a format; capital letters count as small ones. -/
def ofName? (name : String) : Option ReportFormat :=
  match Text.lower name with
  | "text" | "terminal" => some text
  | "json" => some json
  | "sarif" => some sarif
  | _ => none

/-- The name of a format. -/
def name : ReportFormat → String
  | text => "text"
  | json => "json"
  | sarif => "sarif"

end ReportFormat

end AndroidLint
