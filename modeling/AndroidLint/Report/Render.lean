/-
  File:      AndroidLint/Report/Render.lean
  Subject:   Reports in every format.
-/
import AndroidLint.Report.FixDiff
import AndroidLint.Report.Format
import AndroidLint.Report.Json
import AndroidLint.Report.Sarif
import AndroidLint.Report.Text

namespace AndroidLint.Report

/-- A text that ends its last line. -/
def withLineEnd (text : String) : String := if Text.hasTail "\n" text then text else text ++ "\n"

/-- How a report is made. -/
structure Settings where
  format : ReportFormat
  style : TextStyle
  /-- Print the corrections after a text report. -/
  showFixes : Bool

/-- The report of some incidents. -/
def Settings.render (s : Settings) (p : Project) (is : List Incident) : String :=
  match s.format with
  | .json => Json.pretty (jsonReport is)
  | .sarif => Json.pretty (sarifReport is)
  | .text =>
    let report := s.style.render p is
    let diffs := if s.showFixes then fixDiffs p 0 is else ""
    if diffs = "" then report else withLineEnd report ++ "\n" ++ diffs

end AndroidLint.Report
