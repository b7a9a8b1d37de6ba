/-
  File:      AndroidLint/Report/Json.lean
  Subject:   Reports in JSON.
-/
import AndroidLint.Incident
import AndroidLint.Json.Printer

namespace AndroidLint.Report

open Json (Value)

/-- A place that belongs to an incident. -/
def relatedValue (l : Location) : Value :=
  .obj [("file", .str l.file.display), ("line", .nat l.line), ("message", .ofText? l.message)]

/-- The names of the choices of a correction. -/
def fixNames (fix : Option Fix) : List String := (fix.map fun f => f.options.map (·.1)).getD []

/-- An incident. Columns count from one here. -/
def incidentValue (i : Incident) : Value :=
  .obj
    [("id", .str i.issue.id), ("severity", .str i.severity.name),
     ("category", .str i.issue.description.category.name),
     ("priority", .nat i.issue.description.priority), ("message", .str i.message),
     ("file", .str i.location.file.display), ("line", .nat i.location.line),
     ("column", .nat (i.location.column + 1)), ("related", .ofList relatedValue i.related),
     ("fixes", .ofList .str (fixNames i.fix))]

/-- The JSON report. -/
def jsonReport (is : List Incident) : Value :=
  .obj
    [("version", .str "1.0"), ("total_issues", .nat is.length),
     ("issues", .ofList incidentValue is),
     ("summary", .obj
       [("errors", .nat (is.countP (·.severity.isError))),
        ("warnings", .nat (is.countP (·.severity = .warning))),
        ("infos", .nat (is.countP (·.severity = .informational)))])]

end AndroidLint.Report
