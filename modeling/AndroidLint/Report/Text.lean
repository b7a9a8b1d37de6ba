/-
  File:      AndroidLint/Report/Text.lean
  Subject:   Reports to read.

  Each incident has a line of its own, followed by the line of source it is about with a marker
  underneath, and by the places that belong to it. The counts come last.
-/
import AndroidLint.Incident
import AndroidLint.Project
import AndroidLint.Text.Blank

namespace AndroidLint.Report

/-- How the text report looks. -/
structure TextStyle where
  /-- Mark severities and ids with terminal colours. -/
  color : Bool := false
  /-- Show related places without their lines. -/
  incremental : Bool := false

/-! ## 1. Source lines -/

/-- The marker under a span of a line with so many characters: a tilde for each character of the
    span on that line, or a caret when there is none. -/
def marker (s : Span) (lineLength : Nat) : String :=
  let count := (if s.endLine = s.line then s.endColumn else lineLength) - s.column
  String.ofList (List.replicate s.column ' ' ++
    (if count = 0 then ['^'] else List.replicate count '~'))

/-- The line of source that a location begins on, and the marker underneath. -/
def excerpt? (p : Project) (l : Location) : Option (String × String) := do
  let s ← l.span
  let file ← p.file? l.file
  let line ← (Text.lines file.contents.toList)[s.line - 1]?
  pure (String.ofList (Text.trimEnd line), marker s line.length)

/-! ## 2. Incidents -/

/-- A text between the codes that switch a terminal style on and off. -/
def styled (code text : String) : String := "\x1b[" ++ code ++ "m" ++ text ++ "\x1b[0m"

/-- The code of a severity's colour. -/
def colorCode : Severity → String
  | .error | .fatal => "1;31"
  | .warning => "1;33"
  | .informational => "34"

/-- The word for a severity. -/
def TextStyle.label (t : TextStyle) (s : Severity) : String :=
  if t.color then styled (colorCode s) s.label else s.label

/-- The id of an issue in brackets. -/
def TextStyle.idMark (t : TextStyle) (i : Issue) : String :=
  let mark := "[" ++ i.id ++ "]"
  if t.color then styled "2" mark else mark

/-- A path and, when it is known, a line. -/
def position (l : Location) : String :=
  match l.span with
  | some s => s!"{l.file.display}:{s.line}"
  | none => l.file.display

/-- The line for a place that belongs to an incident. -/
def TextStyle.relatedLine (t : TextStyle) (l : Location) : String :=
  let message := l.message.getD "<No location-specific message>"
  let place := if t.incremental then l.file.display else position l
  s!"    {place}: {message}"

/-- The lines for an incident. -/
def TextStyle.incidentLines (t : TextStyle) (p : Project) (i : Incident) : List String :=
  let head := s!"{position i.location}: {t.label i.severity}: {i.message} {t.idMark i.issue}"
  let source := match excerpt? p i.location with
    | some (line, mark) => [line, mark]
    | none => []
  head :: source ++ i.related.map t.relatedLine

/-! ## 3. Reports -/

/-- Lines, each with its end. -/
def unlines (ls : List String) : String := String.join (ls.map (· ++ "\n"))

/-- The number of errors. -/
def errorCount (is : List Incident) : Nat := is.countP (·.severity.isError)

/-- The text report. -/
def TextStyle.render (t : TextStyle) (p : Project) (is : List Incident) : String :=
  if is.isEmpty then "No warnings."
  else
    let warnings := is.countP (·.severity = .warning)
    unlines (is.flatMap (t.incidentLines p) ++ [s!"{errorCount is} errors, {warnings} warnings"])

end AndroidLint.Report
