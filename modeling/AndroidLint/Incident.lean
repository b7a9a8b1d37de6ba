/-
  File:      AndroidLint/Incident.lean
  Subject:   Reported problems, where they are, and the order they are reported in.

  An incident is one occurrence of an issue. Incidents are reported by file, line, column, issue id
  and message; two that agree in all five are the same report.
-/
import AndroidLint.Fix.Basic
import AndroidLint.Grouping
import AndroidLint.Issue
import AndroidLint.Span

namespace AndroidLint

/-! ## 1. Locations -/

/-- A place in a file. -/
structure Location where
  /-- The path below the root of the project. -/
  file : Path
  /-- Nothing when the whole file is meant. -/
  span : Option Span
  /-- What is said about the place, when it is one besides the place of the problem itself. -/
  message : Option String
  deriving DecidableEq, Repr

namespace Location

/-- A byte range of a file with the given contents. -/
def ofRange (file : Path) (contents : String) (range : ByteRange) : Location :=
  ⟨file, some (Span.resolve contents.toList range), none⟩

/-- The whole file. -/
def ofFile (file : Path) : Location := ⟨file, none, none⟩

/-- The place with something said about it. -/
def saying (l : Location) (message : String) : Location := { l with message := some message }

/-- The line, or zero for a whole file. -/
def line (l : Location) : Nat := (l.span.map (·.line)).getD 0

/-- The column, or zero for a whole file. -/
def column (l : Location) : Nat := (l.span.map (·.column)).getD 0

end Location

/-! ## 2. Incidents -/

/-- One occurrence of an issue. -/
structure Incident where
  issue : Issue
  /-- The severity in force. -/
  severity : Severity
  message : String
  location : Location
  /-- Other places that belong to the problem. -/
  related : List Location
  fix : Option Fix

namespace Incident

/-- An occurrence with the severity that its issue has of itself. -/
def new (issue : Issue) (location : Location) (message : String) : Incident :=
  ⟨issue, issue.severity, message, location, [], none⟩

/-- The incident with another place that belongs to it. -/
def relatedTo (i : Incident) (other : Location) : Incident := { i with related := [other] }

/-- The incident with a correction. -/
def fixedBy (i : Incident) (fix : Fix) : Incident := { i with fix := some fix }

/-- The incident with another severity. -/
def graded (i : Incident) (severity : Severity) : Incident := { i with severity }

end Incident

/-! ## 3. The order of reports -/

/-- What incidents are ordered by. -/
structure SortKey where
  path : String
  line : Nat
  column : Nat
  id : String
  message : String
  deriving DecidableEq, Repr

namespace SortKey

/-- Keys are compared part by part. -/
def compare (a b : SortKey) : Ordering :=
  (Ord.compare a.path b.path).then <| (Ord.compare a.line b.line).then <|
    (Ord.compare a.column b.column).then <| (Ord.compare a.id b.id).then <|
      Ord.compare a.message b.message

/-- Whether a key stands before another one or equals it. -/
def le (a b : SortKey) : Bool := (a.compare b).isLE

end SortKey

namespace Incident

/-- The place of an incident in the order of reports. -/
def key (i : Incident) : SortKey :=
  ⟨i.location.file.display, i.location.line, i.location.column, i.issue.id, i.message⟩

/-- Incidents in the order of reports; those with equal keys keep their order. -/
def sorted (is : List Incident) : List Incident := is.mergeSort fun a b => a.key.le b.key

/-- Of neighbours with equal keys, keep the first. -/
def withoutRepeats (is : List Incident) : List Incident :=
  Grouping.withoutRepeats (fun a b => a.key = b.key) is

end Incident

end AndroidLint
