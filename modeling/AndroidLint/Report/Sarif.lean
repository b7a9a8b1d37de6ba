/-
  File:      AndroidLint/Report/Sarif.lean
  Subject:   Reports in SARIF, the format that build services read.
-/
import AndroidLint.Incident
import AndroidLint.Json.Printer

namespace AndroidLint.Report

open Json (Value)

/-! ## 1. Places -/

/-- A text as SARIF wraps it. -/
def message (text : String) : Value := .obj [("text", .str text)]

/-- The name of a file. -/
def artifact (uri : String) : Value := .obj [("uri", .str uri)]

/-- A span. Columns count from one here. -/
def region (s : Span) : Value :=
  .obj
    [("startLine", .nat s.line), ("startColumn", .nat (s.column + 1)), ("endLine", .nat s.endLine),
     ("endColumn", .nat (s.endColumn + 1))]

/-- A place. -/
def placeValue (l : Location) : Value :=
  .obj <|
    [("physicalLocation", .obj <|
      [("artifactLocation", artifact l.file.display)] ++
        Value.member? "region" (l.span.map region))] ++
      Value.member? "message" (l.message.map message)

/-! ## 2. Corrections -/

/-- A replacement of `length` units of a text from `offset` on. -/
structure Replacement where
  offset : Nat
  length : Nat
  inserted : String
  deriving DecidableEq, Repr

/-- The replacement that an edit makes. -/
def Replacement.ofEdit (e : TextEdit) : Replacement := ⟨e.range.start, e.range.length, e.replacement⟩

/-- A replacement; one that inserts nothing says nothing about it. -/
def Replacement.value (r : Replacement) : Value :=
  .obj <|
    [("deletedRegion", .obj [("charOffset", .nat r.offset), ("charLength", .nat r.length)])] ++
      Value.member? "insertedContent" (if r.inserted = "" then none else some (message r.inserted))

/-- Put an edit with the others of its file; files are in the order in which they come up. -/
def addEdit (changes : List (String × List TextEdit)) (e : TextEdit) :
    List (String × List TextEdit) :=
  match changes with
  | [] => [(e.file.display, [e])]
  | (uri, es) :: rest =>
    if uri = e.file.display then (uri, es ++ [e]) :: rest else (uri, es) :: addEdit rest e

/-- The edits of a correction by file. -/
def changes (edits : List TextEdit) : List (String × List TextEdit) := edits.foldl addEdit []

/-- One choice of a correction. -/
def optionValue (name : String) (edits : List TextEdit) : Value :=
  .obj
    [("description", message name),
     ("artifactChanges", .ofList (fun (uri, es) => .obj
       [("artifactLocation", artifact uri),
        ("replacements", .ofList (fun e => (Replacement.ofEdit e).value) es)]) (changes edits))]

/-- The choices of a correction. -/
def fixValues (fix : Option Fix) : List Value :=
  (fix.map fun f => f.options.map fun (name, edits) => optionValue name edits).getD []

/-! ## 3. Rules and results -/

/-- The word for a severity. -/
def level : Severity → String
  | .error | .fatal => "error"
  | .warning => "warning"
  | .informational => "note"

/-- What is told about an issue. -/
def ruleValue (i : Issue) : Value :=
  let d := i.description
  .obj
    [("id", .str i.id), ("shortDescription", message d.brief),
     ("fullDescription", message d.explanation),
     ("defaultConfiguration", .obj [("level", .str (level d.severity))]),
     ("properties", .obj [("category", .str d.category.name), ("priority", .nat d.priority)])]

/-- An incident. -/
def resultValue (i : Incident) : Value :=
  .obj <|
    [("ruleId", .str i.issue.id), ("level", .str (level i.severity)),
     ("message", message i.message), ("locations", .arr [placeValue i.location])] ++
      Value.nonEmpty "relatedLocations" (i.related.map placeValue) ++
      Value.nonEmpty "fixes" (fixValues i.fix)

/-- The SARIF report. -/
def sarifReport (is : List Incident) : Value :=
  .obj
    [("$schema", .str
       "https://raw.githubusercontent.com/oasis-tcs/sarif-spec/master/Schemata/sarif-schema-2.1.0.json"),
     ("version", .str "2.1.0"),
     ("runs", .arr [.obj
       [("tool", .obj [("driver", .obj
          [("name", .str "droidlint"), ("version", .str "0.1.0"),
           ("rules", .ofList ruleValue Issue.all)])]),
        ("results", .ofList resultValue is)]])]

end AndroidLint.Report
