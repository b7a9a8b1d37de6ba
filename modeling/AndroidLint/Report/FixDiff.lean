/-
  File:      AndroidLint/Report/FixDiff.lean
  Subject:   Corrections as differences of lines.
-/
import AndroidLint.Grouping
import AndroidLint.Incident
import AndroidLint.Project
import AndroidLint.Report.LineDiff

namespace AndroidLint.Report

/-- Edits by the file they change, files in the order of paths. -/
def editsByFile (edits : List TextEdit) : List (Path × List TextEdit) :=
  Grouping.groups Path.compare (·.file) edits

/-- The difference that edits make to one file; nothing when the file is not of the project or the
    edits cannot be applied. The path is shown unless it is that of the incident. -/
def fileDiff (p : Project) (window : Nat) (incidentFile : Path) (path : Path)
    (edits : List TextEdit) : String :=
  match p.file? path with
  | none => ""
  | some file =>
    match Edits.applyEdits path file.contents.toList edits with
    | .error _ => ""
    | .ok edited =>
      let head := if path.same incidentFile then "" else path.display ++ ":\n"
      head ++ String.ofList (lineDiff file.contents.toList edited window)

/-- The differences that one choice of a correction makes. -/
def optionDiff (p : Project) (window : Nat) (l : Location) (name : String) (edits : List TextEdit) :
    String :=
  s!"Fix for {l.file.display} line {l.line}: {name}:\n" ++
    String.join ((editsByFile edits).map fun (path, es) => fileDiff p window l.file path es)

/-- The corrections of some incidents, with so many unchanged lines around each change. -/
def fixDiffs (p : Project) (window : Nat) (is : List Incident) : String :=
  String.join <| is.flatMap fun i =>
    match i.fix with
    | some fix => fix.options.map fun (name, edits) => optionDiff p window i.location name edits
    | none => []

end AndroidLint.Report
