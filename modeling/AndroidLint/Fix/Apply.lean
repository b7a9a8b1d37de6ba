/-
  File:      AndroidLint/Fix/Apply.lean
  Subject:   Applying corrections to files.

  Of each incident's correction the first choice is taken. The edits of a file are made together;
  those that overlap an earlier one are left out, and a file whose edits cannot be applied stays as it
  is.
-/
import AndroidLint.Disk
import AndroidLint.Report.FixDiff

namespace AndroidLint

/-- What applying corrections does. -/
structure FixOutcome where
  disk : Disk
  printed : String
  /-- How many incidents are corrected, or would be. -/
  count : Nat

namespace Fix

/-- Edit a file below a root. -/
def editFile (d : Disk) (root file : Path) (edits : List TextEdit) : Except EditError Disk :=
  let path := root ++ file
  match d.text path with
  | .error cause => .error (.io path cause.message)
  | .ok text =>
    match Edits.applyEdits file text.toList edits with
    | .error e => .error e
    | .ok edited =>
      match d.write path (.text (String.ofList edited)) with
      | .error cause => .error (.io path cause.message)
      | .ok d => .ok d

/-- The edits that are chosen for an incident: the first choice of its correction. -/
def chosen? (i : Incident) : Option (List TextEdit) := do
  let choice ← (← i.fix).options.head?
  pure choice.2

/-- Edit one file after another; each is shown with a mark for how it went. -/
def editFiles (root : Path) : Disk → List (Path × List TextEdit) → Disk × String
  | d, [] => (d, "")
  | d, (file, es) :: rest =>
    match editFile d root file (Edits.dropOverlapping es) with
    | .ok d =>
      let (d, printed) := editFiles root d rest
      (d, s!"  ✓ {file.text}\n" ++ printed)
    | .error e =>
      let (d, printed) := editFiles root d rest
      (d, s!"  ✗ {e.message}\n" ++ printed)

/-- Apply the corrections of some incidents, or only show them in a dry run. -/
def apply (d : Disk) (p : Project) (is : List Incident) (dryRun : Bool) : FixOutcome :=
  let fixable := is.filter (·.fix.isSome)
  if fixable.isEmpty then ⟨d, "No fixes available.\n", 0⟩
  else if dryRun then
    ⟨d, "Dry run - would apply:\n" ++ Report.fixDiffs p 0 is, fixable.length⟩
  else
    let chosen := fixable.filterMap chosen?
    let (d, printed) := editFiles p.root d (Report.editsByFile chosen.flatten)
    ⟨d, printed, chosen.length⟩

end Fix

end AndroidLint
