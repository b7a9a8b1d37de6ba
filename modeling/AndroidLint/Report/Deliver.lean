/-
  File:      AndroidLint/Report/Deliver.lean
  Subject:   Where reports go.
-/
import AndroidLint.Disk
import AndroidLint.Report.Render

namespace AndroidLint.Report

/-- Print a report, or write it to a file and say so. -/
def Settings.deliver (s : Settings) (d : Disk) (output? : Option Path) (p : Project)
    (is : List Incident) : Except DiskError (Disk × String) :=
  let report := withLineEnd (s.render p is)
  match output? with
  | none => .ok (d, report)
  | some path => do
    let d ← d.write path (.text report)
    pure (d, s!"Report written to: {path.text}\n")

end AndroidLint.Report
