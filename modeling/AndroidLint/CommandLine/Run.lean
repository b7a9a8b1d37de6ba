/-
  File:      AndroidLint/CommandLine/Run.lean
  Subject:   What the command does.

  A run changes files, prints something and ends with a code: 0 when no errors are reported, 1 when
  some are or when the run fails, 2 when the arguments make no sense.
-/
import AndroidLint.Analysis
import AndroidLint.Baseline.Store
import AndroidLint.CommandLine.Options
import AndroidLint.Config.Load
import AndroidLint.Discovery
import AndroidLint.Fix.Apply
import AndroidLint.Report.Deliver

namespace AndroidLint.CommandLine

/-- What a run comes to. -/
structure Outcome where
  disk : Disk
  /-- What is printed as the result. -/
  printed : String := ""
  /-- What is said about a failure. -/
  complaint : String := ""
  code : Nat := 0

/-! ## 1. Settings of a run -/

/-- The configuration of a run: that of a file, with the options of the command in its place or
    added. -/
def Options.overrides (o : Options) (c : Config) : Config :=
  { c with
    targets := if o.targets.isEmpty then c.targets else o.targets
    exclude := c.exclude ++ o.exclude
    check := if o.check.isEmpty then c.check else o.check
    disable := c.disable ++ o.disable
    report :=
      { format := (o.format.map (·.name)).getD c.report.format
        showFixes := c.report.showFixes || o.has .showFixes } }

/-- The configuration of a run. -/
def Options.configuration (o : Options) (d : Disk) : Except ConfigError Config := do
  let c ← match o.config with
    | some file => Config.load d file
    | none => Config.loadDefault d o.root
  pure (o.overrides c)

/-! ## 2. The list of issues -/

/-- A text filled up with blanks to a width. -/
def padded (width : Nat) (text : String) : String :=
  text ++ String.ofList (List.replicate (width - text.length) ' ')

/-- One line for each issue. -/
def issueList : String :=
  String.join <| Issue.all.map fun i =>
    let d := i.description
    (padded 28 i.id ++ " " ++ padded 8 d.severity.label ++ " " ++ padded 12 d.category.name ++ " " ++
      d.brief ++ "\n")

/-! ## 3. Runs -/

/-- The incidents that a run is about: those in one file if only that one is asked for, and those
    that the baseline does not know. -/
def Options.select (o : Options) (d : Disk) (is : List Incident) :
    Except BaselineError (List Incident) := do
  let is := match o.incremental with
    | some file => Incident.inFile (file.relativeTo o.root) is
    | none => is
  match o.baseline with
  | some file => pure ((← Baseline.load d file).newOnes is)
  | none => pure is

/-- A run that fails. -/
def failed (d : Disk) (printed complaint : String) : Outcome :=
  { disk := d, printed, complaint, code := 1 }

/-- The end of a run: apply the corrections if that is asked for. They cannot be chosen without a
    terminal. -/
def finish (o : Options) (p : Project) (is : List Incident) (d : Disk) (printed : String) : Outcome :=
  let code := if 0 < Report.errorCount is && !o.has .exitZero then 1 else 0
  if o.has .applyFixes then
    if o.has .interactive && !o.has .dryRun && is.any (·.fix.isSome) then
      failed d printed "not a terminal"
    else
      let fixes := Fix.apply d p is (o.has .dryRun)
      { disk := fixes.disk, printed := printed ++ fixes.printed, code }
  else { disk := d, printed, code }

/-- Report the incidents of a project, recording them first if that is asked for. -/
def report (o : Options) (now : Nat) (p : Project) (is : List Incident) (d : Disk) : Outcome :=
  let recorded := match o.generateBaseline with
    | some file => Baseline.save d file (.ofIncidents now is)
    | none => .ok d
  match recorded with
  | .error e => failed d "" e.message
  | .ok d =>
    let settings : Report.Settings :=
      { format := (ReportFormat.ofName? p.config.report.format).getD .text
        style := { incremental := o.incremental.isSome }
        showFixes := p.config.report.showFixes }
    match settings.deliver d o.output p is with
    | .error e => failed d "" e.message
    | .ok (d, printed) => finish o p is d printed

/-- Check a project once. Offsets that cut a character end the run at once. -/
def lint (o : Options) (now : Nat) (c : Config) (d : Disk) : Outcome :=
  match Project.load d o.root c with
  | .error e => failed d "" e.message
  | .ok p =>
    if p.files.isEmpty then { disk := d, complaint := "No Android project files found." }
    else
      match p.analyze? none with
      | none => { disk := d, code := 101 }
      | some is =>
        match o.select d is with
        | .error e => failed d "" e.message
        | .ok is => report o now p is d

/-- The name and version of the command. -/
def versionText : String := "droidlint 0.1.0\n"

/-- How the command is called. -/
def usage : String := "Usage: droidlint [OPTIONS] [PATH]\n"

/-- Run the command at a time, given in seconds since the beginning of 1970. -/
def run (d : Disk) (now : Nat) (arguments : List String) : Outcome :=
  match Request.ofArguments arguments with
  | .refused => { disk := d, complaint := usage, code := 2 }
  | .help => { disk := d, printed := usage }
  | .version => { disk := d, printed := versionText }
  | .run o =>
    if o.has .listIssues then { disk := d, printed := issueList }
    else
      match o.configuration d with
      | .error e => failed d "" e.message
      | .ok c => lint o now c d

end AndroidLint.CommandLine
