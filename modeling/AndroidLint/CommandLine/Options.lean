/-
  File:      AndroidLint/CommandLine/Options.lean
  Subject:   The arguments of the command.

  A flag stands alone and is given once at most. A setting takes a value, either in the same argument
  or in the next one; the next one must not begin with a dash. After two dashes alone, arguments
  are no options any more. One argument that is no option is allowed: the root of the project.
-/
import AndroidLint.Path
import AndroidLint.Report.Format

namespace AndroidLint.CommandLine

/-! ## 1. Options -/

/-- An option without a value. -/
inductive Flag where
  | showFixes
  | applyFixes
  | interactive
  | dryRun
  | watch
  | listIssues
  | exitZero
  | verbose
  | quiet
  | help
  | version
  deriving DecidableEq, Repr

/-- An option with a value. -/
inductive Setting where
  | config
  | target
  | exclude
  | check
  | disable
  | format
  | output
  | baseline
  | generateBaseline
  | incremental
  deriving DecidableEq, Repr

/-- The flag of a long name. -/
def Flag.ofName? : String → Option Flag
  | "show-fixes" => some showFixes
  | "apply-fixes" => some applyFixes
  | "interactive" => some interactive
  | "dry-run" => some dryRun
  | "watch" => some watch
  | "list-issues" => some listIssues
  | "exit-zero" => some exitZero
  | "verbose" => some verbose
  | "quiet" => some quiet
  | "help" => some help
  | "version" => some version
  | _ => none

/-- The flag of a letter. -/
def Flag.ofLetter? : Char → Option Flag
  | 'v' => some verbose
  | 'q' => some quiet
  | 'h' => some help
  | 'V' => some version
  | _ => none

/-- The setting of a long name. -/
def Setting.ofName? : String → Option Setting
  | "config" => some config
  | "target" => some target
  | "exclude" => some exclude
  | "check" => some check
  | "disable" => some disable
  | "format" => some format
  | "output" => some output
  | "baseline" => some baseline
  | "generate-baseline" => some generateBaseline
  | "incremental" => some incremental
  | _ => none

/-- The setting of a letter. -/
def Setting.ofLetter? : Char → Option Setting
  | 'c' => some config
  | 't' => some target
  | 'e' => some exclude
  | 'f' => some format
  | 'o' => some output
  | _ => none

/-- What the arguments ask for. -/
structure Options where
  root? : Option Path := none
  flags : List Flag := []
  config : Option Path := none
  targets : List Path := []
  exclude : List String := []
  check : List String := []
  disable : List String := []
  format : Option ReportFormat := none
  output : Option Path := none
  baseline : Option Path := none
  generateBaseline : Option Path := none
  incremental : Option Path := none

namespace Options

/-- The root of the project: the working folder unless another one is given. -/
def root (o : Options) : Path := o.root?.getD ⟨"."⟩

/-- Whether a flag is given. -/
def has (o : Options) (f : Flag) : Bool := o.flags.contains f

/-- A path, which must not be empty. -/
def path? (value : String) : Option Path := if value = "" then none else some ⟨value⟩

/-- The path of a setting that is given for the first time. -/
def firstPath? (before : Option Path) (value : String) : Option Path :=
  if before.isSome then none else path? value

/-- The format of a name; capital letters are refused. -/
def format? : String → Option ReportFormat
  | "text" => some .text
  | "json" => some .json
  | "sarif" => some .sarif
  | _ => none

/-- Give a setting a value. -/
def give? (o : Options) (s : Setting) (value : String) : Option Options :=
  match s with
  | .config => (firstPath? o.config value).map fun p => { o with config := some p }
  | .target => (path? value).map fun p => { o with targets := o.targets ++ [p] }
  | .exclude => some { o with exclude := o.exclude ++ [value] }
  | .check => some { o with check := o.check ++ Text.split ',' value }
  | .disable => some { o with disable := o.disable ++ Text.split ',' value }
  | .format =>
    if o.format.isSome then none else (format? value).map fun f => { o with format := some f }
  | .output => (firstPath? o.output value).map fun p => { o with output := some p }
  | .baseline => (firstPath? o.baseline value).map fun p => { o with baseline := some p }
  | .generateBaseline =>
    (firstPath? o.generateBaseline value).map fun p => { o with generateBaseline := some p }
  | .incremental => (firstPath? o.incremental value).map fun p => { o with incremental := some p }

/-- Raise a flag. -/
def raise? (o : Options) (f : Flag) : Option Options :=
  if o.has f then none else some { o with flags := o.flags ++ [f] }

/-- Give the root of the project. -/
def giveRoot? (o : Options) (value : String) : Option Options :=
  (firstPath? o.root? value).map fun p => { o with root? := some p }

/-- Whether nothing is missing: choosing corrections and showing them both belong to applying
    them. -/
def isComplete (o : Options) : Bool :=
  o.has .applyFixes || (!o.has .interactive && !o.has .dryRun)

/-- The paths that a run may look at. -/
def paths (o : Options) : List Path :=
  let folder (p : Path) : Path := (p.parent?.filter (·.text != "")).getD ⟨"."⟩
  o.root :: o.targets.map (o.root ++ ·) ++ o.config.toList ++ o.baseline.toList ++
    (o.output.toList ++ o.generateBaseline.toList).map folder

end Options

/-! ## 2. Reading arguments -/

/-- What a list of arguments is. -/
inductive Request where
  | run (o : Options)
  | help
  | version
  /-- The arguments make no sense. -/
  | refused

/-- What has to come next. -/
inductive Expecting where
  | anything
  /-- The value of a setting. -/
  | value (s : Setting)
  /-- No option any more. -/
  | root

/-- What some arguments come to: options and what has to come next, or a request at once. -/
abbrev Reading := Except Request (Options × Expecting)

/-- Options, if they make sense. -/
def continueWith (next : Expecting) : Option Options → Reading
  | some o => .ok (o, next)
  | none => .error .refused

/-- A flag. -/
def readFlag (o : Options) (f : Flag) : Reading :=
  match f with
  | .help => .error .help
  | .version => .error .version
  | f => continueWith .anything (o.raise? f)

/-- An option with a long name, perhaps with a value after an equals sign. -/
def readLong (o : Options) (text : String) : Reading :=
  let (name, value?) := match Text.splitFirst? '=' text with
    | some (name, value) => (name, some value)
    | none => (text, none)
  match Flag.ofName? name, Setting.ofName? name, value? with
  | some f, _, none => readFlag o f
  | none, some s, some value => continueWith .anything (o.give? s value)
  | none, some s, none => .ok (o, .value s)
  | _, _, _ => .error .refused

/-- Options with letters. What follows the letter of a setting is its value. -/
def readLetters (o : Options) : List Char → Reading
  | [] => .ok (o, .anything)
  | c :: rest =>
    match Flag.ofLetter? c, Setting.ofLetter? c with
    | some f, _ => do
      let (o, _) ← readFlag o f
      readLetters o rest
    | none, some s =>
      match rest with
      | [] => .ok (o, .value s)
      | '=' :: value => continueWith .anything (o.give? s (String.ofList value))
      | value => continueWith .anything (o.give? s (String.ofList value))
    | none, none => .error .refused

/-- One argument where anything may come. -/
def readAny (o : Options) (argument : String) : Reading :=
  match argument.toList with
  | ['-', '-'] => .ok (o, .root)
  | '-' :: '-' :: text => readLong o (String.ofList text)
  | '-' :: c :: letters => readLetters o (c :: letters)
  | _ => continueWith .anything (o.giveRoot? argument)

/-- One argument. -/
def readArgument (state : Options × Expecting) (argument : String) : Reading :=
  let (o, expecting) := state
  match expecting with
  | .anything => readAny o argument
  | .root => continueWith .root (o.giveRoot? argument)
  | .value s =>
    if Text.hasHead "-" argument && argument != "-" then .error .refused
    else continueWith .anything (o.give? s argument)

/-- What a list of arguments asks for. -/
def Request.ofArguments (arguments : List String) : Request :=
  match arguments.foldlM readArgument ({}, .anything) with
  | .error request => request
  | .ok (_, .value _) => .refused
  | .ok (o, _) => if o.isComplete then .run o else .refused

end AndroidLint.CommandLine
