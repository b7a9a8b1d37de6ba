/-
  File:      AndroidLint/Analysis.lean
  Subject:   Running the checks over a project.

  A run reports the incidents of all checks that have to do with a selected issue, with the severity
  that the configuration gives them, in the order of reports:

  * `analyze`   the incidents of a project;
  * `analyze?`  the same, unless reading a file as XML cuts a character.
-/
import AndroidLint.Check.Contracts
import AndroidLint.Check.FormatCalls
import AndroidLint.Check.ManifestStructure
import AndroidLint.Check.Resources

namespace AndroidLint

/-! ## 1. Checks -/

/-- The checks, by what they look at. -/
inductive Check where
  | resources
  | manifests
  | formats
  | contracts
  deriving DecidableEq, Repr

namespace Check

/-- All checks. -/
def all : List Check := [resources, manifests, formats, contracts]

/-- The issues that a check reports. -/
def issues : Check → List Issue
  | resources => [.duplicateDefinition, .referenceType, .stringEscaping]
  | manifests =>
    [.manifestOrder, .multipleUsesSdk, .usesMinSdkAttributes, .gradleOverrides,
     .wrongManifestParent, .duplicateActivity, .duplicateUsesFeature, .allowBackup,
     .missingApplicationIcon, .mipmapIcons]
  | formats => [.stringFormatInvalid, .stringFormatCount, .stringFormatMatches]
  | contracts =>
    [.range, .wrongConstant, .resourceType, .missingPermission, .wrongThread, .visibleForTests,
     .checkResult]

/-- What a check finds in a project with the given source files. -/
def incidents (p : Project) (sources : Source.Sources) : Check → List Incident
  | resources => resourceIncidents p
  | manifests => manifestIncidents p
  | formats => formatIncidents p sources
  | contracts => contractIncidents p sources

/-- The files that a check reads as XML. -/
def xmlFiles (p : Project) (sources : Source.Sources) : Check → List File
  | resources | formats => p.filesOf .values
  | manifests => p.filesOf .manifest
  | contracts => if needsManifest p sources then p.mainManifest?.toList else []

end Check

/-! ## 2. Selection -/

/-- The issues that are asked for; nothing means all of them. -/
abbrev Selection := Option (List Issue)

/-- Whether an issue is asked for. -/
def Selection.includes (s : Selection) (i : Issue) : Bool :=
  match s with
  | some issues => issues.contains i
  | none => true

namespace Project

/-- The severity with which a run reports an issue, or nothing when it does not. -/
def reportedSeverity (p : Project) (s : Selection) (i : Issue) : Option Severity :=
  if s.includes i then p.config.severityFor i else none

/-- The checks that have to do with an issue to report. -/
def activeChecks (p : Project) (s : Selection) : List Check :=
  Check.all.filter fun c => c.issues.any fun i => (p.reportedSeverity s i).isSome

/-! ## 3. Runs -/

/-- The incidents of a project. -/
def analyze (p : Project) (s : Selection) : List Incident :=
  let sources := p.sources
  let found := (p.activeChecks s).flatMap (Check.incidents p sources)
  let reported := found.filterMap fun i => (p.reportedSeverity s i.issue).map i.graded
  Incident.withoutRepeats (Incident.sorted reported)

/-- The incidents of a project; nothing when a file that is read as XML is torn. -/
def analyze? (p : Project) (s : Selection) : Option (List Incident) :=
  let sources := p.sources
  if (p.activeChecks s).any fun c => (c.xmlFiles p sources).any File.isTorn then none
  else some (p.analyze s)

end Project

/-- The incidents in one file. -/
def Incident.inFile (file : Path) (is : List Incident) : List Incident :=
  is.filter (·.location.file.same file)

end AndroidLint
