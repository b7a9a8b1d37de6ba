/-
  File:      AndroidLint/Baseline.lean
  Subject:   Incidents that are known already.

  A baseline records incidents by issue, file and message. An incident is covered by a record when
  these agree and it is at most ten lines away from the recorded line; a record or an incident
  without a line is near to everything.
-/
import AndroidLint.Incident

namespace AndroidLint

/-- What an incident is known by from run to run. -/
structure Fingerprint where
  id : String
  file : String
  message : String
  /-- The line, or zero when there is none. -/
  line : Nat
  deriving DecidableEq, Repr

namespace Fingerprint

/-- What an incident is known by. -/
def ofIncident (i : Incident) : Fingerprint :=
  ⟨i.issue.id, i.location.file.display, i.message, i.location.line⟩

/-- How far an incident may move. -/
def tolerance : Nat := 10

/-- Whether two lines are near to each other. -/
def nearLines (a b : Nat) : Bool := a = 0 || b = 0 || (a ≤ b + tolerance && b ≤ a + tolerance)

/-- Whether a record covers an incident. -/
def covers (f : Fingerprint) (i : Incident) : Bool :=
  f.id == i.issue.id && f.message == i.message && f.file == i.location.file.display &&
    nearLines f.line i.location.line

end Fingerprint

/-- A record of known incidents. -/
structure Baseline where
  version : Nat
  /-- Seconds since the beginning of 1970. -/
  createdAt : Nat
  fingerprints : List Fingerprint
  deriving DecidableEq, Repr

/-- How many incidents a baseline covers. -/
structure BaselineCounts where
  recorded : Nat
  covered : Nat
  new : Nat
  deriving DecidableEq, Repr

/-- The counts in words. -/
def BaselineCounts.text (c : BaselineCounts) : String :=
  s!"{c.new} new incidents ({c.covered} baselined, {c.recorded} in baseline file)"

namespace Baseline

/-- The version of the records written. -/
def currentVersion : Nat := 1

/-- A record of some incidents, made at a time. -/
def ofIncidents (createdAt : Nat) (is : List Incident) : Baseline :=
  ⟨currentVersion, createdAt, is.map Fingerprint.ofIncident⟩

/-- Whether an incident is known. -/
def covers (b : Baseline) (i : Incident) : Bool := b.fingerprints.any (·.covers i)

/-- The incidents that are not known. -/
def newOnes (b : Baseline) (is : List Incident) : List Incident := is.filter (!b.covers ·)

/-- How many incidents are known and how many are not. -/
def counts (b : Baseline) (is : List Incident) : BaselineCounts :=
  let covered := is.countP b.covers
  ⟨b.fingerprints.length, covered, is.length - covered⟩

end Baseline

end AndroidLint
