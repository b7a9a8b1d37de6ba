/-
  File:      AndroidLint/Check/Contracts.lean
  Subject:   The checks of calls against the contracts of methods.
-/
import AndroidLint.Contract.Constants
import AndroidLint.Contract.Permissions
import AndroidLint.Contract.Range
import AndroidLint.Contract.ResourceTypes
import AndroidLint.Contract.Results
import AndroidLint.Contract.Threads
import AndroidLint.Contract.Visibility
import AndroidLint.Project

namespace AndroidLint.Check

open Contract

/-- The calls of a project whose methods belong to it. -/
def resolvedCalls (p : Project) (sources : Source.Sources) : List ResolvedCall :=
  sources.units.flatMap fun unit =>
    match p.file? unit.path with
    | some file => unit.calls.filterMap fun call =>
      (resolve? sources unit call).map fun (owner, method) =>
        { sources, unit, file, call, method, owner }
    | none => []

/-- What a project grants. -/
def grants (p : Project) : Grants where
  manifest := (p.manifest?.map (·.permissions)).getD []
  targetLevel := p.targetSdk?

/-- What is wrong with one call; `isTest` says whether it is in a test. -/
def contractIncidentsOf (g : Grants) (isTest : Bool) (c : ResolvedCall) : List Incident :=
  rangeIncidents c ++ constantIncidents c ++ resourceTypeIncidents c ++ permissionIncidents g c ++
    (threadIncident? c).toList ++ (visibilityIncident? isTest c).toList ++ (resultIncident? c).toList

/-- What is wrong with the calls of a project. -/
def contractIncidents (p : Project) (sources : Source.Sources) : List Incident :=
  let g := grants p
  (resolvedCalls p sources).flatMap fun c =>
    contractIncidentsOf g (p.config.isTestSource c.unit.path) c

/-- Whether a call of a project needs permissions, so that its manifest is looked at. -/
def needsManifest (p : Project) (sources : Source.Sources) : Bool :=
  (resolvedCalls p sources).any fun c => (requirement? c).isSome

end AndroidLint.Check
