/-
  File:      AndroidLint/Proofs/FileOrder.lean
  Subject:   The order of source files does not matter to a run.

  Files that are no source code are told apart by their order, and stay in it. Source files may come
  in any order, provided that no two files share a path and no two classes a qualified name:

  * `findings_reordered`:   for every key, the first finding is the same in both orders;
  * `analyze_reordered`:    so is the report.

  Paths are compared in two ways. Reports are sorted by the text of a path, while the file at a path
  is looked for by its steps. Files with different texts and the same steps are not told apart
  there, and then the order does matter (`analyze_reordered_needs_steps`).
-/
import AndroidLint.Proofs.Selection
import AndroidLint.Proofs.SourceOrder
import Mathlib.Data.List.Pairwise

namespace AndroidLint

open Source (CompilationUnit Sources)

namespace Project

/-- The files of a project in another order, in which those that are no source code keep theirs. -/
structure Reordered (p q : Project) : Prop where
  config : q.config = p.config
  files : q.files.Perm p.files
  others : (q.files.filter fun f => !f.kind.isSource) = p.files.filter fun f => !f.kind.isSource

/-- The files of a project are told apart by their paths, as texts and as steps, and its classes by
    their qualified names. -/
structure Distinct (p : Project) : Prop where
  texts : (p.files.map fun f => f.path.display).Nodup
  steps : p.files.Pairwise fun f g => f.path.same g.path = false
  classes : p.sources.qualifiedNames.Nodup

/-! ## 1. Files that are no source code -/

theorem filesOf_eq_filter (p : Project) {k : FileKind} (hk : k.isSource = false) :
    p.filesOf k = (p.files.filter fun f => !f.kind.isSource).filter (·.kind = k) := by
  rw [List.filter_filter, filesOf]
  congr 1
  funext f
  by_cases hf : f.kind = k
  · simp [hf, hk]
  · simp [hf]

namespace Reordered

variable {p q : Project} (h : Reordered p q)

include h

theorem filesOf {k : FileKind} (hk : k.isSource = false) : q.filesOf k = p.filesOf k := by
  rw [filesOf_eq_filter q hk, filesOf_eq_filter p hk, h.others]

theorem valuesFiles : q.valuesFiles = p.valuesFiles := by
  unfold Project.valuesFiles
  rw [h.filesOf rfl]

theorem mainManifest? : q.mainManifest? = p.mainManifest? := by
  unfold Project.mainManifest?
  rw [h.filesOf rfl]

theorem manifestRoot? : q.manifestRoot? = p.manifestRoot? := by
  unfold Project.manifestRoot?
  rw [h.mainManifest?]

theorem gradle : q.gradle = p.gradle := by
  unfold Project.gradle
  rw [h.filesOf rfl]

theorem resourceIncidents : Check.resourceIncidents q = Check.resourceIncidents p := by
  unfold Check.resourceIncidents Check.duplicates Check.definitionsByFolder
  rw [h.valuesFiles]

theorem manifestIncidents : Check.manifestIncidents q = Check.manifestIncidents p := by
  have hfile : Check.manifestFileIncidents q = Check.manifestFileIncidents p := by
    funext isMain file root
    unfold Check.manifestFileIncidents isLibrary
    rw [h.gradle, h.config]
  unfold Check.manifestIncidents
  rw [h.manifestRoot?, h.filesOf rfl, hfile]

theorem formatGroups : Check.formatGroups q = Check.formatGroups p := by
  unfold Check.formatGroups
  rw [h.valuesFiles]

theorem grants : Check.grants q = Check.grants p := by
  unfold Check.grants targetSdk? manifest?
  rw [h.manifestRoot?, h.gradle]

/-! ## 2. Source files -/

theorem units : q.sources.units.Perm p.sources.units := h.files.filterMap _

/-- The file at a path is the same one. -/
theorem file? (hd : p.Distinct) (path : Path) : q.file? path = p.file? path := by
  have hsteps : p.files.Pairwise fun f g => f.path.components ≠ g.path.components :=
    hd.steps.imp fun hfg heq => by simp [Path.same, heq] at hfg
  exact (find?_eq_of_perm h.files.symm hsteps path.components).symm

theorem agrees (hd : p.Distinct) : p.sources.Agrees q.sources :=
  Sources.agrees_of_perm h.units.symm hd.classes

end Reordered

theorem path_of_unit? {f : File} {u : CompilationUnit} (h : f.unit? = some u) :
    u.path = f.path := by
  unfold File.unit? at h
  split at h <;> cases h <;> rfl

/-- The source files are told apart by the texts of their paths. -/
theorem Distinct.units {p : Project} (hd : p.Distinct) :
    p.sources.units.Pairwise fun u v => u.path.display ≠ v.path.display := by
  refine List.Pairwise.filterMap _ (fun f g hfg u hu v hv => ?_) (List.pairwise_map.mp hd.texts)
  rw [path_of_unit? hu, path_of_unit? hv]
  exact hfg

/-- The file that is found for a source file has its path. -/
theorem Distinct.path_of_file? {p : Project} (hd : p.Distinct) {u : CompilationUnit}
    (hu : u ∈ p.sources.units) {file : File} (h : p.file? u.path = some file) :
    file.path = u.path := by
  obtain ⟨f, hf, hunit⟩ := List.mem_filterMap.mp hu
  have hsame : file.path.same f.path = true := by
    have hfound := List.find?_some h
    rw [path_of_unit? hunit] at hfound
    exact hfound
  rw [File.eq_of_same hd.steps (List.mem_of_find?_eq_some h) hf hsame, path_of_unit? hunit]

/-! ## 3. What is wrong with the calls of a source file -/

/-- What is wrong with the calls in a source file that fill in format strings. -/
def formatCallsIn (p : Project) (u : CompilationUnit) : List Incident :=
  match p.file? u.path with
  | some file => u.calls.filterMap (Check.formatCallIncident? (Check.formatGroups p) file)
  | none => []

/-- The calls in a source file whose methods belong to the project. -/
def resolvedCallsIn (p : Project) (s : Sources) (u : CompilationUnit) :
    List Contract.ResolvedCall :=
  match p.file? u.path with
  | some file => u.calls.filterMap fun call =>
    (Contract.resolve? s u call).map fun (owner, method) =>
      { sources := s, unit := u, file, call, method, owner }
  | none => []

/-- What is wrong with the calls in a source file against the contracts of methods. -/
def contractCallsIn (p : Project) (s : Sources) (u : CompilationUnit) : List Incident :=
  (p.resolvedCallsIn s u).flatMap fun c =>
    Check.contractIncidentsOf (Check.grants p) (p.config.isTestSource c.unit.path) c

theorem formatIncidents_eq (p : Project) (s : Sources) :
    Check.formatIncidents p s =
      (Check.formatGroups p).flatMap (fun g => Check.definitionMismatches g.2) ++
        s.units.flatMap p.formatCallsIn := rfl

theorem contractIncidents_eq (p : Project) (s : Sources) :
    Check.contractIncidents p s = s.units.flatMap (p.contractCallsIn s) := by
  show (s.units.flatMap (p.resolvedCallsIn s)).flatMap _ = _
  rw [List.flatMap_assoc]
  rfl

/-- Resolved calls stand among the source files they were resolved in, in the file found for their
    unit. -/
theorem of_mem_resolvedCallsIn {p : Project} {s : Sources} {u : CompilationUnit}
    {c : Contract.ResolvedCall} (h : c ∈ p.resolvedCallsIn s u) :
    c.sources = s ∧ p.file? u.path = some c.file := by
  unfold resolvedCallsIn at h
  split at h
  · next file hfile =>
    obtain ⟨call, _, hc⟩ := List.mem_filterMap.mp h
    obtain ⟨means, _, rfl⟩ := Option.map_eq_some_iff.mp hc
    exact ⟨rfl, hfile⟩
  · cases h

namespace Distinct

variable {p : Project} (hd : p.Distinct) {u : CompilationUnit} (hu : u ∈ p.sources.units)

include hd hu

theorem file_of_formatCallsIn {i : Incident} (hi : i ∈ p.formatCallsIn u) :
    i.location.file = u.path := by
  unfold formatCallsIn at hi
  split at hi
  · next file hfile =>
    obtain ⟨call, _, hcall⟩ := List.mem_filterMap.mp hi
    rw [List.mem_singleton.mp (Check.in_formatCallIncident? hcall).2, hd.path_of_file? hu hfile]
  · cases hi

theorem file_of_contractCallsIn {i : Incident} (hi : i ∈ p.contractCallsIn p.sources u) :
    i.location.file = u.path := by
  obtain ⟨c, hc, hi⟩ := List.mem_flatMap.mp hi
  rw [List.mem_singleton.mp (Check.found_contracts _ _ c i hi).2,
    hd.path_of_file? hu (of_mem_resolvedCallsIn hc).2]

end Distinct

namespace Reordered

variable {p q : Project} (h : Reordered p q) (hd : p.Distinct)

include h hd

theorem formatCallsIn (u : CompilationUnit) : q.formatCallsIn u = p.formatCallsIn u := by
  unfold Project.formatCallsIn
  rw [h.file? hd, h.formatGroups]

/-- The calls of a source file mean the same methods. -/
theorem resolvedCallsIn (u : CompilationUnit) :
    q.resolvedCallsIn q.sources u = (p.resolvedCallsIn p.sources u).map (·.over q.sources) := by
  unfold Project.resolvedCallsIn
  rw [h.file? hd]
  split
  · simp only [List.map_filterMap, Option.map_map, Contract.resolve?_eq (h.agrees hd)]
    rfl
  · rfl

theorem contractCallsIn (u : CompilationUnit) :
    q.contractCallsIn q.sources u = p.contractCallsIn p.sources u := by
  unfold Project.contractCallsIn
  rw [h.resolvedCallsIn hd, List.flatMap_map, h.grants, h.config]
  refine List.flatMap_congr fun c hc => ?_
  have hagrees : c.sources.Agrees q.sources := (of_mem_resolvedCallsIn hc).1 ▸ h.agrees hd
  exact Contract.contractIncidentsOf_over hagrees _ _

/-- The manifest is looked at for the permissions of the same calls. -/
theorem needsManifest :
    Check.needsManifest q q.sources = Check.needsManifest p p.sources := by
  show (q.sources.units.flatMap (q.resolvedCallsIn q.sources)).any _ =
    (p.sources.units.flatMap (p.resolvedCallsIn p.sources)).any _
  rw [List.any_flatMap, List.any_flatMap, h.units.any_eq]
  congr 1
  funext u
  rw [h.resolvedCallsIn hd, List.any_map, Bool.eq_iff_iff, List.any_eq_true, List.any_eq_true]
  refine exists_congr fun c => and_congr_right fun hc => ?_
  have hagrees : c.sources.Agrees q.sources := (of_mem_resolvedCallsIn hc).1 ▸ h.agrees hd
  rw [Function.comp_apply, Contract.requirement?_over hagrees]

end Reordered

/-! ## 4. Findings and reports -/

/-- Incidents of source files that lie in those files have the same first one for every key in every
    order of the files: two files have no key in common. -/
theorem withKey?_flatMap_of_perm {us vs : List CompilationUnit} (hp : us.Perm vs)
    (hpaths : vs.Pairwise fun u v => u.path.display ≠ v.path.display)
    {f : CompilationUnit → List Incident} (hf : ∀ u ∈ vs, ∀ i ∈ f u, i.location.file = u.path)
    (k : SortKey) : Incident.withKey? k (us.flatMap f) = Incident.withKey? k (vs.flatMap f) := by
  unfold Incident.withKey?
  rw [List.find?_flatMap, List.find?_flatMap]
  refine (findSome?_eq_of_perm hp.symm (hpaths.imp_of_mem fun {u v} hu hv huv => ?_)).symm
  cases hi : (f u).find? (·.key = k) with
  | none => exact Or.inl rfl
  | some i =>
    cases hj : (f v).find? (·.key = k) with
    | none => exact Or.inr rfl
    | some j =>
      have hkey : i.key = j.key :=
        (Incident.key_of_withKey? hi).trans (Incident.key_of_withKey? hj).symm
      have hpath : i.location.file.display = j.location.file.display := congrArg SortKey.path hkey
      rw [hf u hu i (List.mem_of_find?_eq_some hi),
        hf v hv j (List.mem_of_find?_eq_some hj)] at hpath
      exact absurd hpath huv

/-- **For every key, the first finding is the same in both orders.** -/
theorem findings_reordered {p q : Project} (h : Reordered p q) (hd : p.Distinct) (k : SortKey) :
    Incident.withKey? k q.findings = Incident.withKey? k p.findings := by
  have hformats : Incident.withKey? k (q.sources.units.flatMap q.formatCallsIn) =
      Incident.withKey? k (p.sources.units.flatMap p.formatCallsIn) := by
    rw [funext (h.formatCallsIn hd)]
    exact withKey?_flatMap_of_perm h.units hd.units (fun u hu i => hd.file_of_formatCallsIn hu) k
  have hcontracts : Incident.withKey? k (q.sources.units.flatMap (q.contractCallsIn q.sources)) =
      Incident.withKey? k (p.sources.units.flatMap (p.contractCallsIn p.sources)) := by
    rw [funext (h.contractCallsIn hd)]
    exact withKey?_flatMap_of_perm h.units hd.units (fun u hu i => hd.file_of_contractCallsIn hu) k
  simp only [findings, Check.all, List.flatMap_cons, List.flatMap_nil, Check.incidents,
    formatIncidents_eq, contractIncidents_eq, Incident.withKey?_append, hformats, hcontracts,
    h.resourceIncidents, h.manifestIncidents, h.formatGroups]

/-- The checks read the same files as XML. -/
theorem Reordered.xmlFiles {p q : Project} (h : Reordered p q) (hd : p.Distinct) (c : Check) :
    c.xmlFiles q q.sources = c.xmlFiles p p.sources := by
  cases c with
  | resources => exact h.filesOf rfl
  | formats => exact h.filesOf rfl
  | manifests => exact h.filesOf rfl
  | contracts =>
    simp only [Check.xmlFiles, h.needsManifest hd, h.mainManifest?]

theorem Reordered.activeChecks {p q : Project} (h : Reordered p q) (s : Selection) :
    q.activeChecks s = p.activeChecks s := by
  unfold Project.activeChecks reportedSeverity
  rw [h.config]

/-- **The report does not depend on the order of the source files**, where no two files share a
    path, as a text or as steps, and no two classes share a qualified name. -/
theorem analyze_reordered (p : Project) (files : List File) (hfiles : files.Perm p.files)
    (hothers : (files.filter fun f => !f.kind.isSource) =
      p.files.filter fun f => !f.kind.isSource)
    (htexts : (p.files.map fun f => f.path.display).Nodup)
    (hsteps : p.files.Pairwise fun f g => f.path.same g.path = false)
    (hclasses : p.sources.qualifiedNames.Nodup) (s : Selection) :
    { p with files }.analyze s = p.analyze s ∧ { p with files }.analyze? s = p.analyze? s := by
  have h : Reordered p { p with files } := ⟨rfl, hfiles, hothers⟩
  have hd : p.Distinct := ⟨htexts, hsteps, hclasses⟩
  have hrun : { p with files }.analyze s = p.analyze s := by
    rw [analyze_eq_filterMap, analyze_eq_filterMap,
      Incident.report_congr fun k => findings_reordered h hd k]
    rfl
  refine ⟨hrun, ?_⟩
  unfold analyze?
  dsimp only
  rw [hrun, h.activeChecks s]
  simp only [h.xmlFiles hd]

/-! ## 5. Files with one path -/

/-- A class that drops the result of a method that is to be used. -/
def droppedResult : File := ⟨⟨"src/A.java"⟩, "class A{@CheckResult int f(){f();return 0;}}"⟩

/-- An empty class at a path. -/
def emptyClass (path : String) : File := ⟨⟨path⟩, "class B{}"⟩

theorem analyze_reordered_two_files :
    let p : Project := ⟨⟨""⟩, [droppedResult, emptyClass "src/B.java"], {}⟩
    let q : Project := ⟨⟨""⟩, [emptyClass "src/B.java", droppedResult], {}⟩
    q.analyze none = p.analyze none ∧ q.analyze? none = p.analyze? none ∧ p.analyze none ≠ [] := by
  intro p q
  have hrun := analyze_reordered p q.files (by decide +kernel) (by decide +kernel)
    (by decide +kernel) (by decide +kernel) (by decide +kernel) none
  refine ⟨hrun.1, hrun.2, fun hnil => ?_⟩
  have hfiles : (p.analyze none).map (·.location.file.text) = ["src/A.java"] := by decide +kernel
  rw [hnil] at hfiles
  cases hfiles

/-- **It is not enough that the texts of the paths differ.** The two files here are looked for by
    the same steps, and the problem in one of them is reported in whichever comes first. -/
theorem analyze_reordered_needs_steps :
    ¬ ∀ (p : Project) (files : List File), files.Perm p.files →
      ((files.filter fun f => !f.kind.isSource) = p.files.filter fun f => !f.kind.isSource) →
      (p.files.map fun f => f.path.display).Nodup → p.sources.qualifiedNames.Nodup →
      ∀ s, { p with files }.analyze s = p.analyze s := by
  intro h
  have hrun := h ⟨⟨""⟩, [droppedResult, emptyClass "src//A.java"], {}⟩
    [emptyClass "src//A.java", droppedResult] (by decide +kernel) (by decide +kernel)
    (by decide +kernel) (by decide +kernel) none
  have hfiles := congrArg (List.map (·.location.file.text)) hrun
  revert hfiles
  decide +kernel

end Project

end AndroidLint
