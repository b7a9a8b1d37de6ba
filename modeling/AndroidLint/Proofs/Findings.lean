/-
  File:      AndroidLint/Proofs/Findings.lean
  Subject:   What the checks report, and in which files.

  Every incident that a check finds is of one of the issues that the check is listed with, and it
  lies in a file of the project. The statement goes through the checks as they are built, from
  single incidents to whole projects:

  * `found_contracts`:  what is wrong with a call lies in the file of the call;
  * `found_incidents`:  what a check finds is of its issues, and lies in the project.
-/
import AndroidLint.Analysis

namespace AndroidLint

/-! ## 1. Incidents of given issues in given files -/

/-- The incident is of one of the issues and lies in one of the files. -/
def Incident.In (issues : List Issue) (files : List Path) (i : Incident) : Prop :=
  i.issue ∈ issues ∧ i.location.file ∈ files

/-- All incidents of a list are of the issues and lie in the files. -/
def Found (issues : List Issue) (files : List Path) (is : List Incident) : Prop :=
  ∀ i ∈ is, i.In issues files

section In
variable {issues issues' : List Issue} {files : List Path}

@[simp] theorem Incident.in_new (issue : Issue) (l : Location) (message : String) :
    (Incident.new issue l message).In issues files ↔ issue ∈ issues ∧ l.file ∈ files := Iff.rfl

@[simp] theorem Incident.in_relatedTo (i : Incident) (l : Location) :
    (i.relatedTo l).In issues files ↔ i.In issues files := Iff.rfl

@[simp] theorem Incident.in_fixedBy (i : Incident) (fix : Fix) :
    (i.fixedBy fix).In issues files ↔ i.In issues files := Iff.rfl

/-- An incident in one file, among more issues and files. -/
theorem Incident.In.widen {file : Path} {i : Incident} (h : i.In issues [file])
    (hi : issues ⊆ issues') (hf : file ∈ files) : i.In issues' files := by
  obtain ⟨hissue, hfile⟩ := h
  rw [List.mem_singleton] at hfile
  exact ⟨hi hissue, hfile ▸ hf⟩

@[simp] theorem Location.file_ofRange (file : Path) (contents : String) (range : ByteRange) :
    (Location.ofRange file contents range).file = file := rfl

end In

namespace Found

variable {issues issues' : List Issue} {files files' : List Path} {α : Type}

theorem mono {is : List Incident} (h : Found issues files is) (hi : issues ⊆ issues')
    (hf : files ⊆ files') : Found issues' files' is :=
  fun i hmem => ⟨hi (h i hmem).1, hf (h i hmem).2⟩

theorem nil : Found issues files [] := fun _ h => nomatch h

theorem append {is js : List Incident} (hi : Found issues files is)
    (hj : Found issues files js) : Found issues files (is ++ js) := by
  intro i h
  rcases List.mem_append.mp h with h | h
  · exact hi i h
  · exact hj i h

theorem toList {o : Option Incident} (h : ∀ i, o = some i → i.In issues files) :
    Found issues files o.toList :=
  fun i hi => h i (Option.mem_toList.mp hi)

theorem map {l : List α} {f : α → Incident} (h : ∀ a ∈ l, (f a).In issues files) :
    Found issues files (l.map f) := by
  intro i hi
  obtain ⟨a, ha, rfl⟩ := List.mem_map.mp hi
  exact h a ha

theorem filterMap {l : List α} {f : α → Option Incident}
    (h : ∀ a ∈ l, ∀ i, f a = some i → i.In issues files) : Found issues files (l.filterMap f) := by
  intro i hi
  obtain ⟨a, ha, hf⟩ := List.mem_filterMap.mp hi
  exact h a ha i hf

theorem flatMap {l : List α} {f : α → List Incident} (h : ∀ a ∈ l, Found issues files (f a)) :
    Found issues files (l.flatMap f) := by
  intro i hi
  obtain ⟨a, ha, hf⟩ := List.mem_flatMap.mp hi
  exact h a ha i hf

theorem widen {file : Path} {is : List Incident} (h : Found issues [file] is)
    (hi : issues ⊆ issues') (hf : file ∈ files) : Found issues' files is :=
  fun i hmem => (h i hmem).widen hi hf

end Found

/-! ## 2. Groups and repeats -/

namespace Grouping

variable {κ α : Type}

theorem mem_insert {compare : κ → κ → Ordering} {key : κ} {entry a : α}
    {gs : List (κ × List α)} {g : κ × List α} (hg : g ∈ insert compare key entry gs)
    (ha : a ∈ g.2) : a = entry ∨ ∃ g' ∈ gs, a ∈ g'.2 := by
  induction gs with
  | nil =>
    rw [insert, List.mem_singleton] at hg
    subst hg
    exact Or.inl (List.mem_singleton.mp ha)
  | cons k gs ih =>
    rw [insert] at hg
    split at hg
    · rcases List.mem_cons.mp hg with rfl | hg
      · exact Or.inl (List.mem_singleton.mp ha)
      · exact Or.inr ⟨g, hg, ha⟩
    · rcases List.mem_cons.mp hg with rfl | hg
      · rcases List.mem_append.mp ha with ha | ha
        · exact Or.inr ⟨k, List.mem_cons_self, ha⟩
        · exact Or.inl (List.mem_singleton.mp ha)
      · exact Or.inr ⟨g, List.mem_cons_of_mem _ hg, ha⟩
    · rcases List.mem_cons.mp hg with rfl | hg
      · exact Or.inr ⟨k, List.mem_cons_self, ha⟩
      · rcases ih hg with rfl | ⟨g', hg', ha'⟩
        · exact Or.inl rfl
        · exact Or.inr ⟨g', List.mem_cons_of_mem _ hg', ha'⟩

/-- The groups hold nothing but the entries. -/
theorem mem_of_mem_groups {compare : κ → κ → Ordering} {key : α → κ} {entries : List α}
    {g : κ × List α} (hg : g ∈ groups compare key entries) {a : α} (ha : a ∈ g.2) :
    a ∈ entries := by
  have hfold : ∀ (es : List α) (gs : List (κ × List α)),
      g ∈ es.foldl (fun gs e => insert compare (key e) e gs) gs →
        a ∈ es ∨ ∃ g' ∈ gs, a ∈ g'.2 := by
    intro es
    induction es with
    | nil => exact fun gs h => Or.inr ⟨g, h, ha⟩
    | cons e es ih =>
      intro gs h
      rcases ih _ h with hes | ⟨g', hg', ha'⟩
      · exact Or.inl (List.mem_cons_of_mem _ hes)
      · rcases mem_insert hg' ha' with rfl | hgs
        · exact Or.inl List.mem_cons_self
        · exact Or.inr hgs
  rcases hfold entries [] hg with h | ⟨_, h, _⟩
  · exact h
  · cases h

/-- An entry that is a repeat is one of the entries. -/
theorem mem_of_mem_repeats [BEq κ] {key : α → κ} {entries : List α} {r : α × α}
    (h : r ∈ repeats key entries) : r.2 ∈ entries := by
  have hfrom : ∀ (es seen : List α), r ∈ repeatsFrom key seen es → r.2 ∈ es := by
    intro es
    induction es with
    | nil => exact fun _ h => nomatch h
    | cons e es ih =>
      intro seen h
      rw [repeatsFrom] at h
      split at h
      · rcases List.mem_cons.mp h with rfl | h
        · exact List.mem_cons_self
        · exact List.mem_cons_of_mem _ (ih _ h)
      · exact List.mem_cons_of_mem _ (ih _ h)
  exact hfrom entries [] h

end Grouping

/-! ## 3. Files -/

theorem Path.same_iff {p q : Path} : p.same q = true ↔ p.components = q.components :=
  beq_iff_eq

/-- Where no two files have one path, a file is known by its path. -/
theorem File.eq_of_same {files : List File}
    (h : files.Pairwise fun f g => f.path.same g.path = false) {f g : File} (hf : f ∈ files)
    (hg : g ∈ files) (hsame : f.path.same g.path = true) : f = g := by
  have hback : g.path.same f.path = true := Path.same_iff.mpr (Path.same_iff.mp hsame).symm
  induction files with
  | nil => cases hf
  | cons k files ih =>
    obtain ⟨hk, hrest⟩ := List.pairwise_cons.mp h
    rcases List.mem_cons.mp hf with rfl | hf'
    · rcases List.mem_cons.mp hg with rfl | hg'
      · rfl
      · rw [hk g hg'] at hsame
        cases hsame
    · rcases List.mem_cons.mp hg with rfl | hg'
      · rw [hk f hf'] at hback
        cases hback
      · exact ih hrest hf' hg'

/-- The values files are files of the project. -/
theorem Project.mem_files_of_valuesFiles {p : Project} {v : File × List Resource.Definition}
    (h : v ∈ p.valuesFiles) : v.1.path ∈ p.files.map File.path := by
  obtain ⟨f, hf, hv⟩ := List.mem_filterMap.mp h
  obtain ⟨root, _, rfl⟩ := Option.map_eq_some_iff.mp hv
  exact List.mem_map_of_mem (List.mem_filter.mp hf).1

/-! ## 4. Values files -/

namespace Check

open Xml (Element)

theorem found_duplicates (p : Project) :
    Found [.duplicateDefinition] (p.files.map File.path) (duplicates p) := by
  refine Found.flatMap fun folder hfolder => Found.map fun r hr => ?_
  have hplaced := (List.mem_filter.mp (Grouping.mem_of_mem_repeats hr)).1
  -- the definition is one of a group of files, each of which is a values file
  obtain ⟨g, hg, rfl⟩ := List.mem_map.mp hfolder
  obtain ⟨placed, hin, hdef⟩ := List.mem_flatMap.mp hplaced
  obtain ⟨v, hv, hfile⟩ := List.mem_filterMap.mp (Grouping.mem_of_mem_groups hg hin)
  obtain ⟨path, _, rfl⟩ := Option.map_eq_some_iff.mp hfile
  obtain ⟨d, _, hd⟩ := List.mem_map.mp hdef
  refine ⟨List.mem_singleton_self _, ?_⟩
  show r.2.file.path ∈ _
  rw [← hd]
  exact p.mem_files_of_valuesFiles hv

theorem found_duplicateAttributes (file : File) (d : Resource.Definition) :
    Found [.duplicateDefinition] [file.path] (duplicateAttributes file d) := by
  unfold duplicateAttributes
  split
  · exact Found.map fun r _ => by simp
  · exact Found.nil

theorem in_wrongReference? {file : File} {allowed : List String} {e : Element} {i : Incident}
    (h : wrongReference? file allowed e = some i) : i.In [.referenceType] [file.path] := by
  unfold wrongReference? at h
  obtain ⟨type, _, h⟩ := Option.bind_eq_some_iff.mp h
  obtain ⟨expected, _, h⟩ := Option.bind_eq_some_iff.mp h
  split at h
  · cases h
  · cases h
    simp

theorem found_wrongReferences (file : File) (d : Resource.Definition) :
    Found [.referenceType] [file.path] (wrongReferences file d) := by
  unfold wrongReferences
  split
  · exact Found.filterMap fun _ _ _ => in_wrongReference?
  · exact Found.filterMap fun _ _ _ => in_wrongReference?
  · split
    · exact Found.toList fun _ => in_wrongReference?
    · exact Found.nil

theorem in_badEscape? {file : File} {e : Element} {i : Incident}
    (h : badEscape? file e = some i) : i.In [.stringEscaping] [file.path] := by
  unfold badEscape? at h
  dsimp only at h
  split at h
  · cases h
  · obtain ⟨⟨range, problem⟩, _, h⟩ := Option.bind_eq_some_iff.mp h
    cases problem <;> cases h <;> simp

theorem found_badEscapes (file : File) (d : Resource.Definition) :
    Found [.stringEscaping] [file.path] (badEscapes file d) := by
  unfold badEscapes
  split
  · exact Found.toList fun _ => in_badEscape?
  · exact Found.filterMap fun _ _ _ => in_badEscape?
  · exact Found.filterMap fun _ _ _ => in_badEscape?
  · exact Found.nil

theorem found_resources (p : Project) :
    Found (issues .resources) (p.files.map File.path) (resourceIncidents p) := by
  refine Found.append ?_ (Found.flatMap fun v hv => Found.flatMap fun d _ => ?_)
  · exact (found_duplicates p).mono (by simp [issues]) (List.Subset.refl _)
  · have hfile := p.mem_files_of_valuesFiles hv
    refine ((Found.append ?_ ?_).append ?_)
    · exact (found_duplicateAttributes v.1 d).widen (by simp [issues]) hfile
    · exact (found_wrongReferences v.1 d).widen (by simp [issues]) hfile
    · exact (found_badEscapes v.1 d).widen (by simp [issues]) hfile

/-! ## 5. Manifests -/

theorem found_lateElements (file : File) (root : Element) :
    Found [.manifestOrder] [file.path] (lateElements file root) :=
  Found.map fun e _ => by simp [elementLocation]

theorem in_misplaced? {file : File} {parent e : Element} {i : Incident}
    (h : misplaced? file parent e = some i) : i.In [.wrongManifestParent] [file.path] := by
  unfold misplaced? at h
  split at h
  · cases h
    simp [elementLocation]
  · split at h
    · cases h
      simp [elementLocation]
    · cases h

theorem found_misplacedElements (file : File) (root : Element) :
    Found [.wrongManifestParent] [file.path] (misplacedElements file root) :=
  Found.flatMap fun _ _ => Found.filterMap fun _ _ _ => in_misplaced?

theorem found_extraUsesSdk (file : File) (root : Element) :
    Found [.multipleUsesSdk] [file.path] (extraUsesSdk file root) := by
  unfold extraUsesSdk
  split
  · exact Found.nil
  · exact Found.map fun e _ => by simp [elementLocation]

theorem in_levelIncident? {file : File} {usesSdk : Element} {name missing : String}
    {fromGradle : Option PlacedValue} {i : Incident}
    (h : levelIncident? file usesSdk name fromGradle missing = some i) :
    i.In [.gradleOverrides, .usesMinSdkAttributes] [file.path] := by
  unfold levelIncident? at h
  split at h
  · cases h
    simp [attributeLocation]
  · cases h
    simp [tagLocation]
  · cases h

theorem found_sdkIncidents (gradle : Gradle) (file : File) (root : Element) :
    Found [.gradleOverrides, .usesMinSdkAttributes] [file.path]
      (sdkIncidents gradle file root) := by
  unfold sdkIncidents
  split
  · split
    · exact Found.nil
    · intro i hi
      rw [List.mem_singleton.mp hi]
      simp [tagLocation]
  · exact (Found.toList fun _ => in_levelIncident?).append (Found.toList fun _ => in_levelIncident?)

theorem found_repeatedActivities (file : File) (root application : Element) :
    Found [.duplicateActivity] [file.path] (repeatedActivities file root application) :=
  Found.map fun r _ => by simp [attributeLocation]

theorem found_repeatedFeatures (file : File) (root : Element) :
    Found [.duplicateUsesFeature] [file.path] (repeatedFeatures file root) :=
  Found.map fun r _ => by simp [attributeLocation]

theorem in_backupIncident? {file : File} {root application : Element} {i : Incident}
    (h : backupIncident? file root application = some i) : i.In [.allowBackup] [file.path] := by
  unfold backupIncident? at h
  split at h
  · cases h
  · cases h
    simp [tagLocation]

theorem in_iconIncident? {file : File} {application : Element} {i : Incident}
    (h : iconIncident? file application = some i) : i.In [.missingApplicationIcon] [file.path] := by
  unfold iconIncident? at h
  split at h
  · cases h
  · cases h
    simp [tagLocation]

theorem in_drawableIcon? {file : File} {e : Element} {i : Incident}
    (h : drawableIcon? file e = some i) : i.In [.mipmapIcons] [file.path] := by
  obtain ⟨icon, _, h⟩ := Option.bind_eq_some_iff.mp h
  obtain ⟨name, _, h⟩ := Option.bind_eq_some_iff.mp h
  cases h
  simp

theorem found_applicationIncidents (isLibrary : Bool) (file : File) (root : Element) :
    Found [.allowBackup, .missingApplicationIcon, .mipmapIcons] [file.path]
      (applicationIncidents isLibrary file root) := by
  unfold applicationIncidents
  split
  · exact Found.nil
  · refine Found.append ?_ ?_
    · split
      · exact Found.nil
      · refine Found.append ?_ ?_
        · exact (Found.toList fun _ => in_backupIncident?).widen (by simp) (by simp)
        · exact (Found.toList fun _ => in_iconIncident?).widen (by simp) (by simp)
    · exact (Found.filterMap fun _ _ _ => in_drawableIcon?).widen (by simp) (by simp)

theorem found_manifestFileIncidents (p : Project) (isMain : Bool) (file : File) (root : Element) :
    Found (issues .manifests) [file.path] (manifestFileIncidents p isMain file root) := by
  refine ((((((Found.append ?_ ?_).append ?_).append ?_).append ?_).append ?_).append ?_)
  · exact (found_lateElements file root).widen (by simp [issues]) (by simp)
  · exact (found_extraUsesSdk file root).widen (by simp [issues]) (by simp)
  · split
    · exact (found_sdkIncidents p.gradle file root).widen (by simp [issues]) (by simp)
    · exact Found.nil
  · exact (found_misplacedElements file root).widen (by simp [issues]) (by simp)
  · exact (Found.flatMap fun e _ => found_repeatedActivities file root e).widen (by simp [issues])
      (by simp)
  · exact (found_repeatedFeatures file root).widen (by simp [issues]) (by simp)
  · exact (found_applicationIncidents p.isLibrary file root).widen (by simp [issues]) (by simp)

theorem found_manifests (p : Project) :
    Found (issues .manifests) (p.files.map File.path) (manifestIncidents p) := by
  refine Found.flatMap fun file hfile => ?_
  have hmem : file.path ∈ p.files.map File.path :=
    List.mem_map_of_mem (List.mem_filter.mp hfile).1
  split
  · split
    · exact (found_manifestFileIncidents p _ file _).widen (List.Subset.refl _) hmem
    · exact Found.nil
  · exact Found.nil

/-! ## 6. Format strings -/

theorem file_contentLocation (s : FormatString) : s.contentLocation.file = s.file.path := rfl

theorem file_specifierLocation (s : FormatString) (spec : Format.Specifier) :
    (s.specifierLocation spec).file = s.file.path := by
  unfold FormatString.specifierLocation
  split <;> rfl

theorem in_invalidDirective? {s : FormatString} {i : Incident}
    (h : invalidDirective? s = some i) : i.In [.stringFormatInvalid] [s.file.path] := by
  unfold invalidDirective? at h
  split at h
  · cases h
    refine ⟨List.mem_singleton_self _, List.mem_singleton.mpr ?_⟩
    dsimp only [Incident.new]
    split
    · exact file_specifierLocation s _
    · exact file_contentLocation s
  · cases h

theorem in_countMismatch? {name : String} {strings : List FormatString} {i : Incident}
    (h : countMismatch? name strings = some i) :
    i.In [.stringFormatCount] (strings.map fun s => s.file.path) := by
  cases strings with
  | nil => cases h
  | cons first rest =>
    obtain ⟨other, hother, rfl⟩ := Option.map_eq_some_iff.mp h
    refine ⟨List.mem_singleton_self _, List.mem_map.mpr ⟨other, ?_, rfl⟩⟩
    exact List.mem_cons_of_mem _ (List.mem_of_find?_eq_some hother)

/-- A clash is between specifiers of the strings that are compared. -/
theorem mem_of_clashOn? {strings : List FormatString} {index : Nat}
    {c : PlacedSpecifier × PlacedSpecifier} (h : clashOn? strings index = some c) :
    c.2.1 ∈ strings := by
  unfold clashOn? at h
  split at h
  · cases h
  · next first rest hcons =>
    obtain ⟨other, hother, rfl⟩ := Option.map_eq_some_iff.mp h
    have hmem : other ∈ strings.filterMap fun s =>
        (s.specifier? index).map fun spec => (s, spec) := by
      rw [hcons]
      exact List.mem_cons_of_mem _ (List.mem_of_find?_eq_some hother)
    obtain ⟨s, hs, hspec⟩ := List.mem_filterMap.mp hmem
    obtain ⟨spec, _, rfl⟩ := Option.map_eq_some_iff.mp hspec
    exact hs

theorem in_typeMismatch? {name : String} {strings : List FormatString} {i : Incident}
    (h : typeMismatch? name strings = some i) :
    i.In [.stringFormatInvalid] (strings.map fun s => s.file.path) := by
  obtain ⟨index, _, h⟩ := List.exists_of_findSome?_eq_some h
  obtain ⟨c, hc, rfl⟩ := Option.map_eq_some_iff.mp h
  refine ⟨List.mem_singleton_self _, List.mem_map.mpr ⟨c.2.1, mem_of_clashOn? hc, ?_⟩⟩
  exact (file_specifierLocation c.2.1 c.2.2).symm

theorem found_definitionMismatches (strings : List FormatString) :
    Found [.stringFormatInvalid, .stringFormatCount] (strings.map fun s => s.file.path)
      (definitionMismatches strings) := by
  have hformats : (onlyFormats strings).map (fun s => s.file.path)
      ⊆ strings.map fun s => s.file.path := List.map_subset _ List.filter_sublist.subset
  refine (Found.append ?_ ?_).append ?_
  · refine Found.filterMap fun s hs i hi => ?_
    exact (in_invalidDirective? hi).widen (by simp) (List.mem_map_of_mem hs)
  · exact (Found.toList fun _ => in_countMismatch?).mono (by simp) hformats
  · exact (Found.toList fun _ => in_typeMismatch?).mono (by simp) hformats

/-- The format strings are those of values files. -/
theorem mem_files_of_formatGroups {p : Project} {g : FormatGroup} (hg : g ∈ formatGroups p)
    {s : FormatString} (hs : s ∈ g.2) : s.file.path ∈ p.files.map File.path := by
  have hmem := (List.mem_filter.mp (Grouping.mem_of_mem_groups hg hs)).1
  obtain ⟨v, hv, hs⟩ := List.mem_flatMap.mp hmem
  obtain ⟨d, _, rfl⟩ := List.mem_map.mp hs
  exact p.mem_files_of_valuesFiles hv

/-! ## 7. Calls that fill in format strings -/

theorem in_wrongCount? {l : Location} {supplied : List Source.Expr} {strings : List FormatString}
    {i : Incident} (h : wrongCount? l supplied strings = some i) :
    i.In [.stringFormatMatches] [l.file] := by
  obtain ⟨s, _, rfl⟩ := Option.map_eq_some_iff.mp h
  simp

theorem in_wrongType (l : Location) (s : FormatString) (index position : Nat)
    (spec : Format.Specifier) (type : String) :
    (wrongType l s index position spec type).In [.stringFormatMatches] [l.file] := by
  unfold wrongType
  split
  · simp
  · dsimp only
    split <;> simp

theorem in_wrongType? {l : Location} {first : Nat} {supplied : List Source.Expr}
    {strings : List FormatString} {i : Incident}
    (h : wrongType? l first supplied strings = some i) : i.In [.stringFormatMatches] [l.file] := by
  obtain ⟨s, _, e, _, type, _, spec, index, position, _, rfl⟩ := exists_of_wrongType? h
  exact in_wrongType l s index position spec type

theorem in_callMismatch? {l : Location} {first : Nat} {supplied : List Source.Expr}
    {strings : List FormatString} {i : Incident}
    (h : callMismatch? l first supplied strings = some i) :
    i.In [.stringFormatInvalid, .stringFormatMatches] [l.file] := by
  unfold callMismatch? at h
  split at h
  · split at h
    · cases h
      simp
    · cases h
  · cases h
  · split at h
    · cases h
    · rcases Option.or_eq_some_iff.mp h with h | ⟨_, h⟩
      · exact (in_wrongCount? h).widen (by simp) (by simp)
      · exact (in_wrongType? h).widen (by simp) (by simp)

/-- What is wrong with a call lies in the file of the call. -/
theorem in_formatCallIncident? {groups : List FormatGroup} {file : File} {c : Source.Call}
    {i : Incident} (h : formatCallIncident? groups file c = some i) :
    i.In [.stringFormatInvalid, .stringFormatMatches] [file.path] := by
  obtain ⟨filled, _, h⟩ := Option.bind_eq_some_iff.mp h
  obtain ⟨group, _, h⟩ := Option.bind_eq_some_iff.mp h
  exact in_callMismatch? h

/-- The file that is found for a path is one of the project. -/
theorem mem_files_of_file? {p : Project} {path : Path} {file : File}
    (h : p.file? path = some file) : file.path ∈ p.files.map File.path :=
  List.mem_map_of_mem (List.mem_of_find?_eq_some h)

theorem found_formats (p : Project) (sources : Source.Sources) :
    Found (issues .formats) (p.files.map File.path) (formatIncidents p sources) := by
  refine Found.append (Found.flatMap fun g hg => ?_) (Found.flatMap fun unit _ => ?_)
  · refine (found_definitionMismatches g.2).mono (by simp [issues]) fun path hpath => ?_
    obtain ⟨s, hs, rfl⟩ := List.mem_map.mp hpath
    exact mem_files_of_formatGroups hg hs
  · split
    · next file hfile =>
      have hcalls : Found [.stringFormatInvalid, .stringFormatMatches] [file.path]
          (unit.calls.filterMap (formatCallIncident? (formatGroups p) file)) :=
        Found.filterMap fun _ _ _ => in_formatCallIncident?
      exact hcalls.widen (by simp [issues]) (mem_files_of_file? hfile)
    · exact Found.nil

end Check

/-! ## 8. Calls against contracts -/

namespace Contract

theorem found_rangeIncidents (c : ResolvedCall) :
    Found [.range] [c.file.path] (rangeIncidents c) := by
  refine Found.filterMap fun a _ i h => ?_
  obtain ⟨message, _, rfl⟩ := Option.map_eq_some_iff.mp h
  simp [ResolvedCall.locate]

theorem found_constantIncidents (c : ResolvedCall) :
    Found [.wrongConstant] [c.file.path] (constantIncidents c) := by
  unfold constantIncidents
  split
  · refine Found.filterMap fun a _ i h => ?_
    obtain ⟨t, _, h⟩ := Option.bind_eq_some_iff.mp h
    obtain ⟨allowed, _, h⟩ := Option.bind_eq_some_iff.mp h
    split at h
    · cases h
    · cases h
      simp [ResolvedCall.locate]
  · exact Found.nil

theorem found_resourceTypeIncidents (c : ResolvedCall) :
    Found [.resourceType] [c.file.path] (resourceTypeIncidents c) := by
  refine Found.filterMap fun a _ i h => ?_
  obtain ⟨resource, _, h⟩ := Option.bind_eq_some_iff.mp h
  obtain ⟨message, _, h⟩ := Option.bind_eq_some_iff.mp h
  cases h
  simp [ResolvedCall.locate]

theorem found_permissionIncidents (g : Grants) (c : ResolvedCall) :
    Found [.missingPermission] [c.file.path] (permissionIncidents g c) :=
  Found.map fun _ _ => by simp [ResolvedCall.location, ResolvedCall.locate]

theorem in_threadIncident? {c : ResolvedCall} {i : Incident} (h : threadIncident? c = some i) :
    i.In [.wrongThread] [c.file.path] := by
  obtain ⟨caller, _, h⟩ := Option.bind_eq_some_iff.mp h
  obtain ⟨required, _, h⟩ := Option.bind_eq_some_iff.mp h
  obtain ⟨current, _, h⟩ := Option.bind_eq_some_iff.mp h
  split at h
  · cases h
  · cases h
    simp [ResolvedCall.location, ResolvedCall.locate]

theorem in_visibilityIncident? {isTest : Bool} {c : ResolvedCall} {i : Incident}
    (h : visibilityIncident? isTest c = some i) : i.In [.visibleForTests] [c.file.path] := by
  obtain ⟨a, _, h⟩ := Option.bind_eq_some_iff.mp h
  dsimp only at h
  split at h
  · cases h
  · obtain ⟨caller, _, h⟩ := Option.bind_eq_some_iff.mp h
    split at h
    · cases h
    · cases h
      simp [ResolvedCall.locate]

theorem in_resultIncident? {c : ResolvedCall} {i : Incident} (h : resultIncident? c = some i) :
    i.In [.checkResult] [c.file.path] := by
  unfold resultIncident? at h
  dsimp only at h
  split at h
  · cases h
  · obtain ⟨a, _, h⟩ := Option.bind_eq_some_iff.mp h
    cases h
    simp [ResolvedCall.location, ResolvedCall.locate]

end Contract

namespace Check

open Contract

/-- **What is wrong with a call lies in the file of the call.** -/
theorem found_contracts (g : Grants) (isTest : Bool) (c : ResolvedCall) :
    Found (issues .contracts) [c.file.path] (contractIncidentsOf g isTest c) := by
  refine ((((((Found.append ?_ ?_).append ?_).append ?_).append ?_).append ?_).append ?_)
  · exact (found_rangeIncidents c).widen (by simp [issues]) (by simp)
  · exact (found_constantIncidents c).widen (by simp [issues]) (by simp)
  · exact (found_resourceTypeIncidents c).widen (by simp [issues]) (by simp)
  · exact (found_permissionIncidents g c).widen (by simp [issues]) (by simp)
  · exact (Found.toList fun _ => in_threadIncident?).widen (by simp [issues]) (by simp)
  · exact (Found.toList fun _ => in_visibilityIncident?).widen (by simp [issues]) (by simp)
  · exact (Found.toList fun _ => in_resultIncident?).widen (by simp [issues]) (by simp)

/-- A resolved call stands in the file that is found for its unit. -/
theorem file?_of_mem_resolvedCalls {p : Project} {sources : Source.Sources} {c : ResolvedCall}
    (h : c ∈ resolvedCalls p sources) : p.file? c.unit.path = some c.file := by
  obtain ⟨unit, _, h⟩ := List.mem_flatMap.mp h
  split at h
  · next file hfile =>
    obtain ⟨call, _, h⟩ := List.mem_filterMap.mp h
    obtain ⟨means, _, rfl⟩ := Option.map_eq_some_iff.mp h
    exact hfile
  · cases h

/-! ## 9. All checks -/

/-- **What a check finds is of its issues and lies in a file of the project.** -/
theorem found_incidents (p : Project) (sources : Source.Sources) (c : Check) :
    Found c.issues (p.files.map File.path) (incidents p sources c) := by
  cases c with
  | resources => exact found_resources p
  | manifests => exact found_manifests p
  | formats => exact found_formats p sources
  | contracts =>
    refine Found.flatMap fun c hc => (found_contracts _ _ c).widen (List.Subset.refl _) ?_
    exact mem_files_of_file? (file?_of_mem_resolvedCalls hc)

end Check

end AndroidLint
