/-
  File:      AndroidLint/Proofs/DuplicateDefinitions.lean
  Subject:   Resources that are defined more than once are reported once for each time too many.

  Definitions clash when folder, type and field are the same (`ResourceKey`). The field does not tell
  which of `.`, `-`, `:` and `_` a name is written with. The folders are gone through one by one, and
  in each of them the definitions in the order of the files:

  * `fieldName_eq_iff`:                 which names give one field;
  * `filter_repeatsFrom`:               the repeats of one key are all its entries but the first;
  * `snd_of_mem_definitionsByFolder`:   a folder holds the definitions of its files, in their order;
  * `filter_repeatedDefinitions`:       the repeats of one resource in the whole project;
  * `duplicates_once`:                  what is reported, and that its number does not depend on the
                                        order of the files.
-/
import Mathlib.Data.List.Forall2
import Mathlib.Data.List.Perm.Basic
import AndroidLint.Proofs.Findings
import AndroidLint.Proofs.Groups
import AndroidLint.Proofs.XmlRanges

namespace AndroidLint

/-! ## 1. Repeats of one key -/

namespace Grouping

variable {κ α : Type} [BEq κ] [LawfulBEq κ]

/-- Each entry but the first, together with the first one. -/
def laterOnes : List α → List (α × α)
  | [] => []
  | first :: rest => rest.map fun e => (first, e)

theorem length_laterOnes (es : List α) : (laterOnes es).length = es.length - 1 := by
  cases es with
  | nil => rfl
  | cons first rest => exact List.length_map _

theorem map_snd_laterOnes (es : List α) : (laterOnes es).map Prod.snd = es.tail := by
  cases es with
  | nil => rfl
  | cons first rest =>
    rw [laterOnes, List.map_map]
    exact List.map_id rest

theorem head?_of_mem_laterOnes {es : List α} {r : α × α} (h : r ∈ laterOnes es) :
    es.head? = some r.1 := by
  cases es with
  | nil => cases h
  | cons first rest =>
    obtain ⟨e, _, rfl⟩ := List.mem_map.mp h
    rfl

theorem mem_of_mem_laterOnes {es : List α} {r : α × α} (h : r ∈ laterOnes es) :
    r.1 ∈ es ∧ r.2 ∈ es := by
  cases es with
  | nil => cases h
  | cons first rest =>
    obtain ⟨e, he, rfl⟩ := List.mem_map.mp h
    exact ⟨List.mem_cons_self, List.mem_cons_of_mem first he⟩

/-- **The repeats of one key are its entries but the first**, each together with the first. An entry
    that has been seen before counts as the first one. -/
theorem filter_repeatsFrom (key : α → κ) (k : κ) (seen es : List α) :
    (repeatsFrom key seen es).filter (fun r => key r.2 == k) =
      laterOnes ((seen.find? (key · == k)).toList ++ es.filter (key · == k)) := by
  induction es generalizing seen with
  | nil => cases seen.find? (key · == k) <;> rfl
  | cons e es ih =>
    rw [repeatsFrom]
    by_cases hk : key e = k
    · subst hk
      cases hseen : seen.find? (key · == key e) with
      | some first => simp [ih, hseen, laterOnes]
      | none => simp [ih, hseen, List.find?_append]
    · cases hseen : seen.find? (key · == key e) with
      | some first => simp [ih, hk]
      | none => simp [ih, hk, List.find?_append]

theorem filter_repeats (key : α → κ) (k : κ) (es : List α) :
    (repeats key es).filter (fun r => key r.2 == k) = laterOnes (es.filter (key · == k)) :=
  filter_repeatsFrom key k [] es

/-- What only the group of one key gives, all groups give, if there is such a group. -/
theorem flatMap_ite_of_pairwise {β γ : Type} [DecidableEq β] {f : α → β} {gs : List α} (b : β)
    (l : List γ) (h : gs.Pairwise fun g g' => f g ≠ f g') :
    (gs.flatMap fun g => if f g = b then l else []) = if ∃ g ∈ gs, f g = b then l else [] := by
  induction gs with
  | nil => simp
  | cons g gs ih =>
    obtain ⟨hg, hgs⟩ := List.pairwise_cons.mp h
    rw [List.flatMap_cons, ih hgs]
    by_cases hb : f g = b
    · have hnone : ¬ ∃ g' ∈ gs, f g' = b := fun ⟨g', hg', hb'⟩ => hg g' hg' (hb.trans hb'.symm)
      rw [if_pos hb, if_neg hnone, if_pos ⟨g, List.mem_cons_self, hb⟩, List.append_nil]
    · simp [hb]

end Grouping

/-! ## 2. Names of one field -/

namespace Resource

/-- The characters that the name of a field does not tell apart. -/
def separators : List Char := ['.', '-', ':', '_']

/-- Names that are the same up to their separators: each character of one is the character of the
    other at its place, or both are separators. -/
def SameUpToSeparators (a b : String) : Prop :=
  List.Forall₂ (fun c d => c = d ∨ c ∈ separators ∧ d ∈ separators) a.toList b.toList

instance (a b : String) : Decidable (SameUpToSeparators a b) :=
  inferInstanceAs (Decidable (List.Forall₂ _ _ _))

/-- **Two names give one field iff they are the same up to their separators.** -/
theorem fieldName_eq_iff {a b : String} : fieldName a = fieldName b ↔ SameUpToSeparators a b := by
  have hchar (c d : Char) :
      ((if c = '.' ∨ c = '-' ∨ c = ':' then '_' else c) =
        if d = '.' ∨ d = '-' ∨ d = ':' then '_' else d) ↔
      c = d ∨ c ∈ separators ∧ d ∈ separators := by
    simp only [separators, List.mem_cons, List.not_mem_nil, or_false]
    grind
  rw [fieldName, fieldName, String.ofList_inj, ← List.forall₂_eq_eq_eq, List.forall₂_map_left_iff,
    List.forall₂_map_right_iff, SameUpToSeparators]
  simp only [hchar]

end Resource

namespace Check

open Grouping

/-! ## 3. Definitions of one resource -/

/-- What definitions that clash have in common. -/
structure ResourceKey where
  folder : List Path.Component
  type : String
  field : String
  deriving DecidableEq

namespace PlacedDefinition

/-- The steps of the folder that the definition is in. -/
def folder? (d : PlacedDefinition) : Option (List Path.Component) :=
  d.file.resourceFolder?.map (·.components)

/-- What the definition has in common with those that it clashes with. -/
def key? (d : PlacedDefinition) : Option ResourceKey :=
  d.folder?.map fun folder => ⟨folder, d.definition.type, d.definition.field⟩

theorem key?_eq_some_iff {d : PlacedDefinition} {k : ResourceKey} :
    d.key? = some k ↔
      d.folder? = some k.folder ∧ (d.definition.type, d.definition.field) = (k.type, k.field) := by
  obtain ⟨folder, type, field⟩ := k
  simp [key?]

/-- **Definitions of one resource are in one folder, of one type, and named the same up to the
    separators.** -/
theorem exists_key?_iff {d e : PlacedDefinition} :
    (∃ k, d.key? = some k ∧ e.key? = some k) ↔
      (∃ folder, d.folder? = some folder ∧ e.folder? = some folder) ∧
        d.definition.type = e.definition.type ∧
        Resource.SameUpToSeparators d.definition.name e.definition.name := by
  rw [← Resource.fieldName_eq_iff]
  constructor
  · rintro ⟨k, hd, he⟩
    obtain ⟨hfolder, hown⟩ := key?_eq_some_iff.mp hd
    obtain ⟨hfolder', hown'⟩ := key?_eq_some_iff.mp he
    exact ⟨⟨k.folder, hfolder, hfolder'⟩, Prod.mk.inj (hown.trans hown'.symm)⟩
  · rintro ⟨⟨folder, hd, he⟩, htype, hfield⟩
    exact ⟨⟨folder, d.definition.type, d.definition.field⟩, key?_eq_some_iff.mpr ⟨hd, rfl⟩,
      key?_eq_some_iff.mpr ⟨he, Prod.ext htype.symm hfield.symm⟩⟩

end PlacedDefinition

/-- All definitions of the values files, in the order of the files. -/
def placedDefinitions (p : Project) : List PlacedDefinition :=
  p.valuesFiles.flatMap fun v => v.2.map (PlacedDefinition.mk v.1)

/-- The definitions of one resource, in the order of the files. -/
def definitionsOf (p : Project) (k : ResourceKey) : List PlacedDefinition :=
  (placedDefinitions p).filter (·.key? = some k)

/-! ## 4. Folders -/

/-- The folders of a project are different. -/
theorem pairwise_definitionsByFolder (p : Project) :
    (definitionsByFolder p).Pairwise fun g h => g.1.components ≠ h.1.components := by
  refine List.pairwise_map.mpr ((sorted_groups _).imp fun {g h} hlt heq => ?_)
  have hlt : g.1.compare h.1 = .lt := hlt
  rw [Path.compare_eq_iff.mpr heq] at hlt
  cases hlt

/-- The definitions of one file are all in its folder. -/
theorem filter_folder?_map (file : File) (ds : List Resource.Definition)
    (steps : List Path.Component) :
    (ds.map (PlacedDefinition.mk file)).filter (·.folder? = some steps) =
      if file.resourceFolder?.map (·.components) = some steps
      then ds.map (PlacedDefinition.mk file) else [] := by
  split
  · next hfolder =>
    refine List.filter_eq_self.mpr fun d hd => ?_
    obtain ⟨_, _, rfl⟩ := List.mem_map.mp hd
    exact decide_eq_true hfolder
  · next hfolder =>
    refine List.filter_eq_nil_iff.mpr fun d hd hin => ?_
    obtain ⟨_, _, rfl⟩ := List.mem_map.mp hd
    exact hfolder (of_decide_eq_true hin)

/-- **A folder holds the definitions of its files**, in their order. -/
theorem snd_of_mem_definitionsByFolder {p : Project} {g : Path × List PlacedDefinition}
    (hg : g ∈ definitionsByFolder p) :
    g.2 = (placedDefinitions p).filter (·.folder? = some g.1.components) := by
  obtain ⟨⟨folder, files⟩, hmem, rfl⟩ := List.mem_map.mp hg
  have hfiles := snd_of_mem_groups hmem
  simp only at hfiles
  rw [hfiles, placedDefinitions]
  clear hfiles hmem hg
  induction p.valuesFiles with
  | nil => rfl
  | cons v vs ih =>
    rw [List.flatMap_cons, List.filter_append, ← ih, filter_folder?_map, List.filterMap_cons]
    cases hfolder : v.1.resourceFolder? with
    | none => simp
    | some here =>
      by_cases hsame : here.components = folder.components
      · simp [hsame, Path.compare_eq_iff.mpr hsame]
      · have hother : here.compare folder ≠ .eq := fun h => hsame (Path.compare_eq_iff.mp h)
        simp [hsame, hother]

/-- Each definition in a folder is among the definitions of that folder. -/
theorem exists_folder {p : Project} {d : PlacedDefinition} {steps : List Path.Component}
    (hd : d ∈ placedDefinitions p) (hsteps : d.folder? = some steps) :
    ∃ g ∈ definitionsByFolder p, g.1.components = steps := by
  obtain ⟨v, hv, hdv⟩ := List.mem_flatMap.mp hd
  obtain ⟨_, _, rfl⟩ := List.mem_map.mp hdv
  obtain ⟨folder, hfolder, rfl⟩ := Option.map_eq_some_iff.mp hsteps
  have hplaced : (folder, v.2.map (PlacedDefinition.mk v.1)) ∈ p.valuesFiles.filterMap fun v =>
      v.1.resourceFolder?.map fun folder => (folder, v.2.map (PlacedDefinition.mk v.1)) :=
    List.mem_filterMap.mpr ⟨v, hv, by rw [show v.1.resourceFolder? = some folder from hfolder]; rfl⟩
  have hgroup {e : Path × List PlacedDefinition} {placed : List _} (he : e ∈ placed) :
      ∃ g ∈ groups Path.compare Prod.fst placed, e.1.compare g.1 = .eq := exists_group he
  obtain ⟨g, hg, hsame⟩ := hgroup hplaced
  exact ⟨_, List.mem_map_of_mem hg, (Path.compare_eq_iff.mp hsame).symm⟩

/-! ## 5. Repeats of one resource -/

/-- Each definition that repeats one before it in its folder, together with the first of them. -/
def repeatedDefinitions (p : Project) : List (PlacedDefinition × PlacedDefinition) :=
  (definitionsByFolder p).flatMap fun g =>
    repeats (fun d => (d.definition.type, d.definition.field))
      (g.2.filter (·.definition.type != "id"))

theorem duplicates_eq_map (p : Project) :
    duplicates p = (repeatedDefinitions p).map fun r => duplicate r.1 r.2 := by
  rw [duplicates, repeatedDefinitions, List.map_flatMap]
  rfl

/-- The repeats of one resource inside a folder. -/
theorem filter_repeats_folder {p : Project} {g : Path × List PlacedDefinition}
    (hg : g ∈ definitionsByFolder p) {k : ResourceKey} (hk : k.type ≠ "id") :
    (repeats (fun d => (d.definition.type, d.definition.field))
      (g.2.filter (·.definition.type != "id"))).filter (·.2.key? = some k) =
      if g.1.components = k.folder then laterOnes (definitionsOf p k) else [] := by
  have hin : ∀ d ∈ g.2, d.folder? = some g.1.components := by
    intro d hd
    rw [snd_of_mem_definitionsByFolder hg] at hd
    exact of_decide_eq_true (List.mem_filter.mp hd).2
  split
  · next hfolder =>
    -- inside the folder the key is told by type and field
    have hcongr : ∀ r ∈ repeats (fun d => (d.definition.type, d.definition.field))
        (g.2.filter (·.definition.type != "id")),
        decide (r.2.key? = some k) =
          ((r.2.definition.type, r.2.definition.field) == (k.type, k.field)) := by
      intro r hr
      have hr := hin r.2 (List.mem_of_mem_filter (mem_of_mem_repeats hr))
      rw [Bool.eq_iff_iff, decide_eq_true_iff, beq_iff_eq, PlacedDefinition.key?_eq_some_iff]
      exact and_iff_right (hfolder ▸ hr)
    rw [List.filter_congr hcongr,
      filter_repeats (fun d : PlacedDefinition => (d.definition.type, d.definition.field))
        (k.type, k.field), definitionsOf, List.filter_filter,
      snd_of_mem_definitionsByFolder hg, List.filter_filter]
    refine congrArg laterOnes (List.filter_congr fun d _ => ?_)
    rw [Bool.eq_iff_iff, decide_eq_true_iff, PlacedDefinition.key?_eq_some_iff, hfolder]
    simp only [Bool.and_eq_true, bne_iff_ne, beq_iff_eq, decide_eq_true_iff, Prod.mk.injEq]
    grind
  · next hfolder =>
    refine List.filter_eq_nil_iff.mpr fun r hr hkey => ?_
    have hr := hin r.2 (List.mem_of_mem_filter (mem_of_mem_repeats hr))
    have hother := (PlacedDefinition.key?_eq_some_iff.mp (of_decide_eq_true hkey)).1
    exact hfolder (Option.some.inj (hr.symm.trans hother))

/-- **The repeats of one resource in the project are its definitions but the first**, each together
    with the first. -/
theorem filter_repeatedDefinitions (p : Project) {k : ResourceKey} (hk : k.type ≠ "id") :
    (repeatedDefinitions p).filter (·.2.key? = some k) = laterOnes (definitionsOf p k) := by
  have hfolders : (repeatedDefinitions p).filter (·.2.key? = some k) =
      (definitionsByFolder p).flatMap fun g =>
        if g.1.components = k.folder then laterOnes (definitionsOf p k) else [] := by
    rw [repeatedDefinitions, List.filter_flatMap]
    exact List.flatMap_congr fun g hg => filter_repeats_folder hg hk
  rw [hfolders, flatMap_ite_of_pairwise _ _ (pairwise_definitionsByFolder p)]
  refine ite_eq_left_iff.mpr fun hnone => ?_
  -- a definition of the resource would have a folder
  have hempty : definitionsOf p k = [] := by
    refine List.filter_eq_nil_iff.mpr fun d hd hkey => hnone ?_
    exact exists_folder hd (PlacedDefinition.key?_eq_some_iff.mp (of_decide_eq_true hkey)).1
  rw [hempty]
  rfl

theorem key?_of_mem_repeatedDefinitions {p : Project} {r : PlacedDefinition × PlacedDefinition}
    (hr : r ∈ repeatedDefinitions p) :
    ∃ k : ResourceKey, r.2.key? = some k ∧ k.type ≠ "id" := by
  obtain ⟨g, hg, hr⟩ := List.mem_flatMap.mp hr
  obtain ⟨hmem, htype⟩ := List.mem_filter.mp (mem_of_mem_repeats hr)
  rw [snd_of_mem_definitionsByFolder hg] at hmem
  have hfolder := of_decide_eq_true (List.mem_filter.mp hmem).2
  exact ⟨⟨g.1.components, r.2.definition.type, r.2.definition.field⟩,
    PlacedDefinition.key?_eq_some_iff.mpr ⟨hfolder, rfl⟩, bne_iff_ne.mp htype⟩

theorem mem_laterOnes_definitionsOf {p : Project} {r : PlacedDefinition × PlacedDefinition}
    (hr : r ∈ repeatedDefinitions p) {k : ResourceKey} (hkey : r.2.key? = some k)
    (hk : k.type ≠ "id") : r ∈ laterOnes (definitionsOf p k) := by
  rw [← filter_repeatedDefinitions p hk]
  exact List.mem_filter.mpr ⟨hr, decide_eq_true hkey⟩

/-! ## 6. The order of the files -/

theorem perm_definitionsOf {p q : Project} (h : p.files.Perm q.files) (k : ResourceKey) :
    (definitionsOf p k).Perm (definitionsOf q k) := by
  have hvalues : p.valuesFiles.Perm q.valuesFiles := (h.filter _).filterMap _
  exact (hvalues.flatMap_right _).filter _

/-- A resource is repeated once less often than it is defined. -/
theorem count_key?_repeatedDefinitions (p : Project) {k : ResourceKey} (hk : k.type ≠ "id") :
    ((repeatedDefinitions p).map (·.2.key?)).count (some k) = (definitionsOf p k).length - 1 := by
  rw [← length_laterOnes, ← filter_repeatedDefinitions p hk, ← List.countP_eq_length_filter,
    List.count, List.countP_map]
  refine List.countP_congr fun r _ => ?_
  simp

/-- How often something is defined too many times does not depend on the order of the files. -/
theorem length_duplicates_of_perm {p q : Project} (h : p.files.Perm q.files) :
    (duplicates p).length = (duplicates q).length := by
  have hkeys : ((repeatedDefinitions p).map (·.2.key?)).Perm
      ((repeatedDefinitions q).map (·.2.key?)) := by
    refine List.perm_iff_count.mpr fun key? => ?_
    by_cases hkey : ∃ k, key? = some k ∧ k.type ≠ "id"
    · obtain ⟨k, rfl, hk⟩ := hkey
      rw [count_key?_repeatedDefinitions p hk, count_key?_repeatedDefinitions q hk,
        (perm_definitionsOf h k).length_eq]
    · have hzero : ∀ p', ((repeatedDefinitions p').map (·.2.key?)).count key? = 0 := by
        intro p'
        refine List.count_eq_zero.mpr fun hmem => hkey ?_
        obtain ⟨r, hr, rfl⟩ := List.mem_map.mp hmem
        exact key?_of_mem_repeatedDefinitions hr
      rw [hzero p, hzero q]
  have hlength := hkeys.length_eq
  rw [List.length_map, List.length_map] at hlength
  rw [duplicates_eq_map, duplicates_eq_map, List.length_map, List.length_map, hlength]

/-! ## 7. What is reported -/

/-- The definition is named by an attribute of its element, and that is where its name stands. -/
def PlacedDefinition.IsNamed (d : PlacedDefinition) : Prop :=
  ∃ a, d.definition.element.attribute? "name" = some a ∧ a.value = d.definition.name ∧
    d.location = .ofRange d.file.path d.file.contents a.range

/-- What an incident says of a definition that repeats a first one: it stands at the name of the
    definition, points to the name of the first one, and tells how that is written when it is
    written otherwise. -/
structure ReportsRepeat (first second : PlacedDefinition) (i : Incident) : Prop where
  issue : i.issue = .duplicateDefinition
  location : i.location = second.location
  related : i.related = [first.location.saying "Previously defined here"]
  sameSpelling : first.definition.name = second.definition.name →
    i.message = s!"`{second.definition.name}` has already been defined in this folder"
  otherSpelling : first.definition.name ≠ second.definition.name →
    i.message = s!"`{second.definition.name}` has already been defined in this folder" ++
      s!" as `{first.definition.name}`"

theorem reportsRepeat_duplicate (first second : PlacedDefinition) :
    ReportsRepeat first second (duplicate first second) where
  issue := rfl
  location := rfl
  related := rfl
  sameSpelling h := by
    show _ ++ (if _ then _ else _) = _
    rw [if_pos h, String.append_empty]
  otherSpelling h := by
    show _ ++ (if _ then _ else _) = _
    rw [if_neg h]

theorem isNamed_of_mem {p : Project} {d : PlacedDefinition} (hd : d ∈ placedDefinitions p) :
    d.IsNamed := by
  obtain ⟨v, hv, hdv⟩ := List.mem_flatMap.mp hd
  obtain ⟨definition, hmem, rfl⟩ := List.mem_map.mp hdv
  obtain ⟨file, _, hv⟩ := List.mem_filterMap.mp hv
  obtain ⟨root, _, rfl⟩ := Option.map_eq_some_iff.mp hv
  have hmem : definition ∈ Resource.definitions root := hmem
  unfold Resource.definitions at hmem
  split at hmem
  · obtain ⟨e, _, he⟩ := List.mem_filterMap.mp hmem
    unfold Resource.Definition.ofElement? at he
    obtain ⟨type, _, he⟩ := Option.bind_eq_some_iff.mp he
    obtain ⟨a, ha, he⟩ := Option.bind_eq_some_iff.mp he
    cases he
    exact ⟨a, ha, rfl, rfl⟩
  · cases hmem

/-- **Each definition of a resource but the first is reported once.** Definitions are of one resource
    when folder and type are the same and the names are the same up to `.`, `-`, `:` and `_`, and
    ids are left out. For each resource, the incidents are those of its first definition with each
    later one, in the order of the files, so there is one less of them than there are definitions; and
    the number of all incidents is the same in any order of the files. -/
theorem duplicates_once (p : Project) :
    (∀ d e : PlacedDefinition, (∃ k, d.key? = some k ∧ e.key? = some k) ↔
      (∃ folder, d.folder? = some folder ∧ e.folder? = some folder) ∧
        d.definition.type = e.definition.type ∧
        Resource.SameUpToSeparators d.definition.name e.definition.name) ∧
    (∃ pairs : List (PlacedDefinition × PlacedDefinition),
      List.Forall₂ (fun r i => ReportsRepeat r.1 r.2 i) pairs (duplicates p) ∧
      (∀ r ∈ pairs, r.1.IsNamed ∧ r.2.IsNamed ∧
        ∃ k : ResourceKey, r.1.key? = some k ∧ r.2.key? = some k ∧ k.type ≠ "id") ∧
      ∀ k : ResourceKey, k.type ≠ "id" →
        (pairs.filter (·.2.key? = some k)).map Prod.snd = (definitionsOf p k).tail ∧
        (pairs.filter (·.2.key? = some k)).length = (definitionsOf p k).length - 1 ∧
        ∀ r ∈ pairs, r.2.key? = some k → (definitionsOf p k).head? = some r.1) ∧
    ∀ q : Project, q.files.Perm p.files → (duplicates q).length = (duplicates p).length := by
  refine ⟨fun _ _ => PlacedDefinition.exists_key?_iff,
    ⟨repeatedDefinitions p, ?_, fun r hr => ?_, fun k hk => ⟨?_, ?_, fun r hr hkey => ?_⟩⟩,
    fun q hq => length_duplicates_of_perm hq⟩
  · rw [duplicates_eq_map]
    exact List.forall₂_map_right_iff.mpr
      (List.forall₂_same.mpr fun r _ => reportsRepeat_duplicate r.1 r.2)
  · obtain ⟨k, hkey, hk⟩ := key?_of_mem_repeatedDefinitions hr
    obtain ⟨hfirst, hlater⟩ := mem_of_mem_laterOnes (mem_laterOnes_definitionsOf hr hkey hk)
    obtain ⟨hfirst, hfirstKey⟩ := List.mem_filter.mp hfirst
    exact ⟨isNamed_of_mem hfirst, isNamed_of_mem (List.mem_of_mem_filter hlater), k,
      of_decide_eq_true hfirstKey, hkey, hk⟩
  · rw [filter_repeatedDefinitions p hk, map_snd_laterOnes]
  · rw [filter_repeatedDefinitions p hk, length_laterOnes]
  · exact head?_of_mem_laterOnes (mem_laterOnes_definitionsOf hr hkey hk)

/-- A string whose name is written with a point. -/
def pointFile : File where
  path := ⟨"res/values/a.xml"⟩
  contents := "<resources><string name='app.name'/></resources>"

/-- The string with an underscore in its name. -/
def underscoreFile : File where
  path := ⟨"res/values/b.xml"⟩
  contents := "<resources><string name='app_name'/></resources>"

/-- One string in two spellings, in two files of one folder. -/
def spelledProject : Project := ⟨⟨"."⟩, [pointFile, underscoreFile], {}⟩

theorem duplicates_once_spelledProject :
    ∃ first second : PlacedDefinition, placedDefinitions spelledProject = [first, second] ∧
      first.file = pointFile ∧ first.definition.name = "app.name" ∧
      second.file = underscoreFile ∧ second.definition.name = "app_name" ∧
      (∃ i ∈ duplicates spelledProject, i.location = second.location ∧
        i.related = [first.location.saying "Previously defined here"] ∧
        i.message = "`app_name` has already been defined in this folder as `app.name`") ∧
      (duplicates { spelledProject with files := [underscoreFile, pointFile] }).length =
        (duplicates spelledProject).length := by
  obtain ⟨hclash, ⟨pairs, hreports, _, hkeys⟩, hperm⟩ := duplicates_once spelledProject
  have hpoint : ∃ root, Xml.parse pointFile.contents.toList = .ok root ∧
      (Resource.definitions root).map (fun d => (d.type, d.name)) = [("string", "app.name")] :=
    Xml.exists_root_of_chars String.toList_ofList (by decide +kernel)
  have hunderscore : ∃ root, Xml.parse underscoreFile.contents.toList = .ok root ∧
      (Resource.definitions root).map (fun d => (d.type, d.name)) = [("string", "app_name")] :=
    Xml.exists_root_of_chars String.toList_ofList (by decide +kernel)
  obtain ⟨root, hroot, hnames⟩ := hpoint
  obtain ⟨root', hroot', hnames'⟩ := hunderscore
  obtain ⟨d, hd, hown⟩ := List.map_eq_singleton_iff.mp hnames
  obtain ⟨e, he, hown'⟩ := List.map_eq_singleton_iff.mp hnames'
  obtain ⟨htype, hname⟩ := Prod.mk.inj hown
  obtain ⟨htype', hname'⟩ := Prod.mk.inj hown'
  have hkinds : spelledProject.filesOf .values = [pointFile, underscoreFile] := by decide +kernel
  have hplaced : placedDefinitions spelledProject = [⟨pointFile, d⟩, ⟨underscoreFile, e⟩] := by
    simp [placedDefinitions, Project.valuesFiles, hkinds, File.rootElement?_of_parse hroot,
      File.rootElement?_of_parse hroot', hd, he]
  have hfolders : pointFile.resourceFolder?.map (·.components) =
      underscoreFile.resourceFolder?.map (·.components) ∧
      (pointFile.resourceFolder?.map (·.components)).isSome := by decide +kernel
  obtain ⟨folder, hfolder⟩ := Option.isSome_iff_exists.mp hfolders.2
  have hsame : Resource.SameUpToSeparators "app.name" "app_name" := by decide
  obtain ⟨k, hkey, hkey'⟩ := (hclash ⟨pointFile, d⟩ ⟨underscoreFile, e⟩).mpr
    ⟨⟨folder, hfolder, hfolders.1.symm.trans hfolder⟩, htype.trans htype'.symm,
      by rwa [hname, hname']⟩
  have hdefinitions : definitionsOf spelledProject k = [⟨pointFile, d⟩, ⟨underscoreFile, e⟩] := by
    simp [definitionsOf, hplaced, hkey, hkey']
  have hstring : k.type = "string" :=
    (Prod.mk.inj (PlacedDefinition.key?_eq_some_iff.mp hkey).2).1.symm.trans htype
  obtain ⟨htail, _, hhead⟩ := hkeys k (hstring ▸ by decide)
  rw [hdefinitions] at htail hhead
  obtain ⟨⟨first, second⟩, hpairs, rfl⟩ := List.map_eq_singleton_iff.mp htail
  have hpair := List.mem_of_mem_filter (hpairs ▸ List.mem_singleton_self _)
  cases Option.some.inj (hhead _ hpair hkey')
  obtain ⟨n, hn, hget⟩ := List.mem_iff_getElem.mp hpair
  have hreport := hreports.get hn (hreports.length_eq ▸ hn)
  rw [List.get_eq_getElem, hget] at hreport
  have hother : d.name ≠ e.name := by
    rw [hname, hname']
    decide
  have hmessage := hreport.otherSpelling hother
  rw [hname, hname'] at hmessage
  exact ⟨_, _, hplaced, rfl, hname, rfl, hname', ⟨_, List.get_mem _ _, hreport.location,
    hreport.related, hmessage⟩, hperm _ (List.Perm.swap _ _ _)⟩

end Check

end AndroidLint
