/-
  File:      AndroidLint/Proofs/FixRuns.lean
  Subject:   What a run over the corrections of a project leaves on the disk.

  A run takes one choice of each correction, puts the edits of all of them together by file, leaves
  out those that overlap, and writes file after file. What a choice was is lost on the way, and so is
  the count of those that are made:

  * `Disk.write_text`:       a file that can be read can be written, and nothing else changes;
  * `editFiles_text`:        a run edits each file as if it were the only one;
  * `inEffect_madeEdits`:    the edits that are made are in effect on the disk;
  * `appliedWhole_iff`:      choices are applied as a whole exactly if no edit is left out;
  * `apply_inEffect`:        what is left out clashes with what is made, but is counted;
  * `apply_cut_apart`:       a correction of which one edit is made and one is not.
-/
import Mathlib.Data.List.Pairwise
import Mathlib.Data.List.Perm.Subperm
import AndroidLint.Fix.Apply
import AndroidLint.Proofs.Edits
import AndroidLint.Proofs.Findings
import AndroidLint.Proofs.Groups

namespace AndroidLint

/-! ## 1. Writing a file that is there -/

namespace Disk

/-- Whatever is on the disk lies in a folder. -/
def IsTree (d : Disk) : Prop :=
  ∀ place e, d.get? place = some e → d.get? place.dropLast = some .folder

/-- The disk `d'` is `d` with `s` written over the file at a path. -/
structure Overwritten (d d' : Disk) (path : Path) (s : String) : Prop where
  tree : d'.IsTree
  places : ∀ q, d'.locate q = d.locate q
  there : ∀ q, d.locate q = d.locate path → d'.text q = .ok s
  elsewhere : ∀ q, d.locate q ≠ d.locate path → d'.text q = d.text q

/-- A text is read from a place that holds it. -/
theorem text_eq_ok {d : Disk} {path : Path} {s : String} :
    d.text path = .ok s ↔
      ∃ place, d.locate path = .ok place ∧ d.get? place = some (.file (.text s)) := by
  unfold text contents
  cases d.locate path with
  | error e => simp [bind, Except.bind]
  | ok place =>
    cases hget : d.get? place with
    | none => simp [bind, Except.bind, hget]
    | some e =>
      cases e with
      | folder => simp [bind, Except.bind, hget]
      | file c => cases c <;> simp [bind, Except.bind, hget]

section Overwriting

variable {d : Disk} {place : Place} {old : Contents}

theorem place_ne_nil (hold : d.get? place = some (.file old)) : place ≠ [] := by
  rintro rfl
  cases hold

/-- A file in place of a file leads all paths where they led. -/
theorem locate_set (hold : d.get? place = some (.file old)) (c : Contents) (q : Path) :
    (d.set place (.file c)).locate q = d.locate q := by
  have hstep : (d.set place (.file c)).step = d.step := by
    funext other c'
    unfold step
    rw [get?_set d place other _ (place_ne_nil hold)]
    by_cases h : other = place
    · rw [if_pos h, h, hold]
    · rw [if_neg h]
  unfold locate
  rw [hstep]
  rfl

theorem isTree_set (htree : d.IsTree) (hold : d.get? place = some (.file old)) (c : Contents) :
    (d.set place (.file c)).IsTree := by
  have hget := get?_set d place (e := .file c) (h := place_ne_nil hold)
  -- a folder is not where the file is
  have hfolder : ∀ q, d.get? q = some .folder → (d.set place (.file c)).get? q = some .folder := by
    intro q hq
    rw [hget, if_neg, hq]
    rintro rfl
    rw [hold] at hq
    cases hq
  intro q e hq
  rw [hget] at hq
  split at hq
  · next hplace =>
    rw [hplace]
    exact hfolder _ (htree place _ hold)
  · exact hfolder _ (htree q e hq)

/-- **A file that can be read can be written, and nothing else changes.** -/
theorem write_text {path : Path} {s : String} (htree : d.IsTree) (htext : d.text path = .ok s)
    (s' : String) : ∃ d', d.write path (.text s') = .ok d' ∧ Overwritten d d' path s' := by
  obtain ⟨place, hplace, hold⟩ := text_eq_ok.mp htext
  have hget := get?_set d place (e := .file (.text s')) (h := place_ne_nil hold)
  refine ⟨d.set place (.file (.text s')), ?_, isTree_set htree hold _, locate_set hold _, ?_, ?_⟩
  · unfold write
    simp only [hplace, bind, Except.bind, htree place _ hold, hold]
  · intro q hq
    refine text_eq_ok.mpr ⟨place, ?_, ?_⟩
    · rw [locate_set hold, hq, hplace]
    · rw [hget, if_pos rfl]
  · intro q hq
    unfold text contents
    rw [locate_set hold]
    cases hloc : d.locate q with
    | error e => rfl
    | ok other =>
      have hne : other ≠ place := by
        rintro rfl
        exact hq (hloc.trans hplace.symm)
      simp only [bind, Except.bind, hget, if_neg hne]

end Overwriting

end Disk

/-! ## 2. One file after another -/

namespace Fix

open Edits

/-- What becomes of a text whose edits are tried: it is edited, or stays as it is. -/
def editedText (file : Path) (text : String) (edits : List TextEdit) : String :=
  match applyEdits file text.toList (dropOverlapping edits) with
  | .ok edited => String.ofList edited
  | .error _ => text

section Runs

variable {d : Disk} {root file : Path} {text : String} {edits : List TextEdit}

theorem editFile_of_error (htext : d.text (root ++ file) = .ok text) {e : EditError}
    (h : applyEdits file text.toList edits = .error e) :
    editFile d root file edits = .error e := by
  unfold editFile
  simp only [htext, h]

theorem editFile_of_ok (htree : d.IsTree) (htext : d.text (root ++ file) = .ok text)
    {edited : List Char} (h : applyEdits file text.toList edits = .ok edited) :
    ∃ d', editFile d root file edits = .ok d' ∧
      d.Overwritten d' (root ++ file) (String.ofList edited) := by
  obtain ⟨d', hwrite, hover⟩ := Disk.write_text htree htext (String.ofList edited)
  refine ⟨d', ?_, hover⟩
  unfold editFile
  simp only [htext, h, hwrite]

/-- **A run over files at different places edits each of them as if it were the only one, and changes
    nothing else.** -/
theorem editFiles_text {gs : List (Path × List TextEdit)} (htree : d.IsTree)
    (hread : ∀ g ∈ gs, ∃ text, d.text (root ++ g.1) = .ok text)
    (hplaces : gs.Pairwise fun g h => d.locate (root ++ g.1) ≠ d.locate (root ++ h.1)) :
    (∀ g ∈ gs, ∀ text, d.text (root ++ g.1) = .ok text →
      (editFiles root d gs).1.text (root ++ g.1) = .ok (editedText g.1 text g.2)) ∧
    ∀ q, (∀ g ∈ gs, d.locate q ≠ d.locate (root ++ g.1)) →
      (editFiles root d gs).1.text q = d.text q := by
  induction gs generalizing d with
  | nil => exact ⟨fun _ h => absurd h List.not_mem_nil, fun _ _ => rfl⟩
  | cons g gs ih =>
    obtain ⟨hfirst, hplaces⟩ := List.pairwise_cons.mp hplaces
    obtain ⟨text, htext⟩ := hread g List.mem_cons_self
    have hread : ∀ h ∈ gs, ∃ text, d.text (root ++ h.1) = .ok text :=
      fun h hh => hread h (List.mem_cons_of_mem g hh)
    unfold editFiles
    cases happly : applyEdits g.1 text.toList (dropOverlapping g.2) with
    | error e =>
      obtain ⟨hgroups, hothers⟩ := ih htree hread hplaces
      simp only [editFile_of_error htext happly]
      refine ⟨fun h hh text' htext' => ?_, fun q hq => ?_⟩
      · rcases List.mem_cons.mp hh with rfl | hh
        · rw [htext] at htext'
          cases htext'
          rw [hothers _ hfirst, htext, editedText, happly]
        · exact hgroups h hh text' htext'
      · exact hothers q fun h hh => hq h (List.mem_cons_of_mem g hh)
    | ok edited =>
      obtain ⟨d', hedit, hover⟩ := editFile_of_ok htree htext happly
      -- the files of the rest are where they were, and hold what they held
      have hkept : ∀ h ∈ gs, d'.text (root ++ h.1) = d.text (root ++ h.1) :=
        fun h hh => hover.elsewhere _ (hfirst h hh).symm
      obtain ⟨hgroups, hothers⟩ := ih hover.tree
        (fun h hh => (hread h hh).imp fun _ htext => (hkept h hh).trans htext)
        (by simpa only [hover.places] using hplaces)
      simp only [hover.places] at hothers
      simp only [hedit]
      refine ⟨fun h hh text' htext' => ?_, fun q hq => ?_⟩
      · rcases List.mem_cons.mp hh with rfl | hh
        · rw [htext] at htext'
          cases htext'
          rw [hothers _ hfirst, hover.there _ rfl, editedText, happly]
        · exact hgroups h hh text' ((hkept h hh).trans htext')
      · rw [hothers q fun h hh => hq h (List.mem_cons_of_mem g hh)]
        exact hover.elsewhere q (hq g List.mem_cons_self)

end Runs

/-! ## 3. The edits of a file -/

/-- The edits of a list that are edits of a file. -/
def editsOf (path : Path) (edits : List TextEdit) : List TextEdit :=
  edits.filter (·.file = path)

theorem mem_editsOf {path : Path} {edits : List TextEdit} {e : TextEdit} :
    e ∈ editsOf path edits ↔ e ∈ edits ∧ e.file = path := by
  simp [editsOf]

/-- Edits that are some of others file by file are some of them altogether. -/
theorem subperm_of_editsOf {made edits : List TextEdit}
    (h : ∀ e ∈ made, (editsOf e.file made).Subperm (editsOf e.file edits)) : made.Subperm edits := by
  refine List.subperm_ext_iff.mpr fun e he => ?_
  have hcount : ∀ es, (editsOf e.file es).count e = es.count e :=
    fun es => List.count_filter (by simp)
  rw [← hcount made, ← hcount edits]
  exact (h e he).count_le e

theorem dropOverlapping_subperm (edits : List TextEdit) : (dropOverlapping edits).Subperm edits := by
  have hperm : (edits.mergeSort standsBefore).Perm edits := List.mergeSort_perm ..
  exact (keepFrom_sublist none _).subperm.trans hperm.subperm

/-! ## 4. What a run is asked to do -/

/-- The edits of all the choices that are taken. -/
def chosenEdits (is : List Incident) : List TextEdit := (is.filterMap chosen?).flatten

theorem filterMap_chosen?_filter (is : List Incident) :
    (is.filter (·.fix.isSome)).filterMap chosen? = is.filterMap chosen? := by
  rw [List.filterMap_filter]
  refine List.filterMap_congr fun i _ => ?_
  cases h : i.fix <;> simp [chosen?, h]

/-- A run counts the choices that are taken, and edits the files one after another. -/
theorem apply_eq (d : Disk) (p : Project) (is : List Incident) :
    (apply d p is false).count = (is.filterMap chosen?).length ∧
      (apply d p is false).disk =
        (editFiles p.root d (Report.editsByFile (chosenEdits is))).1 := by
  unfold apply chosenEdits
  rw [← filterMap_chosen?_filter is]
  cases hfix : is.filter (·.fix.isSome) with
  | nil => exact ⟨rfl, rfl⟩
  | cons i is => exact ⟨rfl, rfl⟩

end Fix

/-! ## 5. A project on a disk -/

/-- The files of a project as they were loaded from a disk, each at its own place. -/
structure Project.OnDisk (p : Project) (d : Disk) : Prop where
  tree : d.IsTree
  loaded : ∀ f ∈ p.files, d.text (p.root ++ f.path) = .ok f.contents
  distinct : p.files.Pairwise fun f g => f.path.same g.path = false
  apart : p.files.Pairwise fun f g => d.locate (p.root ++ f.path) ≠ d.locate (p.root ++ g.path)

namespace Project.OnDisk

variable {p : Project} {d : Disk} {f g : File}

theorem eq_of_compare (hd : p.OnDisk d) (hf : f ∈ p.files) (hg : g ∈ p.files)
    (h : f.path.compare g.path = .eq) : f = g :=
  File.eq_of_same hd.distinct hf hg (Path.same_iff.mpr (Path.compare_eq_iff.mp h))

theorem locate_ne (hd : p.OnDisk d) (hf : f ∈ p.files) (hg : g ∈ p.files) (hne : f ≠ g) :
    d.locate (p.root ++ f.path) ≠ d.locate (p.root ++ g.path) := by
  have : Std.Symm fun f g : File => d.locate (p.root ++ f.path) ≠ d.locate (p.root ++ g.path) :=
    ⟨fun _ _ h => h.symm⟩
  exact hd.apart.forall hf hg hne

end Project.OnDisk

namespace Fix

open Edits

/-- The edits are edits of files of the project. -/
def NamesFiles (p : Project) (edits : List TextEdit) : Prop :=
  ∀ e ∈ edits, ∃ f ∈ p.files, e.file = f.path

section Projects

variable {d : Disk} {p : Project} {edits : List TextEdit}

/-- The group of a file holds its edits, and is there when it has some. -/
theorem of_mem_editsByFile (hd : p.OnDisk d) (hnames : NamesFiles p edits)
    {g : Path × List TextEdit} (hg : g ∈ Report.editsByFile edits) :
    ∃ f ∈ p.files, editsOf f.path edits ≠ [] ∧ g = (f.path, editsOf f.path edits) := by
  obtain ⟨e, he, hkey⟩ := Grouping.exists_key_of_mem_groups hg
  obtain ⟨f, hf, hfile⟩ := hnames e he
  rw [hfile] at hkey
  refine ⟨f, hf, List.ne_nil_of_mem (mem_editsOf.mpr ⟨he, hfile⟩), Prod.ext hkey ?_⟩
  rw [Grouping.snd_of_mem_groups hg, hkey]
  refine List.filter_congr fun e' he' => ?_
  obtain ⟨f', hf', hfile'⟩ := hnames e' he'
  rw [hfile', Bool.eq_iff_iff, beq_iff_eq, decide_eq_true_iff]
  constructor
  · intro h
    rw [hd.eq_of_compare hf' hf h]
  · intro h
    rw [h]
    exact Path.compare_eq_iff.mpr rfl

theorem mem_editsByFile (hd : p.OnDisk d) (hnames : NamesFiles p edits) {f : File}
    (hf : f ∈ p.files) {e : TextEdit} (he : e ∈ editsOf f.path edits) :
    (f.path, editsOf f.path edits) ∈ Report.editsByFile edits := by
  obtain ⟨hmem, hfile⟩ := mem_editsOf.mp he
  have hgroup : ∃ g ∈ Report.editsByFile edits, e.file.compare g.1 = .eq :=
    Grouping.exists_group hmem
  obtain ⟨g, hg, hkey⟩ := hgroup
  obtain ⟨f', hf', hsome, rfl⟩ := of_mem_editsByFile hd hnames hg
  rw [hfile] at hkey
  rw [hd.eq_of_compare hf hf' hkey]
  exact hg

theorem editsByFile_places (hd : p.OnDisk d) (hnames : NamesFiles p edits) :
    (Report.editsByFile edits).Pairwise fun g h =>
      d.locate (p.root ++ g.1) ≠ d.locate (p.root ++ h.1) := by
  have hsorted : Grouping.Sorted Path.compare (Report.editsByFile edits) :=
    Grouping.sorted_groups edits
  refine hsorted.imp_of_mem fun {g h} hg hh hlt => ?_
  obtain ⟨f, hf, _, rfl⟩ := of_mem_editsByFile hd hnames hg
  obtain ⟨f', hf', hsome, rfl⟩ := of_mem_editsByFile hd hnames hh
  refine hd.locate_ne hf hf' ?_
  rintro rfl
  rw [Path.compare_eq_iff.mpr rfl] at hlt
  cases hlt

@[simp]
theorem applyEdits_nil (file : Path) (contents : List Char) :
    applyEdits file contents [] = .ok contents := by
  simp [applyEdits, applyFrom]

theorem editedText_nil (file : Path) (text : String) : editedText file text [] = text := by
  simp [editedText, dropOverlapping, keepFrom]

/-- **After a run each file of the project holds what becomes of its text when its edits are
    tried.** -/
theorem text_apply (hd : p.OnDisk d) (is : List Incident) (hnames : NamesFiles p (chosenEdits is))
    {f : File} (hf : f ∈ p.files) :
    (apply d p is false).disk.text (p.root ++ f.path) =
      .ok (editedText f.path f.contents (editsOf f.path (chosenEdits is))) := by
  have hread : ∀ g ∈ Report.editsByFile (chosenEdits is),
      ∃ text, d.text (p.root ++ g.1) = .ok text := by
    intro g hg
    obtain ⟨f', hf', hsome, rfl⟩ := of_mem_editsByFile hd hnames hg
    exact ⟨f'.contents, hd.loaded f' hf'⟩
  obtain ⟨hgroups, hothers⟩ := editFiles_text hd.tree hread (editsByFile_places hd hnames)
  rw [(apply_eq d p is).2]
  cases hes : editsOf f.path (chosenEdits is) with
  | nil =>
    -- no group is that of the file
    rw [editedText_nil, hothers, hd.loaded f hf]
    intro g hg
    obtain ⟨f', hf', hsome, rfl⟩ := of_mem_editsByFile hd hnames hg
    refine hd.locate_ne hf hf' ?_
    rintro rfl
    exact hsome hes
  | cons e es =>
    have he : e ∈ editsOf f.path (chosenEdits is) := hes ▸ List.mem_cons_self
    have hgroup := hgroups _ (mem_editsByFile hd hnames hf he) _ (hd.loaded f hf)
    rwa [hes] at hgroup

end Projects

/-! ## 6. The edits that are in effect -/

/-- The edits that are made in a file: those that are kept, unless they cannot be applied. -/
def madeIn (edits : List TextEdit) (f : File) : List TextEdit :=
  match applyEdits f.path f.contents.toList (dropOverlapping (editsOf f.path edits)) with
  | .ok _ => dropOverlapping (editsOf f.path edits)
  | .error _ => []

theorem madeIn_subperm (edits : List TextEdit) (f : File) :
    (madeIn edits f).Subperm (editsOf f.path edits) := by
  unfold madeIn
  split
  · exact dropOverlapping_subperm _
  · exact List.nil_subperm

theorem applyEdits_madeIn (edits : List TextEdit) (f : File) :
    applyEdits f.path f.contents.toList (madeIn edits f) =
      .ok (editedText f.path f.contents (editsOf f.path edits)).toList := by
  unfold madeIn editedText
  split
  · next edited h => rw [h, String.toList_ofList]
  · exact applyEdits_nil ..

/-- Where all edits of a file fit, one is made or clashes with one that is. -/
theorem mem_madeIn_or_clash {edits : List TextEdit} {f : File}
    (hfit : ∀ e ∈ editsOf f.path edits, e.range.FitsIn f.contents.toList) {e : TextEdit}
    (he : e ∈ editsOf f.path edits) : e ∈ madeIn edits f ∨ ∃ k ∈ madeIn edits f, Clash e k := by
  have hordered : ∀ e ∈ editsOf f.path edits, e.range.start ≤ e.range.stop :=
    fun e he => (hfit e he).ordered
  obtain ⟨dropped, hsplit, hdropped⟩ := exists_dropped hordered
  obtain ⟨edited, happly⟩ := applyEdits_of_apart f.path
    (fun k hk => hfit k ((dropOverlapping_subperm _).subset hk)) (dropOverlapping_apart hordered)
  have hmade : madeIn edits f = dropOverlapping (editsOf f.path edits) := by
    rw [madeIn, happly]
  rw [hmade]
  rcases List.mem_append.mp (hsplit.mem_iff.mpr he) with he | he
  · exact Or.inl he
  · exact Or.inr (hdropped e he)

/-- The edits that are made in the files of a project. -/
def madeEdits (p : Project) (edits : List TextEdit) : List TextEdit :=
  p.files.flatMap (madeIn edits)

/-- The edits `made` are in effect: they are some of those that were chosen, and each file of the
    project holds the text that was loaded, with those of them that are its edits applied. -/
structure InEffect (p : Project) (after : Disk) (chosen made : List TextEdit) : Prop where
  chosen : made.Subperm chosen
  written : ∀ f ∈ p.files, ∃ text,
    applyEdits f.path f.contents.toList (editsOf f.path made) = .ok text ∧
      after.text (p.root ++ f.path) = .ok (String.ofList text)

section Effects

variable {d : Disk} {p : Project}

theorem file_of_mem_madeIn {edits : List TextEdit} {f : File} {e : TextEdit}
    (he : e ∈ madeIn edits f) : e.file = f.path :=
  (mem_editsOf.mp ((madeIn_subperm edits f).subset he)).2

theorem editsOf_flatMap_madeIn {files : List File} {path : Path}
    (h : ∀ g ∈ files, g.path ≠ path) (edits : List TextEdit) :
    editsOf path (files.flatMap (madeIn edits)) = [] := by
  refine List.filter_eq_nil_iff.mpr fun e he hfile => ?_
  obtain ⟨g, hg, hmade⟩ := List.mem_flatMap.mp he
  exact h g hg ((file_of_mem_madeIn hmade).symm.trans (of_decide_eq_true hfile))

theorem editsOf_madeEdits (hd : p.OnDisk d) (edits : List TextEdit) {f : File} (hf : f ∈ p.files) :
    editsOf f.path (madeEdits p edits) = madeIn edits f := by
  obtain ⟨front, rest, hsplit⟩ := List.append_of_mem hf
  have hdistinct := hd.distinct
  rw [hsplit, List.pairwise_append] at hdistinct
  obtain ⟨_, hrest, hfront⟩ := hdistinct
  have hsame : ∀ {g h : File}, g.path.same h.path = false → g.path ≠ h.path := by
    intro g h hgh heq
    rw [heq, Path.same_iff.mpr rfl] at hgh
    cases hgh
  have hself : editsOf f.path (madeIn edits f) = madeIn edits f :=
    List.filter_eq_self.mpr fun e he => decide_eq_true (file_of_mem_madeIn he)
  have hbefore := editsOf_flatMap_madeIn
    (fun g hg => hsame (hfront g hg f List.mem_cons_self)) edits
  have hbehind := editsOf_flatMap_madeIn
    (fun g hg => (hsame (List.rel_of_pairwise_cons hrest hg)).symm) edits
  unfold editsOf at *
  rw [madeEdits, hsplit, List.flatMap_append, List.flatMap_cons, List.filter_append,
    List.filter_append, hbefore, hself, hbehind, List.append_nil, List.nil_append]

theorem inEffect_madeEdits (hd : p.OnDisk d) (is : List Incident)
    (hnames : NamesFiles p (chosenEdits is)) :
    InEffect p (apply d p is false).disk (chosenEdits is) (madeEdits p (chosenEdits is)) := by
  constructor
  · refine subperm_of_editsOf fun e he => ?_
    obtain ⟨f, hf, hmade⟩ := List.mem_flatMap.mp he
    rw [file_of_mem_madeIn hmade, editsOf_madeEdits hd _ hf]
    exact madeIn_subperm _ f
  · intro f hf
    rw [editsOf_madeEdits hd _ hf]
    refine ⟨_, applyEdits_madeIn _ f, ?_⟩
    rw [String.ofList_toList]
    exact text_apply hd is hnames hf

end Effects

/-! ## 7. Corrections as a whole -/

/-- Corrections are applied as a whole: with some edits in effect, each choice that was taken has all
    its edits among them or none, and those that have all are counted. -/
def AppliedWhole (d : Disk) (p : Project) (is : List Incident) : Prop :=
  ∃ made, InEffect p (apply d p is false).disk (chosenEdits is) made ∧
    (∀ edits ∈ is.filterMap chosen?, (∀ e ∈ edits, e ∈ made) ∨ ∀ e ∈ edits, e ∉ made) ∧
    (apply d p is false).count =
      (is.filterMap chosen?).countP fun edits => decide (∀ e ∈ edits, e ∈ made)

/-- Every choice is counted, so none may be left out. -/
theorem appliedWhole_iff {d : Disk} {p : Project} {is : List Incident} :
    AppliedWhole d p is ↔ ∃ made, InEffect p (apply d p is false).disk (chosenEdits is) made ∧
      ∀ e ∈ chosenEdits is, e ∈ made := by
  constructor
  · rintro ⟨made, heffect, _, hcount⟩
    rw [(apply_eq d p is).1, eq_comm, List.countP_eq_length] at hcount
    refine ⟨made, heffect, fun e he => ?_⟩
    obtain ⟨edits, hedits, hmem⟩ := List.mem_flatten.mp he
    exact of_decide_eq_true (hcount edits hedits) e hmem
  · rintro ⟨made, heffect, hall⟩
    have hoption : ∀ edits ∈ is.filterMap chosen?, ∀ e ∈ edits, e ∈ made :=
      fun edits hedits e he => hall e (List.mem_flatten.mpr ⟨edits, hedits, he⟩)
    refine ⟨made, heffect, fun edits hedits => Or.inl (hoption edits hedits), ?_⟩
    rw [(apply_eq d p is).1, eq_comm, List.countP_eq_length]
    exact fun edits hedits => decide_eq_true (hoption edits hedits)

/-- The edits fit in the files of the project that they are edits of. -/
def FitFiles (p : Project) (edits : List TextEdit) : Prop :=
  ∀ f ∈ p.files, ∀ e ∈ editsOf f.path edits, e.range.FitsIn f.contents.toList

/-- Two different edits of one file of the project are always so related. -/
def PairsInFiles (p : Project) (edits : List TextEdit) (related : TextEdit → TextEdit → Prop) :
    Prop :=
  ∀ f ∈ p.files, ∀ e ∈ editsOf f.path edits, ∀ k ∈ editsOf f.path edits, e ≠ k → related e k

section Wholes

variable {d : Disk} {p : Project} {is : List Incident}

theorem AppliedWhole.fitFiles (h : AppliedWhole d p is) : FitFiles p (chosenEdits is) := by
  obtain ⟨made, heffect, hall⟩ := appliedWhole_iff.mp h
  intro f hf e he
  obtain ⟨hmem, hfile⟩ := mem_editsOf.mp he
  obtain ⟨text, happly, _⟩ := heffect.written f hf
  exact fits_of_applyEdits happly e (mem_editsOf.mpr ⟨hall e hmem, hfile⟩)

theorem AppliedWhole.apart (h : AppliedWhole d p is) :
    PairsInFiles p (chosenEdits is) fun e k => e.range.Apart k.range := by
  obtain ⟨made, heffect, hall⟩ := appliedWhole_iff.mp h
  intro f hf e he k hk hne
  obtain ⟨text, happly, _⟩ := heffect.written f hf
  have hmade : ∀ {e}, e ∈ editsOf f.path (chosenEdits is) → e ∈ editsOf f.path made :=
    fun he => mem_editsOf.mpr ((mem_editsOf.mp he).imp_left (hall _))
  have : Std.Symm fun a b : TextEdit => a.range.Apart b.range := ⟨fun _ _ h => h.symm⟩
  exact (apart_of_applyEdits happly).forall (hmade he) (hmade hk) hne

theorem appliedWhole_of_no_clash (hd : p.OnDisk d) (hnames : NamesFiles p (chosenEdits is))
    (hfit : FitFiles p (chosenEdits is))
    (hclash : PairsInFiles p (chosenEdits is) fun e k => ¬ Clash e k) : AppliedWhole d p is := by
  refine appliedWhole_iff.mpr ⟨_, inEffect_madeEdits hd is hnames, fun e he => ?_⟩
  obtain ⟨f, hf, hfile⟩ := hnames e he
  have he := mem_editsOf.mpr ⟨he, hfile⟩
  refine List.mem_flatMap.mpr ⟨f, hf, ?_⟩
  rcases mem_madeIn_or_clash (hfit f hf) he with hmade | ⟨k, hk, hek⟩
  · exact hmade
  · -- an edit clashes with no other one, so what it clashes with is the edit itself
    have hsame : e = k := Decidable.byContradiction fun hne =>
      hclash f hf e he k ((madeIn_subperm _ f).subset hk) hne hek
    rwa [hsame]

end Wholes

/-- **A run counts every choice that is taken, whatever becomes of its edits.** Of the edits of a file
    that fit, each is in effect or clashes with one that is. So corrections are applied as a whole
    only if all edits fit and different ones are apart, and they are if no two different edits of a
    file clash; in between are insertions at one place. -/
theorem apply_inEffect (d : Disk) (p : Project) (is : List Incident) (hd : p.OnDisk d)
    (hnames : NamesFiles p (chosenEdits is)) :
    (apply d p is false).count = (is.filterMap chosen?).length ∧
    (∃ made, InEffect p (apply d p is false).disk (chosenEdits is) made ∧
      ∀ f ∈ p.files, (∀ e ∈ editsOf f.path (chosenEdits is), e.range.FitsIn f.contents.toList) →
        ∀ e ∈ editsOf f.path (chosenEdits is),
          e ∈ made ∨ ∃ k ∈ editsOf f.path made, Clash e k) ∧
    (AppliedWhole d p is → FitFiles p (chosenEdits is) ∧
      PairsInFiles p (chosenEdits is) fun e k => e.range.Apart k.range) ∧
    (FitFiles p (chosenEdits is) → (PairsInFiles p (chosenEdits is) fun e k => ¬ Clash e k) →
      AppliedWhole d p is) := by
  refine ⟨(apply_eq d p is).1, ⟨_, inEffect_madeEdits hd is hnames, ?_⟩, ?_, ?_⟩
  · intro f hf hfit e he
    rw [editsOf_madeEdits hd _ hf]
    refine (mem_madeIn_or_clash hfit he).imp_left fun hmade => ?_
    exact List.mem_flatMap.mpr ⟨f, hf, hmade⟩
  · exact fun h => ⟨h.fitFiles, h.apart⟩
  · exact appliedWhole_of_no_clash hd hnames

/-- A project of one file with six letters. -/
def lettersProject : Project := ⟨⟨""⟩, [⟨⟨"a.xml"⟩, "abcdef"⟩], {}⟩

@[inherit_doc lettersProject]
def lettersDisk : Disk := ⟨[(["a.xml"], .file (.text "abcdef"))], []⟩

/-- An incident whose correction makes some edits. -/
def correctedBy (edits : List TextEdit) : Incident :=
  (Incident.new .stringEscaping ⟨⟨"a.xml"⟩, none, none⟩ "letters").fixedBy (.edits "Replace" edits)

/-- Both ends of the letters are replaced. -/
def bothEnds : List TextEdit := [⟨⟨"a.xml"⟩, ⟨0, 2⟩, "x"⟩, ⟨⟨"a.xml"⟩, ⟨4, 6⟩, "y"⟩]

theorem lettersProject_onDisk : lettersProject.OnDisk lettersDisk where
  tree := by
    intro place e hplace
    by_cases hletters : place = ["a.xml"]
    · rw [hletters]
      rfl
    · by_cases htop : place = []
      · rw [htop]
        rfl
      · have hother : (place == ["a.xml"]) = false := beq_eq_false_iff_ne.mpr hletters
        simp [lettersDisk, Disk.get?, List.lookup_cons, hother, htop] at hplace
  loaded := by
    intro f hf
    rw [List.mem_singleton.mp hf]
    decide +kernel
  distinct := List.pairwise_singleton _ _
  apart := List.pairwise_singleton _ _

theorem apply_inEffect_both_ends :
    lettersProject.OnDisk lettersDisk ∧
      NamesFiles lettersProject (chosenEdits [correctedBy bothEnds]) ∧
      (apply lettersDisk lettersProject [correctedBy bothEnds] false).count = 1 ∧
      AppliedWhole lettersDisk lettersProject [correctedBy bothEnds] := by
  have hnames : NamesFiles lettersProject (chosenEdits [correctedBy bothEnds]) := by
    unfold NamesFiles
    decide +kernel
  obtain ⟨hcount, _, _, hwhole⟩ := apply_inEffect lettersDisk lettersProject [correctedBy bothEnds]
    lettersProject_onDisk hnames
  refine ⟨lettersProject_onDisk, hnames, hcount, hwhole ?_ ?_⟩
  · unfold FitFiles
    decide +kernel
  · unfold PairsInFiles Clash
    decide +kernel

/-- The first letter alone is replaced, and both ends are. -/
def clashingLetters : List Incident :=
  [correctedBy [⟨⟨"a.xml"⟩, ⟨0, 1⟩, "z"⟩], correctedBy bothEnds]

/-- **A correction that clashes with another one is cut apart, and counted.** Of the edits at both
    ends only the last one is made. -/
theorem apply_cut_apart :
    lettersProject.OnDisk lettersDisk ∧
      NamesFiles lettersProject (chosenEdits clashingLetters) ∧
      FitFiles lettersProject (chosenEdits clashingLetters) ∧
      (apply lettersDisk lettersProject clashingLetters false).count = 2 ∧
      (apply lettersDisk lettersProject clashingLetters false).disk.text ⟨"a.xml"⟩ = .ok "zbcdy" ∧
      ¬ AppliedWhole lettersDisk lettersProject clashingLetters := by
  have hnames : NamesFiles lettersProject (chosenEdits clashingLetters) := by
    unfold NamesFiles
    decide +kernel
  refine ⟨lettersProject_onDisk, hnames, ?_, (apply_eq ..).1, ?_, fun h => ?_⟩
  · unfold FitFiles
    decide +kernel
  · have hroot : lettersProject.root ++ (⟨"a.xml"⟩ : Path) = ⟨"a.xml"⟩ := by decide +kernel
    -- the edits come in the order in which they are kept, and are applied the other way round
    have hkept : dropOverlapping (editsOf ⟨"a.xml"⟩ (chosenEdits clashingLetters)) =
        [⟨⟨"a.xml"⟩, ⟨0, 1⟩, "z"⟩, ⟨⟨"a.xml"⟩, ⟨4, 6⟩, "y"⟩] := by
      rw [dropOverlapping, List.mergeSort_of_pairwise (by decide +kernel)]
      decide +kernel
    have hback : [(⟨⟨"a.xml"⟩, ⟨0, 1⟩, "z"⟩ : TextEdit), ⟨⟨"a.xml"⟩, ⟨4, 6⟩, "y"⟩].mergeSort
        appliesBefore = [⟨⟨"a.xml"⟩, ⟨4, 6⟩, "y"⟩, ⟨⟨"a.xml"⟩, ⟨0, 1⟩, "z"⟩] := by
      simp [List.mergeSort, List.MergeSort.Internal.splitInTwo, List.splitAt, List.splitAt.go,
        appliesBefore]
    have hedited : editedText ⟨"a.xml"⟩ "abcdef"
        (editsOf ⟨"a.xml"⟩ (chosenEdits clashingLetters)) = "zbcdy" := by
      rw [editedText, hkept, applyEdits, hback]
      decide +kernel
    have htext := text_apply lettersProject_onDisk clashingLetters hnames
      (List.mem_singleton_self _)
    rwa [hroot, hedited] at htext
  · have hfirst : (⟨⟨"a.xml"⟩, ⟨0, 2⟩, "x"⟩ : TextEdit) ∈
        editsOf ⟨"a.xml"⟩ (chosenEdits clashingLetters) := by decide +kernel
    have hother : (⟨⟨"a.xml"⟩, ⟨0, 1⟩, "z"⟩ : TextEdit) ∈
        editsOf ⟨"a.xml"⟩ (chosenEdits clashingLetters) := by decide +kernel
    have hapart := h.apart _ (List.mem_singleton_self _) _ hfirst _ hother (by decide)
    exact absurd hapart (by decide)

end Fix

end AndroidLint
