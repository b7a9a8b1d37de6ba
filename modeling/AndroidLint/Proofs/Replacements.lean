/-
  File:      AndroidLint/Proofs/Replacements.lean
  Subject:   What the corrections in a SARIF report mean.

  A report gives a correction as replacements of regions of a text, and a reader of the report makes
  them from left to right (`replaceFrom`). A region has an offset and a length. The format counts
  them in characters; the edits that they are made from count bytes:

  * `replaceFrom_of_applyFrom`:   applying from the end is replacing from left to right, in bytes;
  * `replaceFrom_characters`:     so it is in characters, where all before it are of one byte;
  * `fixValues_read`:             what a reader makes of all corrections in a report;
  * `fixValues_misread`:          where a longer character stands before it, that is another text.
-/
import AndroidLint.Baseline.Store
import AndroidLint.Proofs.Edits
import AndroidLint.Report.Sarif
import Mathlib.Data.List.Forall2
import Mathlib.Data.List.Pairwise

namespace AndroidLint

namespace Json.Value

/-- The member of an object with a name. -/
def get? (name : String) : Value → Option Value
  | obj members => members.lookup name
  | _ => none

/-- A number. -/
def nat? : Value → Option Nat
  | nat n => some n
  | _ => none

end Json.Value

namespace Report

open Edits (applyEdits)

/-! ## 1. Replacing from left to right -/

/-- A way to cut a text after a number of units; nothing when there are not so many. -/
abbrev Cut := Nat → List Char → Option (List Char × List Char)

/-- The cut after a number of characters. -/
def characters : Cut := fun n cs => if n ≤ cs.length then some (cs.take n, cs.drop n) else none

/-- The text with the replacements made, the text beginning at the offset `base`. The regions have to
    follow each other. -/
def replaceFrom (cut : Cut) : (base : Nat) → List Char → List Replacement → Option (List Char)
  | _, cs, [] => some cs
  | base, cs, r :: rs =>
    if r.offset < base then none
    else do
      let (gap, behind) ← cut (r.offset - base) cs
      let (_, rest) ← cut r.length behind
      let replaced ← replaceFrom cut (r.offset + r.length) rest rs
      pure (gap ++ r.inserted.toList ++ replaced)

/-- One can read the replacements so that they make `text` of `contents`. All regions are those of
    `contents`, so the order in which they are listed says nothing; what it should say about
    insertions at one place is left open. -/
def Reading (cut : Cut) (contents : List Char) (rs : List Replacement) (text : List Char) : Prop :=
  ∃ order, order.Perm rs ∧ replaceFrom cut 0 contents order = some text

/-- No two replacements are insertions at one place. -/
def NoTies (rs : List Replacement) : Prop :=
  rs.Pairwise fun a b => ¬ (a.offset = b.offset ∧ a.length = 0 ∧ b.length = 0)

/-- The replacements make `text` of `contents`, and nothing else, insertions at one place apart. -/
structure Gives (cut : Cut) (contents : List Char) (rs : List Replacement) (text : List Char) :
    Prop where
  reads : Reading cut contents rs text
  only : NoTies rs → ∀ other, Reading cut contents rs other → other = text

/-- What replacing takes a text apart into. -/
theorem replaceFrom_cons {cut : Cut} {base : Nat} {cs out : List Char} {r : Replacement}
    {rs : List Replacement} :
    replaceFrom cut base cs (r :: rs) = some out ↔ base ≤ r.offset ∧
      ∃ gap behind deleted rest replaced, cut (r.offset - base) cs = some (gap, behind) ∧
        cut r.length behind = some (deleted, rest) ∧
        replaceFrom cut (r.offset + r.length) rest rs = some replaced ∧
        out = gap ++ r.inserted.toList ++ replaced := by
  rw [replaceFrom]
  constructor
  · intro h
    split at h
    · cases h
    · next hbase =>
      obtain ⟨⟨gap, behind⟩, hgap, h⟩ := Option.bind_eq_some_iff.mp h
      obtain ⟨⟨deleted, rest⟩, hdeleted, h⟩ := Option.bind_eq_some_iff.mp h
      obtain ⟨replaced, hreplaced, h⟩ := Option.bind_eq_some_iff.mp h
      cases h
      exact ⟨Nat.le_of_not_lt hbase, gap, behind, deleted, rest, replaced, hgap, hdeleted,
        hreplaced, rfl⟩
  · rintro ⟨hbase, gap, behind, deleted, rest, replaced, hgap, hdeleted, hreplaced, rfl⟩
    rw [if_neg (Nat.not_lt.mpr hbase), hgap]
    simp only [Option.bind_eq_bind, Option.bind_some]
    rw [hdeleted]
    simp only [Option.bind_some]
    rw [hreplaced]
    rfl

/-! ## 2. One text only -/

/-- Regions that can be replaced follow each other. -/
theorem follow_of_replaceFrom {cut : Cut} {base : Nat} {cs out : List Char}
    {rs : List Replacement} (h : replaceFrom cut base cs rs = some out) :
    rs.Pairwise (fun a b => a.offset + a.length ≤ b.offset) ∧ ∀ r ∈ rs, base ≤ r.offset := by
  induction rs generalizing base cs out with
  | nil => exact ⟨List.Pairwise.nil, fun _ hr => nomatch hr⟩
  | cons r rs ih =>
    obtain ⟨hbase, gap, behind, deleted, rest, replaced, _, _, hreplaced, _⟩ :=
      replaceFrom_cons.mp h
    obtain ⟨hpairs, hlater⟩ := ih hreplaced
    refine ⟨List.pairwise_cons.mpr ⟨hlater, hpairs⟩, fun s hs => ?_⟩
    rcases List.mem_cons.mp hs with rfl | hs
    · exact hbase
    · have := hlater s hs
      omega

/-- **Replacements without ties make one text only.** -/
theorem Reading.unique {cut : Cut} {contents text other : List Char} {rs : List Replacement}
    (hties : NoTies rs) (htext : Reading cut contents rs text)
    (hother : Reading cut contents rs other) : other = text := by
  obtain ⟨order, hperm, hreplace⟩ := htext
  obtain ⟨order', hperm', hreplace'⟩ := hother
  have hsame : order' = order := by
    refine List.Perm.eq_of_pairwise (fun a b ha hb hab hba => ?_)
      (follow_of_replaceFrom hreplace').1 (follow_of_replaceFrom hreplace).1
      (hperm'.trans hperm.symm)
    by_cases hne : a = b
    · exact hne
    · -- each would end before the other begins, so both are empty and at one place
      have hsymm : Std.Symm fun a b : Replacement =>
          ¬ (a.offset = b.offset ∧ a.length = 0 ∧ b.length = 0) :=
        ⟨fun a b hab hba => hab ⟨hba.1.symm, hba.2.2, hba.2.1⟩⟩
      have hnot := hties.forall (hperm'.mem_iff.mp ha) (hperm.mem_iff.mp hb) hne
      exact absurd ⟨by omega, by omega, by omega⟩ hnot
  rw [hsame, hreplace] at hreplace'
  exact (Option.some.inj hreplace').symm

theorem Reading.gives {cut : Cut} {contents text : List Char} {rs : List Replacement}
    (h : Reading cut contents rs text) : Gives cut contents rs text :=
  ⟨h, fun hties _ hother => h.unique hties hother⟩

/-! ## 3. Bytes -/

open Text

/-- One more replacement behind the others. -/
theorem replaceFrom_concat {base : Nat} {front out : List Char} {rs : List Replacement}
    (h : replaceFrom cut? base front rs = some out) {r : Replacement}
    (hoffset : r.offset = base + width front) (deleted gap : List Char)
    (hlength : r.length = width deleted) :
    replaceFrom cut? base (front ++ deleted ++ gap) (rs ++ [r]) =
      some (out ++ r.inserted.toList ++ gap) := by
  induction rs generalizing base front out with
  | nil =>
    cases h
    refine replaceFrom_cons.mpr ⟨by omega, front, deleted ++ gap, deleted, gap, gap, ?_, ?_, rfl, rfl⟩
    · rw [hoffset, Nat.add_sub_cancel_left, List.append_assoc]
      exact cut?_width_append front (deleted ++ gap)
    · rw [hlength]
      exact cut?_width_append deleted gap
  | cons s rs ih =>
    obtain ⟨hbase, before, behind, cut, rest, replaced, hbefore, hcut, hrest, rfl⟩ :=
      replaceFrom_cons.mp h
    obtain ⟨rfl, hwbefore⟩ := cut?_eq_some hbefore
    obtain ⟨rfl, hwcut⟩ := cut?_eq_some hcut
    have hoffset' : r.offset = s.offset + s.length + width rest := by
      rw [hoffset, width_append, width_append, hwbefore, hwcut]
      omega
    refine replaceFrom_cons.mpr ⟨hbase, before, cut ++ (rest ++ deleted ++ gap), cut,
      rest ++ deleted ++ gap, _, ?_, ?_, ih hrest hoffset', ?_⟩
    · rw [← hwbefore]
      simp only [List.append_assoc]
      exact cut?_width_append before _
    · rw [← hwcut]
      exact cut?_width_append cut _
    · simp only [List.append_assoc]

/-- **Applying edits from the end is replacing from left to right.** What stands before `limit` is
    still as it was (`front`); what stands behind it is in its last form (`tail`). -/
theorem replaceFrom_of_applyFrom {file : Path} {front behind : List Char} {es : List TextEdit}
    {tail text : List Char}
    (h : Edits.applyFrom file (front ++ behind) es (width front) (front ++ tail) = .ok text) :
    ∃ out, text = out ++ tail ∧
      replaceFrom cut? 0 front (es.map Replacement.ofEdit).reverse = some out := by
  induction es generalizing front behind tail with
  | nil =>
    cases h
    exact ⟨front, rfl, rfl⟩
  | cons e es ih =>
    rw [Edits.applyFrom] at h
    split at h
    · next hin =>
      split at h
      · cases h
      · next hlimit =>
        have hfit := Edits.inBounds_iff.mp hin
        obtain ⟨as, bs, cs, hparts, hrange⟩ := hfit.exists_parts
        have hstop : width (as ++ bs) ≤ width front := by
          rw [hrange] at hlimit
          rw [width_append]
          exact Nat.le_of_not_lt hlimit
        obtain ⟨gap, rfl, rfl⟩ := exists_append_of_width_le hparts.symm hstop
        have hsplice : splice (as ++ bs ++ gap ++ tail) e.range e.replacement.toList =
            as ++ (e.replacement.toList ++ gap ++ tail) := by
          have hbefore : before e.range.start (as ++ bs ++ gap ++ tail) = as := by
            rw [hrange]
            simp only [List.append_assoc]
            exact before_width as _
          have hafter : after e.range.stop (as ++ bs ++ gap ++ tail) = gap ++ tail := by
            rw [hrange, List.append_assoc]
            show after (width as + width bs) _ = _
            rw [← width_append]
            exact after_width (as ++ bs) _
          rw [splice, hbefore, hafter]
          simp only [List.append_assoc]
        have hstart : e.range.start = width as := by rw [hrange]
        rw [hsplice, hstart, List.append_assoc, List.append_assoc] at h
        obtain ⟨out, rfl, hout⟩ := ih h
        refine ⟨out ++ e.replacement.toList ++ gap, by simp only [List.append_assoc], ?_⟩
        rw [List.map_cons, List.reverse_cons]
        refine replaceFrom_concat hout ?_ bs gap ?_
        · rw [Nat.zero_add]
          exact hstart
        · show e.range.stop - e.range.start = width bs
          rw [hrange]
          exact Nat.add_sub_cancel_left _ _
    · cases h

/-- **Edits that can be applied make the same text as their replacements in bytes.** -/
theorem reading_of_applyEdits {file : Path} {contents text : List Char} {edits : List TextEdit}
    (h : applyEdits file contents edits = .ok text) :
    Reading cut? contents (edits.map Replacement.ofEdit) text := by
  have hperm : (edits.mergeSort Edits.appliesBefore).Perm edits := List.mergeSort_perm ..
  have hfrom : Edits.applyFrom file (contents ++ []) (edits.mergeSort Edits.appliesBefore)
      (width contents) (contents ++ []) = .ok text := by
    rw [List.append_nil]
    exact h
  obtain ⟨out, rfl, hout⟩ := replaceFrom_of_applyFrom hfrom
  rw [List.append_nil]
  exact ⟨_, (List.reverse_perm _).trans (hperm.map _), hout⟩

/-! ## 4. Characters -/

theorem width_eq_length {cs : List Char} (h : ∀ c ∈ cs, c.utf8Size = 1) : width cs = cs.length := by
  induction cs with
  | nil => rfl
  | cons c cs ih =>
    rw [width_cons, List.length_cons, h c List.mem_cons_self,
      ih fun d hd => h d (List.mem_cons_of_mem c hd)]
    omega

theorem characters_append (as bs : List Char) : characters as.length (as ++ bs) = some (as, bs) := by
  have hle : as.length ≤ (as ++ bs).length := by
    rw [List.length_append]
    omega
  rw [characters, if_pos hle, List.take_left, List.drop_left]

/-- Characters are bytes as long as all of them are of one byte. -/
theorem characters_of_cut? {n : Nat} {cs as bs : List Char} (h : cut? n cs = some (as, bs))
    (hone : ∀ c ∈ as, c.utf8Size = 1) : characters n cs = some (as, bs) := by
  obtain ⟨rfl, rfl⟩ := cut?_eq_some h
  rw [width_eq_length hone]
  exact characters_append as bs

/-- **Replacing in bytes is replacing in characters, where no longer character stands before the end
    of a region.** -/
theorem replaceFrom_characters {base : Nat} {cs out : List Char} {rs : List Replacement}
    (h : replaceFrom cut? base cs rs = some out)
    (hone : ∀ r ∈ rs, ∀ c ∈ before (r.offset + r.length - base) cs, c.utf8Size = 1) :
    replaceFrom characters base cs rs = some out := by
  induction rs generalizing base cs out with
  | nil => exact h
  | cons r rs ih =>
    obtain ⟨hbase, gap, behind, deleted, rest, replaced, hgap, hdeleted, hrest, rfl⟩ :=
      replaceFrom_cons.mp h
    obtain ⟨rfl, hwgap⟩ := cut?_eq_some hgap
    obtain ⟨rfl, hwdeleted⟩ := cut?_eq_some hdeleted
    have hwidth : width (gap ++ deleted) = r.offset + r.length - base := by
      rw [width_append]
      omega
    have hread : ∀ c ∈ gap ++ deleted, c.utf8Size = 1 := by
      intro c hc
      refine hone r List.mem_cons_self c ?_
      rw [← hwidth, ← List.append_assoc, before_width]
      exact hc
    refine replaceFrom_cons.mpr ⟨hbase, gap, deleted ++ rest, deleted, rest, replaced, ?_, ?_, ?_,
      rfl⟩
    · exact characters_of_cut? hgap fun c hc => hread c (List.mem_append_left _ hc)
    · exact characters_of_cut? hdeleted fun c hc => hread c (List.mem_append_right _ hc)
    · refine ih hrest fun s hs c hc => hone s (List.mem_cons_of_mem r hs) c ?_
      have hlater := (follow_of_replaceFrom hrest).2 s hs
      have hsum : s.offset + s.length - base =
          width (gap ++ deleted) + (s.offset + s.length - (r.offset + r.length)) := by omega
      rw [hsum, ← List.append_assoc, before_width_add]
      exact List.mem_append_right _ hc

/-- A reader who counts characters makes the same text as one who counts bytes, where no longer
    character stands before the end of a region. -/
theorem Reading.characters {contents text : List Char} {rs : List Replacement}
    (h : Reading cut? contents rs text)
    (hone : ∀ r ∈ rs, ∀ c ∈ before (r.offset + r.length) contents, c.utf8Size = 1) :
    Reading characters contents rs text := by
  obtain ⟨order, hperm, hreplace⟩ := h
  exact ⟨order, hperm, replaceFrom_characters hreplace fun r hr => hone r (hperm.mem_iff.mp hr)⟩

theorem Reading.perm {cut : Cut} {contents text : List Char} {rs rs' : List Replacement}
    (h : Reading cut contents rs text) (hperm : rs.Perm rs') : Reading cut contents rs' text := by
  obtain ⟨order, horder, hreplace⟩ := h
  exact ⟨order, horder.trans hperm, hreplace⟩

/-! ## 5. Edits by file -/

/-- What is listed for a file. -/
def listedFor {α : Type} (uri : String) (cs : List (String × List α)) : List α :=
  (cs.filter (·.1 == uri)).flatMap Prod.snd

theorem listedFor_cons {α : Type} (uri : String) (c : String × List α)
    (cs : List (String × List α)) :
    listedFor uri (c :: cs) = (if c.1 = uri then c.2 else []) ++ listedFor uri cs := by
  unfold listedFor
  simp only [List.filter_cons, beq_iff_eq]
  split
  · rw [List.flatMap_cons]
  · rw [List.nil_append]

theorem listedFor_map {α β : Type} (uri : String) (f : α → β) (cs : List (String × List α)) :
    listedFor uri (cs.map fun c => (c.1, c.2.map f)) = (listedFor uri cs).map f := by
  induction cs with
  | nil => rfl
  | cons c cs ih =>
    rw [List.map_cons, listedFor_cons, listedFor_cons, ih, List.map_append]
    split
    · rfl
    · rfl

/-- One more edit is listed for its file. -/
theorem listedFor_addEdit (uri : String) (cs : List (String × List TextEdit)) (e : TextEdit) :
    (listedFor uri (addEdit cs e)).Perm
      (listedFor uri cs ++ [e].filter (·.file.display = uri)) := by
  have hsingle : [e].filter (·.file.display = uri) =
      if e.file.display = uri then [e] else [] := by
    split
    · next h => exact List.filter_cons_of_pos (decide_eq_true h)
    · next h => exact List.filter_cons_of_neg fun hd => h (of_decide_eq_true hd)
  rw [hsingle]
  induction cs with
  | nil =>
    rw [addEdit, listedFor_cons]
    exact List.perm_append_comm
  | cons c cs ih =>
    obtain ⟨own, es⟩ := c
    rw [addEdit, listedFor_cons, List.append_assoc]
    split
    · next howner =>
      -- the edit goes to the end of its file's group, before what other groups list
      rw [listedFor_cons, ← howner]
      show ((if own = uri then es ++ [e] else []) ++ listedFor uri cs).Perm
        ((if own = uri then es else []) ++ (listedFor uri cs ++ if own = uri then [e] else []))
      split
      · rw [List.append_assoc]
        exact List.perm_append_comm.append_left es
      · rw [List.append_nil]
    · rw [listedFor_cons]
      exact ih.append_left _

/-- **For every file the changes of a correction list the edits of that file.** -/
theorem listedFor_changes (uri : String) (edits : List TextEdit) :
    (listedFor uri (changes edits)).Perm (edits.filter (·.file.display = uri)) := by
  have hfold : ∀ (es : List TextEdit) (cs : List (String × List TextEdit)),
      (listedFor uri (es.foldl addEdit cs)).Perm
        (listedFor uri cs ++ es.filter (·.file.display = uri)) := by
    intro es
    induction es with
    | nil =>
      intro cs
      rw [List.filter_nil, List.append_nil]
      exact List.Perm.refl _
    | cons e es ih =>
      intro cs
      have hstep := (ih (addEdit cs e)).trans ((listedFor_addEdit uri cs e).append_right _)
      rw [List.append_assoc, ← List.filter_append] at hstep
      exact hstep
  exact hfold edits []

/-! ## 6. Reading a report -/

open Json (Value)

/-- The replacement that a JSON value is. One that says nothing about it inserts nothing. -/
def Replacement.read (v : Value) : Option Replacement := do
  let region ← v.get? "deletedRegion"
  let offset ← (← region.get? "charOffset").nat?
  let length ← (← region.get? "charLength").nat?
  match v.get? "insertedContent" with
  | some content => pure ⟨offset, length, ← (← content.get? "text").text?⟩
  | none => pure ⟨offset, length, ""⟩

/-- The change of a file that a JSON value is: the name of the file, and the replacements. -/
def readChange (v : Value) : Option (String × List Replacement) := do
  let uri ← (← (← v.get? "artifactLocation").get? "uri").text?
  let rs ← (← (← v.get? "replacements").items?).mapM Replacement.read
  pure (uri, rs)

/-- The replacements that an option of a correction lists for a file. -/
def replacementsFor (uri : String) (v : Value) : Option (List Replacement) := do
  let changes ← (← (← v.get? "artifactChanges").items?).mapM readChange
  pure (listedFor uri changes)

theorem Replacement.read_value (r : Replacement) : Replacement.read r.value = some r := by
  obtain ⟨offset, length, inserted⟩ := r
  by_cases h : inserted = ""
  · subst h
    rfl
  · have hvalue : (⟨offset, length, inserted⟩ : Replacement).value =
        .obj [("deletedRegion", .obj [("charOffset", .nat offset), ("charLength", .nat length)]),
          ("insertedContent", message inserted)] := by
      rw [Replacement.value, if_neg h]
      rfl
    rw [hvalue]
    rfl

/-- Reading a list of written values one by one. -/
theorem mapM_read {α β : Type} {write : α → Value} {read : Value → Option β} {f : α → β}
    (h : ∀ a, read (write a) = some (f a)) (as : List α) :
    (as.map write).mapM read = some (as.map f) := by
  induction as with
  | nil => rfl
  | cons a as ih =>
    rw [List.map_cons, List.mapM_cons, h, ih]
    rfl

/-- **An option of a correction is read as it was meant.** -/
theorem replacementsFor_optionValue (uri name : String) (edits : List TextEdit) :
    replacementsFor uri (optionValue name edits) =
      some ((listedFor uri (changes edits)).map Replacement.ofEdit) := by
  have hchange : ∀ c : String × List TextEdit,
      readChange (.obj [("artifactLocation", artifact c.1),
        ("replacements", .ofList (fun e => (Replacement.ofEdit e).value) c.2)]) =
        some (c.1, c.2.map Replacement.ofEdit) := by
    intro c
    have hitems := mapM_read (fun e => Replacement.read_value (Replacement.ofEdit e)) c.2
    show (((c.2.map fun e => (Replacement.ofEdit e).value).mapM Replacement.read).bind fun rs =>
      some (c.1, rs)) = _
    rw [hitems]
    rfl
  have hchanges := mapM_read hchange (changes edits)
  show ((((changes edits).map fun c => Value.obj [("artifactLocation", artifact c.1),
    ("replacements", .ofList (fun e => (Replacement.ofEdit e).value) c.2)]).mapM readChange).bind
      fun cs => some (listedFor uri cs)) = _
  rw [hchanges, Option.bind_some, listedFor_map]

/-- **What a reader makes of the corrections in a report.** Whatever option and file is taken, where
    the edits of the file can be applied, the replacements listed for it make the same text when
    their regions are counted in bytes. Counted in characters, as the format says, they make it where
    no character of more than one byte stands before the end of an edit. -/
theorem fixValues_read (fix : Fix) (uri : String) (contents : List Char) :
    List.Forall₂ (fun (option : String × List TextEdit) v =>
        ∃ rs, replacementsFor uri v = some rs ∧ ∀ (file : Path) (text : List Char),
          applyEdits file contents (option.2.filter (·.file.display = uri)) = .ok text →
            Gives cut? contents rs text ∧
            ((∀ e ∈ option.2, e.file.display = uri →
                ∀ c ∈ Text.before e.range.stop contents, c.utf8Size = 1) →
              Gives characters contents rs text))
      fix.options (fixValues (some fix)) := by
  show List.Forall₂ _ fix.options (fix.options.map fun option => optionValue option.1 option.2)
  rw [List.forall₂_map_right_iff, List.forall₂_same]
  rintro ⟨name, edits⟩ _
  refine ⟨_, replacementsFor_optionValue uri name edits, fun file text happly => ?_⟩
  have hperm := (listedFor_changes uri edits).map Replacement.ofEdit
  have hbytes := (reading_of_applyEdits happly).perm hperm.symm
  refine ⟨hbytes.gives, fun hone => (hbytes.characters fun r hr => ?_).gives⟩
  obtain ⟨e, he, rfl⟩ := List.mem_map.mp (hperm.mem_iff.mp hr)
  obtain ⟨hedit, huri⟩ := List.mem_filter.mp he
  have hordered := (Edits.fits_of_applyEdits happly e he).ordered
  have hstop : (Replacement.ofEdit e).offset + (Replacement.ofEdit e).length = e.range.stop :=
    Nat.add_sub_cancel' hordered
  rw [hstop]
  exact hone e hedit (of_decide_eq_true huri)

/-- The correction of an apostrophe at an offset. -/
def apostropheFix (offset : Nat) : Fix :=
  .replacing "Escape Apostrophe" ⟨"s.xml"⟩ ⟨offset, offset + 1⟩ "\\'"

/-- A longer character behind the apostrophe does no harm. -/
theorem fixValues_read_apostrophe :
    ∃ v rs, fixValues (some (apostropheFix 3)) = [v] ∧ replacementsFor "s.xml" v = some rs ∧
      rs = [⟨3, 1, "\\'"⟩] ∧ Gives cut? "Don't é".toList rs "Don\\'t é".toList ∧
      Gives characters "Don't é".toList rs "Don\\'t é".toList := by
  have happly : applyEdits ⟨"s.xml"⟩ "Don't é".toList [⟨⟨"s.xml"⟩, ⟨3, 4⟩, "\\'"⟩] =
      .ok "Don\\'t é".toList := by decide +kernel
  have hone : (Text.before 4 "Don't é".toList).all (·.utf8Size == 1) = true := by decide +kernel
  cases fixValues_read (apostropheFix 3) "s.xml" "Don't é".toList with
  | cons hread _ =>
    obtain ⟨rs, hrs, hmakes⟩ := hread
    obtain ⟨hbytes, hcharacters⟩ := hmakes ⟨"s.xml"⟩ "Don\\'t é".toList happly
    refine ⟨_, rs, rfl, hrs, (Option.some.inj hrs).symm, hbytes, hcharacters fun e he _ => ?_⟩
    rw [List.mem_singleton.mp he]
    exact fun c hc => beq_iff_eq.mp (List.all_eq_true.mp hone c hc)

/-- **A longer character in front of it does.** The apostrophe is the second character here, and its
    replacement is listed for the third. -/
theorem fixValues_misread :
    ¬ ∀ (fix : Fix) (uri : String) (contents : List Char),
      List.Forall₂ (fun (option : String × List TextEdit) v =>
          ∃ rs, replacementsFor uri v = some rs ∧ ∀ (file : Path) (text : List Char),
            applyEdits file contents (option.2.filter (·.file.display = uri)) = .ok text →
              Reading characters contents rs text)
        fix.options (fixValues (some fix)) := by
  intro h
  have happly : applyEdits ⟨"s.xml"⟩ "é'x".toList [⟨⟨"s.xml"⟩, ⟨2, 3⟩, "\\'"⟩] =
      .ok "é\\'x".toList := by decide +kernel
  have hreplace : replaceFrom characters 0 "é'x".toList [⟨2, 1, "\\'"⟩] =
      some "é'\\'".toList := by decide +kernel
  cases h (apostropheFix 2) "s.xml" "é'x".toList with
  | cons hread _ =>
    obtain ⟨rs, hrs, hmakes⟩ := hread
    obtain ⟨order, hperm, htext⟩ := hmakes ⟨"s.xml"⟩ "é\\'x".toList happly
    rw [← Option.some.inj hrs] at hperm
    have horder : order = [⟨2, 1, "\\'"⟩] := List.perm_singleton.mp hperm
    rw [horder, hreplace] at htext
    exact absurd htext (by decide)

end Report

end AndroidLint
