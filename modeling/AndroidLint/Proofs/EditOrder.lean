/-
  File:      AndroidLint/Proofs/EditOrder.lean
  Subject:   Which edits can be applied together, and the text that they make.

  Edits are applied from the end of the text towards its start, in a sorted order, and each is held
  against the one before it only. Told from left to right, and without the sorting:

  * `Spliced`:                 the text between the edits stays, and each range gives way to its
                               replacement;
  * `LeftToRight`:             the order along the text. Of edits that begin at one offset the
                               insertions come first, and of these the last one listed;
  * `LeftToRight.unique`:      edits that are apart have one such order only;
  * `applyEdits_leftToRight`:  when edits are applied, what they make, and which reorderings of the
                               list change nothing.
-/
import AndroidLint.Proofs.Replacements

namespace AndroidLint.Edits

open Text
open Report (Replacement replaceFrom replaceFrom_cons replaceFrom_of_applyFrom)

/-! ## 1. Edits from left to right -/

/-- `out` is what the edits make of `cs`, a text that begins at the offset `base`: the text up to an
    edit stays (`gap`), and what stands in its range (`old`) gives way to the replacement. -/
inductive Spliced : (base : Nat) → List TextEdit → (cs out : List Char) → Prop where
  | nil (base : Nat) (cs : List Char) : Spliced base [] cs cs
  | cons {base : Nat} {e : TextEdit} {es : List TextEdit} {rest out : List Char}
      (gap old : List Char) (hstart : e.range.start = base + width gap)
      (hstop : e.range.stop = e.range.start + width old)
      (hrest : Spliced e.range.stop es rest out) :
      Spliced base (e :: es) (gap ++ old ++ rest) (gap ++ e.replacement.toList ++ out)

/-- The edits of one range, in the order of the list. -/
def onRange (r : ByteRange) (es : List TextEdit) : List TextEdit := es.filter (·.range == r)

/-- The insertions at an offset, in the order of the list. -/
def insertionsAt (offset : Nat) (es : List TextEdit) : List TextEdit := onRange ⟨offset, offset⟩ es

/-- The edits of a list in the order along the text. -/
structure LeftToRight (edits order : List TextEdit) : Prop where
  perm : order.Perm edits
  /-- An insertion stands before a replacement that begins at its offset. -/
  sorted : order.Pairwise fun a b => standsBefore a b = true
  /-- Of insertions at one offset the last one listed comes first. -/
  ties : ∀ offset, insertionsAt offset order = (insertionsAt offset edits).reverse

/-! ## 2. What a splice says about the edits -/

namespace Spliced

variable {base : Nat} {es : List TextEdit} {cs out : List Char}

/-- A splice is what replacing from left to right in bytes answers with. -/
theorem replaceFrom (h : Spliced base es cs out) :
    replaceFrom cut? base cs (es.map Replacement.ofEdit) = some out := by
  induction h with
  | nil base cs => rfl
  | @cons base e es rest out gap old hstart hstop hrest ih =>
    have hoffset : (Replacement.ofEdit e).offset - base = width gap := by
      show e.range.start - base = width gap
      omega
    have hlength : (Replacement.ofEdit e).length = width old := by
      show e.range.stop - e.range.start = width old
      omega
    have hsum : (Replacement.ofEdit e).offset + (Replacement.ofEdit e).length = e.range.stop := by
      rw [hlength, hstop]
      rfl
    refine replaceFrom_cons.mpr ⟨?_, gap, old ++ rest, old, rest, out, ?_, ?_, ?_, rfl⟩
    · show base ≤ e.range.start
      omega
    · rw [hoffset, List.append_assoc]
      exact cut?_width_append gap (old ++ rest)
    · rw [hlength]
      exact cut?_width_append old rest
    · rw [hsum]
      exact ih

theorem unique (h : Spliced base es cs out) {other : List Char} (h' : Spliced base es cs other) :
    other = out := by
  have hsame := h'.replaceFrom
  rw [h.replaceFrom] at hsame
  exact (Option.some.inj hsame).symm

/-- Edits that are made from left to right fit and follow each other. -/
theorem fits_apart (h : Spliced base es cs out) (front : List Char) (hfront : width front = base) :
    (∀ e ∈ es, e.range.FitsIn (front ++ cs) ∧ base ≤ e.range.start) ∧
      es.Pairwise fun a b => a.range.Apart b.range := by
  induction h generalizing front with
  | nil base cs => exact ⟨List.forall_mem_nil _, List.Pairwise.nil⟩
  | @cons base e es rest out gap old hstart hstop hrest ih =>
    have hwidth : width (front ++ gap) = e.range.start := by
      rw [width_append, hfront, hstart]
    have hwidth' : width (front ++ gap ++ old) = e.range.stop := by
      rw [width_append, hwidth, hstop]
    obtain ⟨hlater, hapart⟩ := ih (front ++ gap ++ old) hwidth'
    have htext : front ++ (gap ++ old ++ rest) = front ++ gap ++ old ++ rest := by
      simp only [List.append_assoc]
    have hrange : e.range = ⟨width (front ++ gap), width (front ++ gap) + width old⟩ := by
      rw [hwidth, ← hstop]
    rw [htext]
    refine ⟨fun a ha => ?_, List.pairwise_cons.mpr ⟨fun a ha => Or.inl (hlater a ha).2, hapart⟩⟩
    rcases List.mem_cons.mp ha with rfl | ha
    · refine ⟨?_, by omega⟩
      rw [hrange]
      exact ByteRange.fitsIn_width (front ++ gap) old rest
    · have := (hlater a ha).2
      exact ⟨(hlater a ha).1, by omega⟩

end Spliced

/-- Replacing from left to right in bytes is a splice, where the ends of ranges are the right way
    round. -/
theorem spliced_of_replaceFrom {base : Nat} {es : List TextEdit} {cs out : List Char}
    (hordered : ∀ e ∈ es, e.range.start ≤ e.range.stop)
    (h : replaceFrom cut? base cs (es.map Replacement.ofEdit) = some out) :
    Spliced base es cs out := by
  induction es generalizing base cs out with
  | nil =>
    cases h
    exact Spliced.nil base cs
  | cons e es ih =>
    have he := hordered e List.mem_cons_self
    obtain ⟨hbase, gap, behind, old, rest, replaced, hgap, hold, hreplaced, rfl⟩ :=
      replaceFrom_cons.mp h
    obtain ⟨rfl, hwgap⟩ := cut?_eq_some hgap
    obtain ⟨rfl, hwold⟩ := cut?_eq_some hold
    have hsum : (Replacement.ofEdit e).offset + (Replacement.ofEdit e).length = e.range.stop :=
      Nat.add_sub_cancel' he
    rw [hsum] at hreplaced
    rw [← List.append_assoc]
    refine Spliced.cons gap old ?_ ?_ (ih (fun a ha => hordered a (List.mem_cons_of_mem e ha))
      hreplaced)
    · rw [hwgap]
      exact (Nat.add_sub_cancel' hbase).symm
    · rw [hwold]
      exact hsum.symm

/-! ## 3. The order along the text -/

theorem standsBefore_of_range_eq {a b : TextEdit} (h : a.range = b.range) :
    standsBefore a b = true := by
  rw [standsBefore_iff, h]
  exact Or.inr ⟨rfl, Nat.le_refl _⟩

/-- Edits that stand before each other have the same range. -/
theorem range_eq_of_standsBefore {a b : TextEdit} (hab : standsBefore a b = true)
    (hba : standsBefore b a = true) : a.range = b.range := by
  rw [standsBefore_iff] at hab hba
  have hstart : a.range.start = b.range.start := by omega
  have hstop : a.range.stop = b.range.stop := by omega
  exact congrArg₂ ByteRange.mk hstart hstop

theorem onRange_cons (r : ByteRange) (e : TextEdit) (es : List TextEdit) :
    onRange r (e :: es) = if e.range = r then e :: onRange r es else onRange r es := by
  simp only [onRange, List.filter_cons, beq_iff_eq]

theorem range_of_mem_onRange {r : ByteRange} {e : TextEdit} {es : List TextEdit}
    (h : e ∈ onRange r es) : e.range = r :=
  beq_iff_eq.mp (List.mem_filter.mp h).2

theorem mem_of_onRange {as bs : List TextEdit} (h : ∀ r, onRange r as = onRange r bs)
    {e : TextEdit} (he : e ∈ as) : e ∈ bs := by
  have hown : e ∈ onRange e.range as := List.mem_filter.mpr ⟨he, beq_self_eq_true _⟩
  rw [h] at hown
  exact (List.mem_filter.mp hown).1

/-- In a sorted list the first edit stands before every edit. -/
theorem standsBefore_of_mem {a e : TextEdit} {as : List TextEdit}
    (h : (a :: as).Pairwise fun a b => standsBefore a b = true) (he : e ∈ a :: as) :
    standsBefore a e = true := by
  rcases List.mem_cons.mp he with rfl | he
  · exact standsBefore_of_range_eq rfl
  · exact List.rel_of_pairwise_cons h he

/-- **Sorted edits are known from the edits of each range.** -/
theorem eq_of_onRange {as bs : List TextEdit}
    (has : as.Pairwise fun a b => standsBefore a b = true)
    (hbs : bs.Pairwise fun a b => standsBefore a b = true)
    (h : ∀ r, onRange r as = onRange r bs) : as = bs := by
  induction as generalizing bs with
  | nil =>
    refine (List.eq_nil_iff_forall_not_mem.mpr fun b hb => ?_).symm
    exact List.not_mem_nil (mem_of_onRange (fun r => (h r).symm) hb)
  | cons a as ih =>
    cases bs with
    | nil => exact absurd (mem_of_onRange h List.mem_cons_self) List.not_mem_nil
    | cons b bs =>
      have hrange : a.range = b.range := by
        refine range_eq_of_standsBefore (standsBefore_of_mem has ?_) (standsBefore_of_mem hbs ?_)
        · exact mem_of_onRange (fun r => (h r).symm) List.mem_cons_self
        · exact mem_of_onRange h List.mem_cons_self
      have hboth := h a.range
      rw [onRange_cons, onRange_cons, if_pos rfl, if_pos hrange.symm] at hboth
      obtain rfl : a = b := (List.cons.inj hboth).1
      refine congrArg (a :: ·) (ih has.of_cons hbs.of_cons fun r => ?_)
      have hr := h r
      rw [onRange_cons, onRange_cons] at hr
      split at hr
      · exact (List.cons.inj hr).2
      · exact hr

/-- Of edits that are apart at most one is of a range that is not empty. -/
theorem onRange_of_apart {edits : List TextEdit} {r : ByteRange}
    (hordered : ∀ e ∈ edits, e.range.start ≤ e.range.stop)
    (hapart : edits.Pairwise fun a b => a.range.Apart b.range) (hr : r.start ≠ r.stop) :
    onRange r edits = [] ∨ ∃ e, onRange r edits = [e] := by
  have hrange : ∀ e ∈ onRange r edits, e.range = r := fun e he => range_of_mem_onRange he
  have hpair : (onRange r edits).Pairwise fun a b => a.range.Apart b.range := hapart.filter _
  cases hes : onRange r edits with
  | nil => exact Or.inl rfl
  | cons a es =>
    cases es with
    | nil => exact Or.inr ⟨a, rfl⟩
    | cons b es =>
      exfalso
      rw [hes] at hrange hpair
      have ha : a ∈ edits := List.mem_of_mem_filter (hes ▸ List.mem_cons_self)
      have hle := hordered a ha
      have hsides := List.rel_of_pairwise_cons hpair List.mem_cons_self
      rw [hrange b (List.mem_cons_of_mem a List.mem_cons_self)] at hsides
      rw [hrange a List.mem_cons_self] at hle hsides
      unfold ByteRange.Apart at hsides
      omega

section Order

variable {edits order : List TextEdit}

/-- In the order along the text the edits of each range are those of the list, the last one
    first. -/
theorem LeftToRight.onRange_eq (h : LeftToRight edits order)
    (hordered : ∀ e ∈ edits, e.range.start ≤ e.range.stop)
    (hapart : edits.Pairwise fun a b => a.range.Apart b.range) (r : ByteRange) :
    onRange r order = (onRange r edits).reverse := by
  by_cases hr : r.start = r.stop
  · have hties := h.ties r.start
    unfold insertionsAt at hties
    rwa [show (⟨r.start, r.start⟩ : ByteRange) = r from congrArg (ByteRange.mk r.start) hr] at hties
  · have hperm : (onRange r order).Perm (onRange r edits) := h.perm.filter _
    rcases onRange_of_apart hordered hapart hr with hnone | ⟨e, hone⟩
    · rw [hnone] at hperm ⊢
      exact hperm.eq_nil
    · rw [hone] at hperm ⊢
      exact List.perm_singleton.mp hperm

/-- **Edits that are apart have one order along the text.** -/
theorem LeftToRight.unique {other : List TextEdit} (h : LeftToRight edits order)
    (h' : LeftToRight edits other) (hordered : ∀ e ∈ edits, e.range.start ≤ e.range.stop)
    (hapart : edits.Pairwise fun a b => a.range.Apart b.range) : other = order := by
  refine eq_of_onRange h'.sorted h.sorted fun r => ?_
  rw [h.onRange_eq hordered hapart, h'.onRange_eq hordered hapart]

/-- Listing the edits in another order keeps the order along the text, as long as insertions at one
    offset stay in the same order. -/
theorem LeftToRight.reorder {edits' : List TextEdit} (h : LeftToRight edits order)
    (hperm : edits'.Perm edits)
    (hties : ∀ offset, insertionsAt offset edits' = insertionsAt offset edits) :
    LeftToRight edits' order where
  perm := h.perm.trans hperm.symm
  sorted := h.sorted
  ties offset := by rw [hties, h.ties]

/-- Sorting keeps the edits of one range in their order. -/
theorem onRange_mergeSort (r : ByteRange) (edits : List TextEdit) :
    onRange r (edits.mergeSort appliesBefore) = onRange r edits := by
  have hsame : (onRange r edits).Pairwise fun a b => appliesBefore a b = true := by
    refine List.pairwise_of_forall_mem_list fun a ha b hb => ?_
    have hrange : b.range = a.range :=
      (range_of_mem_onRange hb).trans (range_of_mem_onRange ha).symm
    show standsBefore b a = true
    exact standsBefore_of_range_eq hrange
  have hsub : (onRange r edits).Sublist (edits.mergeSort appliesBefore) := by
    refine List.sublist_mergeSort ?_ ?_ hsame List.filter_sublist
    · exact fun a b c hab hbc => standsBefore_trans c b a hbc hab
    · exact fun a b => standsBefore_total b a
  have hsub' : (onRange r edits).Sublist (onRange r (edits.mergeSort appliesBefore)) := by
    have htwice : onRange r (onRange r edits) = onRange r edits := by
      simp only [onRange, List.filter_filter, Bool.and_self]
    rw [← htwice]
    exact hsub.filter _
  have hperm : (edits.mergeSort appliesBefore).Perm edits := List.mergeSort_perm ..
  exact (hsub'.eq_of_length (hperm.filter _).length_eq.symm).symm

/-- The edits in the order in which they are applied, read backwards, are in the order along the
    text. -/
theorem leftToRight_reverse (edits : List TextEdit) :
    LeftToRight edits (edits.mergeSort appliesBefore).reverse where
  perm := (List.reverse_perm _).trans (List.mergeSort_perm ..)
  sorted := List.pairwise_reverse.mpr (pairwise_appliesBefore edits)
  ties offset := by
    rw [insertionsAt, onRange, List.filter_reverse]
    exact congrArg List.reverse (onRange_mergeSort _ edits)

end Order

/-! ## 4. The text that edits make -/

section Applying

variable {file : Path} {contents text : List Char} {edits : List TextEdit}

/-- Edits that are applied are made from left to right. -/
theorem spliced_of_applyEdits (h : applyEdits file contents edits = .ok text) :
    Spliced 0 (edits.mergeSort appliesBefore).reverse contents text := by
  have hfrom : applyFrom file (contents ++ []) (edits.mergeSort appliesBefore) (width contents)
      (contents ++ []) = .ok text := by
    rw [List.append_nil]
    exact h
  obtain ⟨out, rfl, hout⟩ := replaceFrom_of_applyFrom hfrom
  rw [List.append_nil]
  refine spliced_of_replaceFrom (fun e he => ?_) (by rw [List.map_reverse]; exact hout)
  have hperm : (edits.mergeSort appliesBefore).Perm edits := List.mergeSort_perm ..
  exact (fits_of_applyEdits h e (hperm.mem_iff.mp (List.mem_reverse.mp he))).ordered

/-- **Edits are applied exactly if each of them fits and every two are apart.** -/
theorem applyEdits_isOk_iff :
    (∃ text, applyEdits file contents edits = .ok text) ↔
      (∀ e ∈ edits, e.range.FitsIn contents) ∧
        edits.Pairwise fun a b => a.range.Apart b.range := by
  constructor
  · rintro ⟨text, h⟩
    exact ⟨fits_of_applyEdits h, apart_of_applyEdits h⟩
  · rintro ⟨hfit, hapart⟩
    exact applyEdits_of_apart file hfit hapart

/-- **Applying edits makes the text that they make from left to right, and no other.** -/
theorem applyEdits_eq_ok_iff :
    applyEdits file contents edits = .ok text ↔
      ∃ order, LeftToRight edits order ∧ Spliced 0 order contents text := by
  constructor
  · intro h
    exact ⟨_, leftToRight_reverse edits, spliced_of_applyEdits h⟩
  · rintro ⟨order, horder, hspliced⟩
    obtain ⟨hfits, hpairs⟩ := hspliced.fits_apart [] rfl
    have hfit : ∀ e ∈ edits, e.range.FitsIn contents :=
      fun e he => (hfits e (horder.perm.mem_iff.mpr he)).1
    have hapart : edits.Pairwise fun a b => a.range.Apart b.range :=
      (horder.perm.pairwise_iff ByteRange.Apart.symm).mp hpairs
    obtain ⟨made, hmade⟩ := applyEdits_of_apart file hfit hapart
    have hsame := horder.unique (leftToRight_reverse edits) (fun e he => (hfit e he).ordered) hapart
    have hspliced' := spliced_of_applyEdits hmade
    rw [hsame] at hspliced'
    rw [hmade, hspliced.unique hspliced']

end Applying

/-- **What applying edits does, whatever their order in the list.** They are applied exactly if the
    range of each fits in the text and every two ranges are apart, one ending where the other begins
    or before it. The text is then the splice from left to right. Listing the edits in another order
    makes the same text, as long as the insertions at each offset stay in the same order. -/
theorem applyEdits_leftToRight (file : Path) (contents : List Char) (edits : List TextEdit) :
    ((∃ text, applyEdits file contents edits = .ok text) ↔
      (∀ e ∈ edits, e.range.FitsIn contents) ∧
        edits.Pairwise fun a b => a.range.Apart b.range) ∧
    (∀ text, applyEdits file contents edits = .ok text ↔
      ∃ order, LeftToRight edits order ∧ Spliced 0 order contents text) ∧
    ∀ text edits', applyEdits file contents edits = .ok text → edits'.Perm edits →
      (∀ offset, insertionsAt offset edits' = insertionsAt offset edits) →
        applyEdits file contents edits' = .ok text := by
  refine ⟨applyEdits_isOk_iff, fun text => applyEdits_eq_ok_iff, ?_⟩
  intro text edits' h hperm hties
  obtain ⟨order, horder, hspliced⟩ := applyEdits_eq_ok_iff.mp h
  exact applyEdits_eq_ok_iff.mpr ⟨order, horder.reorder hperm hties, hspliced⟩

/-- Two insertions at the border of a replacement, and a replacement that touches it. -/
def touchingEdits : List TextEdit :=
  [⟨⟨"a.xml"⟩, ⟨5, 7⟩, "x"⟩, ⟨⟨"a.xml"⟩, ⟨2, 5⟩, "y"⟩, .insertion ⟨"a.xml"⟩ 2 "u",
   .insertion ⟨"a.xml"⟩ 2 "v"]

theorem insertionsAt_touchingEdits {es : List TextEdit} (h : es.Perm touchingEdits) {offset : Nat}
    (hoffset : offset ≠ 2) : insertionsAt offset es = [] := by
  refine List.filter_eq_nil_iff.mpr fun e he hrange => hoffset ?_
  have hstart := congrArg ByteRange.start (beq_iff_eq.mp hrange)
  have hstop := congrArg ByteRange.stop (beq_iff_eq.mp hrange)
  have hmem := h.mem_iff.mp he
  simp only [touchingEdits, List.mem_cons, List.not_mem_nil, or_false] at hmem
  rcases hmem with rfl | rfl | rfl | rfl <;>
    simp only [TextEdit.insertion] at hstart hstop <;> omega

/-- The insertions stay in their order, all else is listed in another one. -/
theorem applyEdits_leftToRight_touching :
    ∃ edits', edits'.Perm touchingEdits ∧ edits' ≠ touchingEdits ∧
      (∀ offset, insertionsAt offset edits' = insertionsAt offset touchingEdits) ∧
      applyEdits ⟨"a.xml"⟩ mixedText touchingEdits = .ok "évuyx6".toList ∧
      applyEdits ⟨"a.xml"⟩ mixedText edits' = .ok "évuyx6".toList := by
  obtain ⟨_, hmakes, hreorder⟩ := applyEdits_leftToRight ⟨"a.xml"⟩ mixedText touchingEdits
  have hspliced : Spliced 0 touchingEdits.reverse mixedText "évuyx6".toList := by
    refine Spliced.cons ['é'] [] (by decide) rfl (Spliced.cons [] [] rfl rfl ?_)
    refine Spliced.cons [] ['1', '2', '3'] rfl (by decide) ?_
    exact Spliced.cons [] ['4', '5'] rfl (by decide) (Spliced.nil 7 ['6'])
  have horder : LeftToRight touchingEdits touchingEdits.reverse :=
    ⟨List.reverse_perm _, by decide, fun _ => List.filter_reverse⟩
  have happly := (hmakes _).mpr ⟨_, horder, hspliced⟩
  have hperm : (touchingEdits.drop 2 ++ touchingEdits.take 2).Perm touchingEdits := by decide
  have hinsertions : ∀ offset, insertionsAt offset (touchingEdits.drop 2 ++ touchingEdits.take 2) =
      insertionsAt offset touchingEdits := by
    intro offset
    by_cases hoffset : offset = 2
    · subst hoffset
      decide
    · rw [insertionsAt_touchingEdits hperm hoffset,
        insertionsAt_touchingEdits (List.Perm.refl _) hoffset]
  exact ⟨_, hperm, by decide, hinsertions, happly, hreorder _ _ happly hperm hinsertions⟩

end AndroidLint.Edits
