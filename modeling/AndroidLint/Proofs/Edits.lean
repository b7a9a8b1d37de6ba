/-
  File:      AndroidLint/Proofs/Edits.lean
  Subject:   Edits that can be made together, and what is left out so that they can.

  Two edits get along when one ends where the other begins, or earlier. Applying looks at the edits
  from the last to the first and compares each with the one before it only; that is enough, because
  they are sorted. Leaving out looks at them from the first to the last:

  * `applyEdits_of_apart`:          edits that fit and are apart from each other can be applied;
  * `applyEdits_eq_overlapping`:    edits that fit and are not all apart are refused as overlapping;
  * `exists_dropped`:               what is left out overlaps something that is kept;
  * `applyEdits_dropOverlapping`:   what is kept can be applied, and nothing is left out without need.
-/
import AndroidLint.Fix.Edit
import AndroidLint.Proofs.Slices

namespace AndroidLint

/-! ## 1. Ranges that are apart -/

namespace ByteRange

/-- One of the ranges ends where the other begins, or before it. -/
def Apart (r s : ByteRange) : Prop := r.stop ≤ s.start ∨ s.stop ≤ r.start

instance (r s : ByteRange) : Decidable (r.Apart s) :=
  inferInstanceAs (Decidable (_ ∨ _))

theorem Apart.symm {r s : ByteRange} (h : r.Apart s) : s.Apart r := Or.symm h

instance (contents : List Char) (r : ByteRange) : Decidable (r.FitsIn contents) :=
  decidable_of_iff (r.start ≤ r.stop ∧ r.stop ≤ Text.width contents ∧
      Text.isBoundary contents r.start = true ∧ Text.isBoundary contents r.stop = true)
    ⟨fun ⟨hordered, hbounded, hstarts, hstops⟩ => ⟨hordered, hbounded, hstarts, hstops⟩,
      fun h => ⟨h.ordered, h.bounded, h.starts, h.stops⟩⟩

end ByteRange

namespace Edits

open Text

theorem inBounds_iff {contents : List Char} {e : TextEdit} :
    inBounds contents e = true ↔ e.range.FitsIn contents := by
  unfold inBounds
  rw [Bool.and_eq_true, Bool.and_eq_true, decide_eq_true_iff]
  constructor
  · rintro ⟨⟨hordered, hstart⟩, hstop⟩
    exact ⟨hordered, le_width_of_isBoundary hstop, hstart, hstop⟩
  · intro h
    exact ⟨⟨h.ordered, h.starts⟩, h.stops⟩

/-! ## 2. The order along the text -/

theorem standsBefore_iff {a b : TextEdit} :
    standsBefore a b = true ↔ a.range.start < b.range.start ∨
      a.range.start = b.range.start ∧ a.range.stop ≤ b.range.stop := by
  unfold standsBefore
  rw [Bool.or_eq_true, Bool.and_eq_true, decide_eq_true_iff, decide_eq_true_iff, beq_iff_eq]

theorem standsBefore_trans (a b c : TextEdit) (hab : standsBefore a b = true)
    (hbc : standsBefore b c = true) : standsBefore a c = true := by
  rw [standsBefore_iff] at *
  omega

theorem standsBefore_total (a b : TextEdit) : (standsBefore a b || standsBefore b a) = true := by
  rw [Bool.or_eq_true, standsBefore_iff, standsBefore_iff]
  omega

theorem pairwise_standsBefore (edits : List TextEdit) :
    (edits.mergeSort standsBefore).Pairwise fun a b => standsBefore a b = true :=
  List.pairwise_mergeSort standsBefore_trans standsBefore_total edits

theorem pairwise_appliesBefore (edits : List TextEdit) :
    (edits.mergeSort appliesBefore).Pairwise fun a b => standsBefore b a = true := by
  refine List.pairwise_mergeSort (fun a b c hab hbc => ?_) (fun a b => ?_) edits
  · exact standsBefore_trans c b a hbc hab
  · exact standsBefore_total b a

/-! ## 3. Edits from the last to the first -/

/-- Each edit ends where the one before it in the list begins, or earlier; the first one ends at
    `limit` or earlier. -/
def Backwards (limit : Nat) : List TextEdit → Prop
  | [] => True
  | e :: es => e.range.stop ≤ limit ∧ Backwards e.range.start es

theorem applyFrom_of_backwards {file : Path} {contents : List Char} {es : List TextEdit}
    {limit : Nat} (hfit : ∀ e ∈ es, e.range.FitsIn contents) (h : Backwards limit es)
    (result : List Char) : ∃ text, applyFrom file contents es limit result = .ok text := by
  induction es generalizing limit result with
  | nil => exact ⟨result, rfl⟩
  | cons e es ih =>
    obtain ⟨hstop, hrest⟩ := h
    have hin := inBounds_iff.mpr (hfit e List.mem_cons_self)
    rw [applyFrom, if_pos hin, if_neg (by omega)]
    exact ih (fun e' he' => hfit e' (List.mem_cons_of_mem e he')) hrest _

theorem applyFrom_eq_overlapping {file : Path} {contents : List Char} {es : List TextEdit}
    {limit : Nat} (hfit : ∀ e ∈ es, e.range.FitsIn contents) (h : ¬ Backwards limit es)
    (result : List Char) :
    applyFrom file contents es limit result = .error (.overlapping file) := by
  induction es generalizing limit result with
  | nil => exact absurd trivial h
  | cons e es ih =>
    have hin := inBounds_iff.mpr (hfit e List.mem_cons_self)
    rw [applyFrom, if_pos hin]
    by_cases hstop : limit < e.range.stop
    · rw [if_pos hstop]
    · rw [if_neg hstop]
      refine ih (fun e' he' => hfit e' (List.mem_cons_of_mem e he')) (fun hrest => ?_) _
      exact h ⟨by omega, hrest⟩

/-- Edits that are applied fit. -/
theorem fits_of_applyFrom {file : Path} {contents result text : List Char} {es : List TextEdit}
    {limit : Nat} (h : applyFrom file contents es limit result = .ok text) :
    ∀ e ∈ es, e.range.FitsIn contents := by
  induction es generalizing limit result with
  | nil => exact fun _ he => nomatch he
  | cons e es ih =>
    rw [applyFrom] at h
    split at h
    · next hin =>
      split at h
      · cases h
      · intro e' he'
        rcases List.mem_cons.mp he' with rfl | he'
        · exact inBounds_iff.mp hin
        · exact ih h e' he'
    · cases h

/-- Sorted edits that are apart stand backwards. -/
theorem backwards_of_apart {es : List TextEdit} {limit : Nat}
    (hsorted : es.Pairwise fun a b => standsBefore b a = true)
    (hapart : es.Pairwise fun a b => a.range.Apart b.range)
    (hordered : ∀ e ∈ es, e.range.start ≤ e.range.stop) (hlimit : ∀ e ∈ es, e.range.stop ≤ limit) :
    Backwards limit es := by
  induction es generalizing limit with
  | nil => trivial
  | cons e es ih =>
    obtain ⟨hbefore, hsorted⟩ := List.pairwise_cons.mp hsorted
    obtain ⟨happ, hapart⟩ := List.pairwise_cons.mp hapart
    refine ⟨hlimit e List.mem_cons_self, ih hsorted hapart ?_ fun e' he' => ?_⟩
    · exact fun e' he' => hordered e' (List.mem_cons_of_mem e he')
    · -- of two edits that are apart the one that is applied later ends first, also when both are
      -- empty or begin at one place
      have hstands := standsBefore_iff.mp (hbefore e' he')
      have hsides := happ e' he'
      have he := hordered e List.mem_cons_self
      unfold ByteRange.Apart at hsides
      omega

/-- Edits that stand backwards are apart, not only neighbours. -/
theorem apart_of_backwards {es : List TextEdit} {limit : Nat} (h : Backwards limit es)
    (hordered : ∀ e ∈ es, e.range.start ≤ e.range.stop) :
    es.Pairwise (fun a b => a.range.Apart b.range) ∧ ∀ e ∈ es, e.range.stop ≤ limit := by
  induction es generalizing limit with
  | nil => exact ⟨List.Pairwise.nil, fun _ h => nomatch h⟩
  | cons e es ih =>
    obtain ⟨hstop, hrest⟩ := h
    have he := hordered e List.mem_cons_self
    obtain ⟨hapart, hlimit⟩ := ih hrest fun e' he' => hordered e' (List.mem_cons_of_mem e he')
    refine ⟨List.pairwise_cons.mpr ⟨fun e' he' => Or.inr (hlimit e' he'), hapart⟩, ?_⟩
    intro e' he'
    rcases List.mem_cons.mp he' with rfl | he'
    · exact hstop
    · have := hlimit e' he'
      omega

/-! ## 4. Applying -/

section Applying

variable {contents : List Char} {edits : List TextEdit}

theorem fits_of_applyEdits {file : Path} {text : List Char}
    (h : applyEdits file contents edits = .ok text) : ∀ e ∈ edits, e.range.FitsIn contents := by
  have hperm : (edits.mergeSort appliesBefore).Perm edits := List.mergeSort_perm ..
  exact fun e he => fits_of_applyFrom h e (hperm.mem_iff.mpr he)

/-- Sorted edits stand backwards exactly if no two of them overlap. -/
theorem backwards_mergeSort (hfit : ∀ e ∈ edits, e.range.FitsIn contents) :
    Backwards (width contents) (edits.mergeSort appliesBefore) ↔
      edits.Pairwise fun a b => a.range.Apart b.range := by
  have hperm : (edits.mergeSort appliesBefore).Perm edits := List.mergeSort_perm ..
  have hfit' : ∀ e ∈ edits.mergeSort appliesBefore, e.range.FitsIn contents :=
    fun e he => hfit e (hperm.mem_iff.mp he)
  rw [← hperm.pairwise_iff ByteRange.Apart.symm]
  constructor
  · intro h
    exact (apart_of_backwards h fun e he => (hfit' e he).ordered).1
  · intro h
    exact backwards_of_apart (pairwise_appliesBefore edits) h (fun e he => (hfit' e he).ordered)
      fun e he => (hfit' e he).bounded

/-- **Edits that fit and are apart from each other can be applied together.** -/
theorem applyEdits_of_apart (file : Path) (hfit : ∀ e ∈ edits, e.range.FitsIn contents)
    (hapart : edits.Pairwise fun a b => a.range.Apart b.range) :
    ∃ text, applyEdits file contents edits = .ok text := by
  have hperm : (edits.mergeSort appliesBefore).Perm edits := List.mergeSort_perm ..
  refine applyFrom_of_backwards (fun e he => hfit e (hperm.mem_iff.mp he)) ?_ contents
  exact (backwards_mergeSort hfit).mpr hapart

/-- **Edits that fit and are not all apart are refused as overlapping.** -/
theorem applyEdits_eq_overlapping (file : Path) (hfit : ∀ e ∈ edits, e.range.FitsIn contents)
    (hapart : ¬ edits.Pairwise fun a b => a.range.Apart b.range) :
    applyEdits file contents edits = .error (.overlapping file) := by
  have hperm : (edits.mergeSort appliesBefore).Perm edits := List.mergeSort_perm ..
  refine applyFrom_eq_overlapping (fun e he => hfit e (hperm.mem_iff.mp he)) (fun h => ?_) contents
  exact hapart ((backwards_mergeSort hfit).mp h)

/-- Edits that are applied are apart from each other. -/
theorem apart_of_applyEdits {file : Path} {text : List Char}
    (h : applyEdits file contents edits = .ok text) :
    edits.Pairwise fun a b => a.range.Apart b.range := by
  refine Decidable.byContradiction fun hapart => ?_
  rw [applyEdits_eq_overlapping file (fits_of_applyEdits h) hapart] at h
  cases h

end Applying

/-! ## 5. Leaving out -/

theorem overlaps_iff {k e : TextEdit} :
    overlaps k e = true ↔ e.range.start < k.range.stop ∨
      e.range = k.range ∧ e.range.stop ≤ e.range.start := by
  unfold overlaps ByteRange.isEmpty
  rw [Bool.or_eq_true, Bool.and_eq_true, decide_eq_true_iff, decide_eq_true_iff, beq_iff_eq]

/-- Two edits that cannot both be kept: they are not apart, or both insert at one place. -/
def Clash (e k : TextEdit) : Prop :=
  ¬ e.range.Apart k.range ∨ e.range = k.range ∧ e.range.start = e.range.stop

/-- An edit that overlaps one before it clashes with it. -/
theorem clash_of_overlaps {k e : TextEdit} (he : e.range.start ≤ e.range.stop)
    (hstands : standsBefore k e = true) (h : overlaps k e = true) : Clash e k := by
  rw [standsBefore_iff] at hstands
  rcases overlaps_iff.mp h with hinside | ⟨hrange, hempty⟩
  · refine Or.inl fun hapart => ?_
    unfold ByteRange.Apart at hapart
    omega
  · exact Or.inr ⟨hrange, Nat.le_antisymm he hempty⟩

theorem exists_of_any {last : Option TextEdit} {e : TextEdit}
    (h : last.any (overlaps · e) = true) : ∃ k, last = some k ∧ overlaps k e = true := by
  cases last with
  | none => cases h
  | some k => exact ⟨k, rfl, h⟩

theorem keepFrom_sublist (last : Option TextEdit) (es : List TextEdit) :
    (keepFrom last es).Sublist es := by
  induction es generalizing last with
  | nil => exact List.Sublist.refl _
  | cons e es ih =>
    rw [keepFrom]
    split
    · exact (ih last).cons e
    · exact (ih (some e)).cons_cons e

/-- What is kept behind an edit begins where that one ends, or later. -/
theorem stop_le_of_mem_keepFrom {es : List TextEdit} {last k : TextEdit}
    (hordered : ∀ e ∈ es, e.range.start ≤ e.range.stop) (hk : k ∈ keepFrom (some last) es) :
    last.range.stop ≤ k.range.start := by
  induction es generalizing last with
  | nil => cases hk
  | cons e es ih =>
    have he := hordered e List.mem_cons_self
    have hrest : ∀ e' ∈ es, e'.range.start ≤ e'.range.stop :=
      fun e' he' => hordered e' (List.mem_cons_of_mem e he')
    rw [keepFrom] at hk
    split at hk
    · exact ih hrest hk
    · next hclear =>
      have hlast : last.range.stop ≤ e.range.start := by
        refine Nat.le_of_not_lt fun hlt => hclear ?_
        exact overlaps_iff.mpr (Or.inl hlt)
      rcases List.mem_cons.mp hk with rfl | hk
      · exact hlast
      · have := ih hrest hk
        omega

/-- What is kept is apart from each other. -/
theorem keepFrom_apart {es : List TextEdit} (last : Option TextEdit)
    (hordered : ∀ e ∈ es, e.range.start ≤ e.range.stop) :
    (keepFrom last es).Pairwise fun a b => a.range.Apart b.range := by
  induction es generalizing last with
  | nil => exact List.Pairwise.nil
  | cons e es ih =>
    have hrest : ∀ e' ∈ es, e'.range.start ≤ e'.range.stop :=
      fun e' he' => hordered e' (List.mem_cons_of_mem e he')
    rw [keepFrom]
    split
    · exact ih last hrest
    · refine List.pairwise_cons.mpr ⟨fun k hk => Or.inl ?_, ih (some e) hrest⟩
      exact stop_le_of_mem_keepFrom hrest hk

/-- The edits are those that are kept and others, each of which clashes with one that is kept or with
    the one that was kept last before. -/
theorem keepFrom_dropped {es : List TextEdit} (last : Option TextEdit)
    (hordered : ∀ e ∈ es, e.range.start ≤ e.range.stop)
    (hsorted : es.Pairwise fun a b => standsBefore a b = true)
    (hlast : ∀ k, last = some k → ∀ e ∈ es, standsBefore k e = true) :
    ∃ dropped, (keepFrom last es ++ dropped).Perm es ∧
      ∀ e ∈ dropped, ∃ k, (last = some k ∨ k ∈ keepFrom last es) ∧ Clash e k := by
  induction es generalizing last with
  | nil => exact ⟨[], List.Perm.refl _, fun _ h => nomatch h⟩
  | cons e es ih =>
    obtain ⟨hfirst, hsorted⟩ := List.pairwise_cons.mp hsorted
    have he := hordered e List.mem_cons_self
    have hrest : ∀ e' ∈ es, e'.range.start ≤ e'.range.stop :=
      fun e' he' => hordered e' (List.mem_cons_of_mem e he')
    rw [keepFrom]
    split
    · next hover =>
      obtain ⟨k, hk, hoverlaps⟩ := exists_of_any hover
      obtain ⟨dropped, hperm, hdropped⟩ := ih last hrest hsorted fun k' hk' e' he' =>
        hlast k' hk' e' (List.mem_cons_of_mem e he')
      refine ⟨e :: dropped, List.perm_middle.trans (hperm.cons e), fun e' he' => ?_⟩
      rcases List.mem_cons.mp he' with rfl | he'
      · refine ⟨k, Or.inl hk, ?_⟩
        exact clash_of_overlaps he (hlast k hk e' List.mem_cons_self) hoverlaps
      · exact hdropped e' he'
    · obtain ⟨dropped, hperm, hdropped⟩ := ih (some e) hrest hsorted fun k hk => by
        cases hk
        exact hfirst
      refine ⟨dropped, hperm.cons e, fun e' he' => ?_⟩
      obtain ⟨k, hk, hclash⟩ := hdropped e' he'
      refine ⟨k, Or.inr ?_, hclash⟩
      rcases hk with hk | hk
      · cases hk
        exact List.mem_cons_self
      · exact List.mem_cons_of_mem e hk

section Dropping

variable {edits : List TextEdit}

theorem dropOverlapping_apart (hordered : ∀ e ∈ edits, e.range.start ≤ e.range.stop) :
    (dropOverlapping edits).Pairwise fun a b => a.range.Apart b.range := by
  have hperm : (edits.mergeSort standsBefore).Perm edits := List.mergeSort_perm ..
  exact keepFrom_apart none fun e he => hordered e (hperm.mem_iff.mp he)

/-- **The edits are those that are kept and others, each of which clashes with one that is kept.** -/
theorem exists_dropped (hordered : ∀ e ∈ edits, e.range.start ≤ e.range.stop) :
    ∃ dropped, (dropOverlapping edits ++ dropped).Perm edits ∧
      ∀ e ∈ dropped, ∃ k ∈ dropOverlapping edits, Clash e k := by
  have hperm : (edits.mergeSort standsBefore).Perm edits := List.mergeSort_perm ..
  obtain ⟨dropped, hsplit, hdropped⟩ := keepFrom_dropped none
    (fun e he => hordered e (hperm.mem_iff.mp he)) (pairwise_standsBefore edits)
    (fun _ h => nomatch h)
  refine ⟨dropped, hsplit.trans hperm, fun e he => ?_⟩
  obtain ⟨k, hk, hclash⟩ := hdropped e he
  rcases hk with hk | hk
  · cases hk
  · exact ⟨k, hk, hclash⟩

end Dropping

/-- Two edits that fit and are not apart are refused, in either order. -/
theorem applyEdits_pair {contents : List Char} {a b : TextEdit} (file : Path)
    (ha : a.range.FitsIn contents) (hb : b.range.FitsIn contents)
    (h : ¬ a.range.Apart b.range) :
    applyEdits file contents [a, b] = .error (.overlapping file) := by
  refine applyEdits_eq_overlapping file (fun e he => ?_) fun hpair => ?_
  · rcases List.mem_cons.mp he with rfl | he
    · exact ha
    · rw [List.mem_singleton.mp he]
      exact hb
  · exact h (List.rel_of_pairwise_cons hpair List.mem_cons_self)

/-- **Of edits that fit one by one, in any order and with any overlaps, those that are kept can be
    applied.** They are some of the edits, and every other one clashes with one of them: the two are
    refused as overlapping, or they insert at the same place. -/
theorem applyEdits_dropOverlapping (file : Path) (contents : List Char) (edits : List TextEdit)
    (hfit : ∀ e ∈ edits, e.range.FitsIn contents) :
    (∃ text, applyEdits file contents (dropOverlapping edits) = .ok text) ∧
      ∃ dropped, (dropOverlapping edits ++ dropped).Perm edits ∧
        ∀ e ∈ dropped, ∃ k ∈ dropOverlapping edits,
          (applyEdits file contents [e, k] = .error (.overlapping file) ∧
            applyEdits file contents [k, e] = .error (.overlapping file)) ∨
          (e.range = k.range ∧ e.range.start = e.range.stop) := by
  have hordered : ∀ e ∈ edits, e.range.start ≤ e.range.stop := fun e he => (hfit e he).ordered
  obtain ⟨dropped, hsplit, hdropped⟩ := exists_dropped hordered
  have hkept : ∀ k ∈ dropOverlapping edits, k.range.FitsIn contents :=
    fun k hk => hfit k (hsplit.mem_iff.mp (List.mem_append_left dropped hk))
  refine ⟨applyEdits_of_apart file hkept (dropOverlapping_apart hordered), dropped, hsplit, ?_⟩
  intro e he
  obtain ⟨k, hk, hclash⟩ := hdropped e he
  have hefit := hfit e (hsplit.mem_iff.mp (List.mem_append_right _ he))
  refine ⟨k, hk, ?_⟩
  rcases hclash with hnot | hinsert
  · refine Or.inl ⟨applyEdits_pair file hefit (hkept k hk) hnot, ?_⟩
    exact applyEdits_pair file (hkept k hk) hefit fun hapart => hnot hapart.symm
  · exact Or.inr hinsert

/-- A text with a character of two bytes, and edits of it that come in no order: two insertions at
    one place, a replacement that begins there, one inside that, and one that touches it. -/
def mixedText : List Char := "é123456".toList

@[inherit_doc mixedText]
def mixedEdits : List TextEdit :=
  [⟨⟨"a.xml"⟩, ⟨5, 7⟩, "x"⟩, ⟨⟨"a.xml"⟩, ⟨2, 5⟩, "y"⟩, .insertion ⟨"a.xml"⟩ 2 "u",
   .insertion ⟨"a.xml"⟩ 2 "v", ⟨⟨"a.xml"⟩, ⟨3, 4⟩, "z"⟩]

theorem applyEdits_dropOverlapping_mixed :
    (∀ e ∈ mixedEdits, e.range.FitsIn mixedText) ∧
      (dropOverlapping mixedEdits).map (·.replacement) = ["u", "y", "x"] ∧
      (∃ text, applyEdits ⟨"a.xml"⟩ mixedText (dropOverlapping mixedEdits) = .ok text) ∧
      ∃ dropped, (dropOverlapping mixedEdits ++ dropped).Perm mixedEdits ∧
        ∀ e ∈ dropped, ∃ k ∈ dropOverlapping mixedEdits,
          (applyEdits ⟨"a.xml"⟩ mixedText [e, k] = .error (.overlapping ⟨"a.xml"⟩) ∧
            applyEdits ⟨"a.xml"⟩ mixedText [k, e] = .error (.overlapping ⟨"a.xml"⟩)) ∨
          (e.range = k.range ∧ e.range.start = e.range.stop) := by
  have hfit : ∀ e ∈ mixedEdits, e.range.FitsIn mixedText := by decide +kernel
  have hkept : (dropOverlapping mixedEdits).map (·.replacement) = ["u", "y", "x"] := by
    simp [dropOverlapping, mixedEdits, TextEdit.insertion, List.mergeSort,
      List.MergeSort.Internal.splitInTwo, List.splitAt, List.splitAt.go, standsBefore, keepFrom,
      overlaps, ByteRange.isEmpty]
  exact ⟨hfit, hkept, applyEdits_dropOverlapping ⟨"a.xml"⟩ mixedText mixedEdits hfit⟩

end Edits

end AndroidLint
