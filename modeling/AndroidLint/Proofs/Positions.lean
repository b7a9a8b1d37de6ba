/-
  File:      AndroidLint/Proofs/Positions.lean
  Subject:   Lines and columns are in the order of the offsets.

  A position is a line and a column, compared by line first. Going on by one character always leads
  to a greater position, so offsets between characters and their positions are in the same order:

  * `position_eq`:             lines count line feeds, columns the characters behind the last one;
  * `isGreatest_clamp`:        the boundary that an offset is moved back to;
  * `strictMonoOn_position`:   greater boundaries have greater positions;
  * `resolve_orderEmbedding`:  spans, and the incidents of a file, are ordered by their offsets.
-/
import AndroidLint.Proofs.ReportOrder
import AndroidLint.Proofs.Slices
import Mathlib.Data.List.Induction
import Mathlib.Data.Prod.Lex
import Mathlib.Order.Bounds.Defs
import Mathlib.Order.Monotone.Defs

namespace AndroidLint

namespace Text

/-! ## 1. Going on by characters -/

theorem lineColumn_append (as bs : List Char) :
    lineColumn (as ++ bs) = bs.foldl advance (lineColumn as) :=
  List.foldl_append

theorem lt_advance (p : Nat × Nat) (c : Char) : toLex p < toLex (advance p c) := by
  rw [Prod.Lex.toLex_lt_toLex, advance]
  split
  · exact .inl (Nat.lt_succ_self p.1)
  · exact .inr ⟨rfl, Nat.lt_succ_self p.2⟩

theorem le_foldl_advance (p : Nat × Nat) (cs : List Char) :
    toLex p ≤ toLex (cs.foldl advance p) := by
  induction cs generalizing p with
  | nil => exact le_rfl
  | cons c cs ih => exact (lt_advance p c).le.trans (ih (advance p c))

/-- Further characters lead to a greater position. -/
theorem lineColumn_lt_append (as : List Char) {bs : List Char} (h : bs ≠ []) :
    toLex (lineColumn as) < toLex (lineColumn (as ++ bs)) := by
  rw [lineColumn_append]
  cases bs with
  | nil => exact absurd rfl h
  | cons c cs => exact (lt_advance _ c).trans_le (le_foldl_advance _ cs)

/-- The line is one more than the line feeds, the column the number of characters behind the last
    line feed. -/
theorem lineColumn_eq (cs : List Char) :
    lineColumn cs = (cs.count '\n' + 1, (cs.reverse.takeWhile (· != '\n')).length) := by
  induction cs using List.reverseRecOn with
  | nil => rfl
  | append_singleton cs c ih =>
    rw [lineColumn_append, List.foldl_cons, List.foldl_nil, ih, List.count_append,
      List.reverse_append, List.reverse_singleton, List.singleton_append, advance]
    by_cases hc : c = '\n'
    · rw [if_pos hc, hc]
      rfl
    · have hcount : [c].count '\n' = 0 := List.count_eq_zero.mpr (by simpa using Ne.symm hc)
      have htail : (c :: cs.reverse).takeWhile (· != '\n') =
          c :: cs.reverse.takeWhile (· != '\n') :=
        List.takeWhile_cons_of_pos (bne_iff_ne.mpr hc)
      rw [if_neg hc, hcount, htail]
      rfl

/-! ## 2. The boundary at or below an offset -/

theorem isBoundary_clamp (n : Nat) (cs : List Char) : isBoundary cs (clamp n cs) = true := by
  have h := isBoundary_width (before n cs) (after n cs)
  rwa [before_append_after, width_before] at h

theorem clamp_le (n : Nat) (cs : List Char) : clamp n cs ≤ n := by
  fun_induction clamp n cs with
  | case1 => exact Nat.le_refl 0
  | case2 => exact Nat.zero_le _
  | case3 n c cs hfits ih => omega
  | case4 => exact Nat.zero_le _

/-- No boundary lies between an offset and the one it is moved back to. -/
theorem le_clamp {cs : List Char} {b n : Nat} (hb : isBoundary cs b = true) (hle : b ≤ n) :
    b ≤ clamp n cs := by
  obtain ⟨as, bs, rfl, rfl⟩ := exists_parts_of_isBoundary hb
  obtain ⟨k, rfl⟩ := Nat.exists_eq_add_of_le hle
  rw [← width_before, before_width_add, width_append]
  exact Nat.le_add_right _ _

/-- **An offset is moved back to the greatest boundary that is not above it.** -/
theorem isGreatest_clamp (n : Nat) (cs : List Char) :
    IsGreatest {b | isBoundary cs b = true ∧ b ≤ n} (clamp n cs) :=
  ⟨⟨isBoundary_clamp n cs, clamp_le n cs⟩, fun _ hb => le_clamp hb.1 hb.2⟩

/-! ## 3. Positions of offsets -/

/-- The line and the column of an offset, compared by line first. -/
def position (cs : List Char) (n : Nat) : Nat ×ₗ Nat := toLex (lineColumn (before n cs))

/-- **Positions count line feeds, and the characters behind the last one.** -/
theorem position_eq (cs : List Char) (n : Nat) :
    position cs n = toLex ((before n cs).count '\n' + 1,
      ((before n cs).reverse.takeWhile (· != '\n')).length) :=
  congrArg toLex (lineColumn_eq (before n cs))

theorem position_lt {cs : List Char} {a b : Nat} (ha : isBoundary cs a = true)
    (hb : isBoundary cs b = true) (hlt : a < b) : position cs a < position cs b := by
  obtain ⟨as, rest, hfirst, rfl⟩ := exists_parts_of_isBoundary ha
  obtain ⟨front, bs, hsecond, rfl⟩ := exists_parts_of_isBoundary hb
  obtain ⟨mid, rfl, rfl⟩ := exists_append_of_width_le (hfirst.symm.trans hsecond) hlt.le
  have hmid : mid ≠ [] := by
    rintro rfl
    rw [List.append_nil] at hlt
    exact Nat.lt_irrefl _ hlt
  have hbefore : before (width as) cs = as := by rw [hfirst, before_width]
  have hbefore' : before (width (as ++ mid)) cs = as ++ mid := by rw [hsecond, before_width]
  rw [position, position, hbefore, hbefore']
  exact lineColumn_lt_append as hmid

/-- **Of two boundaries of a text the greater one has the greater position.** -/
theorem strictMonoOn_position (cs : List Char) :
    StrictMonoOn (position cs) {n | isBoundary cs n = true} :=
  fun _ ha _ hb => position_lt ha hb

theorem compare_position {cs : List Char} {a b : Nat} (ha : isBoundary cs a = true)
    (hb : isBoundary cs b = true) : compare (position cs a) (position cs b) = compare a b := by
  rcases Nat.lt_trichotomy a b with hlt | rfl | hgt
  · rw [compare_lt_iff_lt.mpr hlt]
    exact compare_lt_iff_lt.mpr (position_lt ha hb hlt)
  · exact (compare_eq_iff_eq.mpr rfl).trans (compare_eq_iff_eq.mpr (rfl : a = a)).symm
  · rw [compare_gt_iff_gt.mpr hgt]
    exact compare_gt_iff_gt.mpr (position_lt hb ha hgt)

end Text

/-! ## 4. Spans -/

namespace Span

open Text

/-- Where a span begins. -/
def beginning (s : Span) : Nat ×ₗ Nat := toLex (s.line, s.column)

/-- Where a span ends. -/
def ending (s : Span) : Nat ×ₗ Nat := toLex (s.endLine, s.endColumn)

section Resolve

variable (contents : List Char) (r : ByteRange)

theorem beginning_resolve :
    (resolve contents r).beginning = position contents (resolve contents r).start := rfl

theorem ending_resolve :
    (resolve contents r).ending = position contents (resolve contents r).stop := rfl

theorem isBoundary_start_resolve : isBoundary contents (resolve contents r).start = true :=
  isBoundary_clamp r.start contents

theorem isBoundary_stop_resolve : isBoundary contents (resolve contents r).stop = true :=
  isBoundary_clamp _ contents

/-- The start is moved back first, so that it is not above what the end is moved back from. -/
theorem start_resolve_le_stop : (resolve contents r).start ≤ (resolve contents r).stop :=
  le_clamp (isBoundary_start_resolve contents r) (Nat.le_max_right _ _)

theorem fitsIn_resolve :
    ByteRange.FitsIn contents ⟨(resolve contents r).start, (resolve contents r).stop⟩ where
  ordered := start_resolve_le_stop contents r
  bounded := le_width_of_isBoundary (isBoundary_stop_resolve contents r)
  starts := isBoundary_start_resolve contents r
  stops := isBoundary_stop_resolve contents r

theorem beginning_resolve_le_ending :
    (resolve contents r).beginning ≤ (resolve contents r).ending :=
  (strictMonoOn_position contents).monotoneOn (isBoundary_start_resolve contents r)
    (isBoundary_stop_resolve contents r) (start_resolve_le_stop contents r)

end Resolve

/-- Lines and then columns compare as the starts do. -/
theorem compare_resolve (contents : List Char) (r q : ByteRange) :
    (compare (resolve contents r).line (resolve contents q).line).then
        (compare (resolve contents r).column (resolve contents q).column) =
      compare (resolve contents r).start (resolve contents q).start :=
  compare_position (isBoundary_start_resolve contents r) (isBoundary_start_resolve contents q)

end Span

/-! ## 5. Incidents of a file -/

namespace Incident

open AndroidLint.Span (resolve compare_resolve)

variable {a b : Incident} {contents : List Char} {r q : ByteRange}

/-- Incidents of a file are compared by their starts, then by issue and message. -/
theorem compare_key (hfile : a.location.file.display = b.location.file.display)
    (ha : a.location.span = some (resolve contents r))
    (hb : b.location.span = some (resolve contents q)) :
    a.key.compare b.key =
      (compare (resolve contents r).start (resolve contents q).start).then
        ((compare a.issue.id b.issue.id).then (compare a.message b.message)) := by
  have hline : a.key.line = (resolve contents r).line := by simp [key, Location.line, ha]
  have hline' : b.key.line = (resolve contents q).line := by simp [key, Location.line, hb]
  have hcolumn : a.key.column = (resolve contents r).column := by simp [key, Location.column, ha]
  have hcolumn' : b.key.column = (resolve contents q).column := by simp [key, Location.column, hb]
  have hpath : compare a.key.path b.key.path = .eq := Std.compare_eq_iff_eq.mpr hfile
  rw [SortKey.compare, hpath, hline, hline', hcolumn, hcolumn', ← compare_resolve,
    Ordering.then_assoc]
  rfl

/-- In a report no incident of a file starts before one that stands in front of it. -/
theorem start_le_of_before (h : Before a b)
    (hfile : a.location.file.display = b.location.file.display)
    (ha : a.location.span = some (resolve contents r))
    (hb : b.location.span = some (resolve contents q)) :
    (resolve contents r).start ≤ (resolve contents q).start := by
  rw [Before, compare_key hfile ha hb] at h
  refine compare_le_iff_le.mp fun hgt => ?_
  rw [hgt] at h
  cases h

end Incident

/-! ## 6. All together -/

/-- **Resolving is an order embedding.** Every range becomes one that fits in the text: its ends are
    moved back to the nearest boundaries, the end not below the start. The positions of boundaries
    increase strictly with them, so no two boundaries share one, and a span does not end before it
    begins. Incidents of a file are compared by their starts, and reported in the order of these. -/
theorem Span.resolve_orderEmbedding (contents : List Char) :
    (∀ r, ByteRange.FitsIn contents ⟨(resolve contents r).start, (resolve contents r).stop⟩ ∧
      IsGreatest {n | Text.isBoundary contents n = true ∧ n ≤ r.start}
        (resolve contents r).start ∧
      IsGreatest {n | Text.isBoundary contents n = true ∧ n ≤ max r.stop (resolve contents r).start}
        (resolve contents r).stop ∧
      (resolve contents r).beginning = Text.position contents (resolve contents r).start ∧
      (resolve contents r).ending = Text.position contents (resolve contents r).stop ∧
      (resolve contents r).beginning ≤ (resolve contents r).ending) ∧
    (∀ n, Text.position contents n = toLex ((Text.before n contents).count '\n' + 1,
      ((Text.before n contents).reverse.takeWhile (· != '\n')).length)) ∧
    StrictMonoOn (Text.position contents) {n | Text.isBoundary contents n = true} ∧
    Set.InjOn (Text.position contents) {n | Text.isBoundary contents n = true} ∧
    (∀ (a b : Incident) (r q : ByteRange),
      a.location.file.display = b.location.file.display →
      a.location.span = some (resolve contents r) → b.location.span = some (resolve contents q) →
      a.key.compare b.key =
        (compare (resolve contents r).start (resolve contents q).start).then
          ((compare a.issue.id b.issue.id).then (compare a.message b.message))) ∧
    ∀ is : List Incident, (Incident.report is).Pairwise fun a b => ∀ r q : ByteRange,
      a.location.file.display = b.location.file.display →
      a.location.span = some (resolve contents r) → b.location.span = some (resolve contents q) →
      (resolve contents r).start ≤ (resolve contents q).start := by
  refine ⟨fun r => ⟨fitsIn_resolve contents r, Text.isGreatest_clamp r.start contents,
      Text.isGreatest_clamp _ contents, beginning_resolve contents r, ending_resolve contents r,
      beginning_resolve_le_ending contents r⟩, Text.position_eq contents,
    Text.strictMonoOn_position contents, (Text.strictMonoOn_position contents).injOn,
    fun a b r q => Incident.compare_key, fun is => ?_⟩
  exact (Incident.report_increasing is).imp fun hlt r q => Incident.start_le_of_before hlt

end AndroidLint
