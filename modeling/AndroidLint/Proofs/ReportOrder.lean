/-
  File:      AndroidLint/Proofs/ReportOrder.lean
  Subject:   What a list of incidents comes to when it is reported.

  Incidents are sorted, those with equal keys in the order they were found in, and of neighbours
  with equal keys the first one is kept. A report is therefore known by two things, its order and
  the first incident found for each key:

  * `report_increasing`:  the keys of a report increase strictly;
  * `withKey?_report`:    for every key a report holds the first incident found with it;
  * `report_congr`:       lists with the same first incident for every key give the same report.
-/
import AndroidLint.Incident

namespace AndroidLint

/-! ## 1. The order of keys -/

namespace SortKey

/-- The parts of a key are compared one after the other. -/
theorem compare_eq_compareLex :
    SortKey.compare = compareLex (compareOn path) (compareLex (compareOn line)
      (compareLex (compareOn column) (compareLex (compareOn id) (compareOn message)))) := rfl

instance : Std.TransCmp SortKey.compare := by
  rw [compare_eq_compareLex]
  infer_instance

/-- Keys that are neither before nor after each other are equal. -/
theorem eq_of_compare {a b : SortKey} (h : a.compare b = .eq) : a = b := by
  simp only [SortKey.compare, Ordering.then_eq_eq, Std.compare_eq_iff_eq] at h
  obtain ⟨hpath, hline, hcolumn, hid, hmessage⟩ := h
  cases a
  cases b
  simp only [SortKey.mk.injEq]
  exact ⟨hpath, hline, hcolumn, hid, hmessage⟩

theorem compare_self (a : SortKey) : a.compare a = .eq := Std.ReflCmp.compare_self

theorem le_refl (a : SortKey) : a.le a = true := by
  rw [le, compare_self]
  rfl

theorem le_trans {a b c : SortKey} (hab : a.le b = true) (hbc : b.le c = true) : a.le c = true :=
  Std.TransCmp.isLE_trans hab hbc

theorem le_total (a b : SortKey) : (a.le b || b.le a) = true := by
  have hswap : a.compare b = (b.compare a).swap := Std.OrientedCmp.eq_swap
  rw [le, le, hswap]
  cases b.compare a <;> rfl

/-- A key that stands before another one or equals it stands before it when it is another. -/
theorem lt_of_le_of_ne {a b : SortKey} (h : a.le b = true) (hne : a ≠ b) : a.compare b = .lt := by
  rcases Ordering.isLE_iff_eq_lt_or_eq_eq.mp h with hlt | heq
  · exact hlt
  · exact absurd (eq_of_compare heq) hne

theorem ne_of_lt {a b : SortKey} (h : a.compare b = .lt) : a ≠ b := by
  rintro rfl
  rw [compare_self] at h
  cases h

end SortKey

namespace Incident

/-! ## 2. The first incident with a key -/

/-- The first incident with a key. -/
def withKey? (k : SortKey) (is : List Incident) : Option Incident := is.find? (·.key = k)

theorem withKey?_cons_of_eq {k : SortKey} {i : Incident} (h : i.key = k) (is : List Incident) :
    withKey? k (i :: is) = some i :=
  List.find?_cons_of_pos (decide_eq_true h)

theorem withKey?_cons_of_ne {k : SortKey} {i : Incident} (h : i.key ≠ k) (is : List Incident) :
    withKey? k (i :: is) = withKey? k is :=
  List.find?_cons_of_neg (by simpa using h)

theorem withKey?_append (k : SortKey) (is js : List Incident) :
    withKey? k (is ++ js) = (withKey? k is).or (withKey? k js) :=
  List.find?_append

theorem key_of_withKey? {k : SortKey} {is : List Incident} {i : Incident}
    (h : withKey? k is = some i) : i.key = k := by
  have hk := List.find?_some h
  exact of_decide_eq_true hk

theorem mem_of_withKey? {k : SortKey} {is : List Incident} {i : Incident}
    (h : withKey? k is = some i) : i ∈ is :=
  List.mem_of_find?_eq_some h

/-- The key of an incident in a list has a first incident. -/
theorem exists_withKey? {is : List Incident} {i : Incident} (h : i ∈ is) :
    ∃ j, withKey? i.key is = some j :=
  Option.isSome_iff_exists.mp (List.find?_isSome.mpr ⟨i, h, decide_eq_true rfl⟩)

/-! ## 3. Lists in strict order -/

/-- An incident is reported before another one. -/
def Before (i j : Incident) : Prop := i.key.compare j.key = .lt

/-- The keys of a list of incidents increase strictly. -/
def Increasing (is : List Incident) : Prop := is.Pairwise Before

/-- In strict order every incident is the only one with its key. -/
theorem mem_iff_withKey? {is : List Incident} (h : Increasing is) (i : Incident) :
    i ∈ is ↔ withKey? i.key is = some i := by
  refine ⟨fun hi => ?_, mem_of_withKey?⟩
  induction is with
  | nil => cases hi
  | cons j is ih =>
    obtain ⟨hj, his⟩ := List.pairwise_cons.mp h
    rcases List.mem_cons.mp hi with rfl | hmem
    · exact withKey?_cons_of_eq rfl is
    · rw [withKey?_cons_of_ne (SortKey.ne_of_lt (hj i hmem)), ih his hmem]

/-- A list in strict order has nothing twice. -/
theorem Increasing.nodup {is : List Incident} (h : Increasing is) : is.Nodup :=
  h.imp fun hlt heq => SortKey.ne_of_lt hlt (congrArg key heq)

/-- Lists in strict order with the same incident for every key are equal. -/
theorem Increasing.eq_of_withKey? {is js : List Incident} (hi : Increasing is)
    (hj : Increasing js) (h : ∀ k, withKey? k is = withKey? k js) : is = js := by
  have hperm : is.Perm js := (List.perm_ext_iff_of_nodup hi.nodup hj.nodup).mpr fun i => by
    rw [mem_iff_withKey? hi, mem_iff_withKey? hj, h]
  refine List.Perm.eq_of_pairwise (fun a b _ _ hab hba => ?_) hi hj hperm
  exact absurd hba (Std.OrientedCmp.not_lt_of_lt hab)

/-! ## 4. Sorting -/

theorem sorted_perm (is : List Incident) : (sorted is).Perm is := List.mergeSort_perm ..

theorem pairwise_sorted (is : List Incident) :
    (sorted is).Pairwise fun i j => i.key.le j.key = true := by
  unfold sorted
  refine List.pairwise_mergeSort ?_ ?_ is
  · intro i j l hij hjl
    exact SortKey.le_trans hij hjl
  · intro i j
    exact SortKey.le_total i.key j.key

/-- What is in order already is not taken apart. -/
theorem sublist_sorted {is js : List Incident}
    (hle : js.Pairwise fun i j => i.key.le j.key = true) (h : js.Sublist is) :
    js.Sublist (sorted is) := by
  unfold sorted
  refine List.sublist_mergeSort ?_ ?_ hle h
  · intro i j l hij hjl
    exact SortKey.le_trans hij hjl
  · intro i j
    exact SortKey.le_total i.key j.key

/-- Incidents with equal keys keep their order. -/
theorem filter_key_sorted (k : SortKey) (is : List Incident) :
    (sorted is).filter (·.key = k) = is.filter (·.key = k) := by
  have hle : (is.filter (·.key = k)).Pairwise fun i j => i.key.le j.key = true := by
    refine List.pairwise_of_forall_mem_list fun i hi j hj => ?_
    have hik : i.key = k := of_decide_eq_true (List.mem_filter.mp hi).2
    have hjk : j.key = k := of_decide_eq_true (List.mem_filter.mp hj).2
    rw [hik, hjk]
    exact SortKey.le_refl k
  have hsub := (sublist_sorted hle List.filter_sublist).filter (·.key = k)
  simp only [List.filter_filter, Bool.and_self] at hsub
  exact (hsub.eq_of_length ((sorted_perm is).filter _).length_eq.symm).symm

theorem withKey?_sorted (k : SortKey) (is : List Incident) :
    withKey? k (sorted is) = withKey? k is := by
  rw [withKey?, withKey?, ← List.head?_filter, ← List.head?_filter, filter_key_sorted]

/-! ## 5. Dropping repeats -/

/-- What is dropped has the key of an incident before it. -/
theorem withKey?_withoutRepeats (k : SortKey) (is : List Incident) :
    withKey? k (withoutRepeats is) = withKey? k is := by
  unfold Incident.withoutRepeats
  fun_induction Grouping.withoutRepeats _ is with
  | case1 => rfl
  | case2 a => rfl
  | case3 a b rest hsame ih =>
    have heq := of_decide_eq_true hsame
    rw [ih]
    by_cases hk : a.key = k
    · rw [withKey?_cons_of_eq hk, withKey?_cons_of_eq hk]
    · rw [withKey?_cons_of_ne hk, withKey?_cons_of_ne hk, withKey?_cons_of_ne (heq ▸ hk)]
  | case4 a b rest hother ih =>
    by_cases hk : a.key = k
    · rw [withKey?_cons_of_eq hk, withKey?_cons_of_eq hk]
    · rw [withKey?_cons_of_ne hk, withKey?_cons_of_ne hk, ih]

/-- In a sorted list equal keys are neighbours, so that no key is left twice. -/
theorem increasing_withoutRepeats {is : List Incident}
    (h : is.Pairwise fun i j => i.key.le j.key = true) : Increasing (withoutRepeats is) := by
  unfold Incident.withoutRepeats
  fun_induction Grouping.withoutRepeats _ is with
  | case1 => exact List.Pairwise.nil
  | case2 a => exact List.pairwise_singleton _ a
  | case3 a b rest hsame ih => exact ih (h.sublist (.cons_cons a (.cons b (.refl rest))))
  | case4 a b rest hother ih =>
    obtain ⟨ha, htail⟩ := List.pairwise_cons.mp h
    have hab : a.key.compare b.key = .lt :=
      SortKey.lt_of_le_of_ne (ha b List.mem_cons_self) fun heq => hother (decide_eq_true heq)
    refine List.pairwise_cons.mpr ⟨fun i hi => ?_, ih htail⟩
    rcases List.mem_cons.mp ((Grouping.withoutRepeats_sublist _ _).subset hi) with rfl | hmem
    · exact hab
    · exact Std.TransCmp.lt_of_lt_of_isLE hab ((List.pairwise_cons.mp htail).1 i hmem)

/-! ## 6. Reports -/

/-- Incidents as they are reported. -/
def report (is : List Incident) : List Incident := withoutRepeats (sorted is)

/-- **The keys of a report increase strictly.** -/
theorem report_increasing (is : List Incident) : Increasing (report is) :=
  increasing_withoutRepeats (pairwise_sorted is)

/-- **For every key a report holds the first incident that was found with it.** -/
theorem withKey?_report (k : SortKey) (is : List Incident) :
    withKey? k (report is) = withKey? k is := by
  rw [report, withKey?_withoutRepeats, withKey?_sorted]

/-- Every incident that was found has one with its key in the report. -/
theorem exists_mem_report {is : List Incident} {i : Incident} (h : i ∈ is) :
    ∃ j ∈ report is, j.key = i.key := by
  obtain ⟨j, hj⟩ := exists_withKey? h
  rw [← withKey?_report] at hj
  exact ⟨j, mem_of_withKey? hj, key_of_withKey? hj⟩

/-- A list in strict order with the first incident for every key is the report. -/
theorem eq_report {is js : List Incident} (hi : Increasing is)
    (h : ∀ k, withKey? k is = withKey? k js) : is = report js :=
  hi.eq_of_withKey? (report_increasing js) fun k => by rw [h, withKey?_report]

/-- **Lists with the same first incident for every key give the same report.** -/
theorem report_congr {is js : List Incident} (h : ∀ k, withKey? k is = withKey? k js) :
    report is = report js :=
  eq_report (report_increasing is) fun k => by rw [withKey?_report, h]

/-! ## 7. Leaving out and changing incidents -/

section Changed
variable {f : Incident → Option Incident}

/-- What is changed without its key, or left out for its key, is found where it was before. -/
theorem withKey?_filterMap (hkey : ∀ i j, f i = some j → j.key = i.key)
    (hout : ∀ i j, i.key = j.key → f i = none → f j = none) (k : SortKey) (is : List Incident) :
    withKey? k (is.filterMap f) = (withKey? k is).bind f := by
  induction is with
  | nil => rfl
  | cons i is ih =>
    by_cases hk : i.key = k
    · rw [withKey?_cons_of_eq hk, Option.bind_some]
      cases hf : f i with
      | none =>
        rw [List.filterMap_cons_none hf, ih]
        cases hfirst : withKey? k is with
        | none => rfl
        | some j => exact hout i j (hk.trans (key_of_withKey? hfirst).symm) hf
      | some j =>
        rw [List.filterMap_cons_some hf, withKey?_cons_of_eq ((hkey i j hf).trans hk)]
    · rw [withKey?_cons_of_ne hk, ← ih]
      cases hf : f i with
      | none => rw [List.filterMap_cons_none hf]
      | some j =>
        rw [List.filterMap_cons_some hf, withKey?_cons_of_ne (hkey i j hf ▸ hk)]

theorem Increasing.filterMap {is : List Incident} (h : Increasing is)
    (hkey : ∀ i j, f i = some j → j.key = i.key) : Increasing (is.filterMap f) := by
  refine List.Pairwise.filterMap f (fun i j hij i' hi j' hj => ?_) h
  show i'.key.compare j'.key = .lt
  rw [hkey i i' hi, hkey j j' hj]
  exact hij

/-- **It makes no difference whether incidents are left out before or after they are put in
    order.** -/
theorem report_filterMap (hkey : ∀ i j, f i = some j → j.key = i.key)
    (hout : ∀ i j, i.key = j.key → f i = none → f j = none) (is : List Incident) :
    report (is.filterMap f) = (report is).filterMap f := by
  refine (eq_report ((report_increasing is).filterMap hkey) fun k => ?_).symm
  rw [withKey?_filterMap hkey hout, withKey?_filterMap hkey hout, withKey?_report]

end Changed

end Incident

end AndroidLint
