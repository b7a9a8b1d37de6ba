/-
  File:      AndroidLint/Proofs/Groups.lean
  Subject:   Entries by key, under an order of the keys.

  A group holds the entries of one key, all of them and in the order given, and each entry is in a
  group. The keys only have to be ordered; different keys may compare as equal, as two ways of
  writing one path do.

  * `mem_insert_iff`, `sorted_insert`:   what one more entry does to sorted groups;
  * `sorted_groups`, `exists_group`:     the keys of groups increase, and no entry is lost;
  * `snd_of_mem_groups`:                 a group holds the entries whose key compares as equal;
  * `Path.compare_eq_iff`:               paths compare as equal when their steps are the same.
-/
import Mathlib.Data.List.Induction
import AndroidLint.Grouping
import AndroidLint.Path

namespace AndroidLint

/-! ## 1. The order of paths -/

namespace Path

namespace Component

/-- The name of a step; other steps have none. -/
def nameText : Component → String
  | name n => n
  | _ => ""

theorem compare_eq_compareLex :
    Component.compare = compareLex (compareOn rank) (compareOn nameText) := by
  funext a b
  cases a <;> cases b <;> rfl

instance : Std.TransCmp Component.compare := by
  rw [compare_eq_compareLex]
  infer_instance

instance : Std.LawfulEqCmp Component.compare where
  eq_of_compare {a b} h := by
    rw [compare_eq_compareLex, compareLex_eq_eq] at h
    obtain ⟨hrank, hname⟩ := h
    have hname : a.nameText = b.nameText := Std.LawfulEqCmp.eq_of_compare hname
    cases a <;> cases b <;> first | rfl | exact congrArg name hname | cases hrank

end Component

theorem compareSteps_eq_compareLex : compareSteps = List.compareLex Component.compare := by
  funext as bs
  induction as generalizing bs with
  | nil => cases bs <;> rfl
  | cons a as ih =>
    cases bs with
    | nil => rfl
    | cons b bs => rw [compareSteps, List.compareLex_cons_cons, ih]

theorem compare_eq (p q : Path) :
    p.compare q = List.compareLex Component.compare p.components q.components := by
  rw [compare, compareSteps_eq_compareLex]

instance : Std.TransCmp Path.compare where
  eq_swap {p q} := by
    rw [compare_eq, compare_eq]
    exact Std.OrientedCmp.eq_swap
  isLE_trans {p q r} hpq hqr := by
    rw [compare_eq] at *
    exact Std.TransCmp.isLE_trans hpq hqr

theorem compare_eq_iff {p q : Path} : p.compare q = .eq ↔ p.components = q.components := by
  rw [compare_eq]
  exact Std.LawfulEqCmp.compare_eq_iff_eq

end Path

/-! ## 2. One more entry -/

namespace Grouping

variable {κ α : Type} {compare : κ → κ → Ordering} [Std.TransCmp compare]

/-- The keys of the groups increase. -/
def Sorted (compare : κ → κ → Ordering) (gs : List (κ × List α)) : Prop :=
  gs.Pairwise fun g h => compare g.1 h.1 = .lt

/-- The entry joins the group of its key, or is a group of its own where there is none. All other
    groups stay. -/
theorem mem_insert_iff {key : κ} {entry : α} {gs : List (κ × List α)} (hsorted : Sorted compare gs)
    {g : κ × List α} : g ∈ insert compare key entry gs ↔
      (g ∈ gs ∧ compare key g.1 ≠ .eq) ∨
      (∃ h ∈ gs, compare key h.1 = .eq ∧ g = (h.1, h.2 ++ [entry])) ∨
      ((∀ h ∈ gs, compare key h.1 ≠ .eq) ∧ g = (key, [entry])) := by
  induction gs with
  | nil => simp [insert]
  | cons first gs ih =>
    obtain ⟨hfirst, hrest⟩ := List.pairwise_cons.mp hsorted
    rw [insert]
    split
    · next hlt =>
      have hne : ∀ h ∈ first :: gs, compare key h.1 ≠ .eq := by
        intro h hh
        rcases List.mem_cons.mp hh with rfl | hh
        · simp [hlt]
        · simp [Std.TransCmp.lt_trans hlt (hfirst h hh)]
      grind
    · next heq =>
      have hne : ∀ h ∈ gs, compare key h.1 ≠ .eq := by
        intro h hh
        simp [Std.TransCmp.lt_of_eq_of_lt heq (hfirst h hh)]
      grind
    · next hgt =>
      have hinsert := ih hrest
      grind

theorem sorted_insert {gs : List (κ × List α)} (hsorted : Sorted compare gs) (key : κ)
    (entry : α) : Sorted compare (insert compare key entry gs) := by
  induction gs with
  | nil => exact List.pairwise_singleton ..
  | cons first gs ih =>
    obtain ⟨hfirst, hrest⟩ := List.pairwise_cons.mp hsorted
    rw [insert]
    split
    · next hlt =>
      refine List.pairwise_cons.mpr ⟨fun h hh => ?_, hsorted⟩
      rcases List.mem_cons.mp hh with rfl | hh
      · exact hlt
      · exact Std.TransCmp.lt_trans hlt (hfirst h hh)
    · exact List.pairwise_cons.mpr ⟨hfirst, hrest⟩
    · next hgt =>
      refine List.pairwise_cons.mpr ⟨fun h hh => ?_, ih hrest⟩
      rcases (mem_insert_iff hrest).mp hh with ⟨hmem, _⟩ | ⟨h', hmem, _, rfl⟩ | ⟨_, rfl⟩
      · exact hfirst h hmem
      · exact hfirst h' hmem
      · exact Std.OrientedCmp.gt_iff_lt.mp hgt

/-! ## 3. All entries -/

variable {key : α → κ}

omit [Std.TransCmp compare] in
theorem groups_concat (entries : List α) (entry : α) :
    groups compare key (entries ++ [entry]) =
      insert compare (key entry) entry (groups compare key entries) :=
  List.foldl_append ..

theorem sorted_groups (entries : List α) : Sorted compare (groups compare key entries) := by
  induction entries using List.reverseRecOn with
  | nil => exact List.Pairwise.nil
  | append_singleton entries entry ih =>
    rw [groups_concat]
    exact sorted_insert ih _ _

/-- The key of a group is that of an entry. -/
theorem exists_key_of_mem_groups {entries : List α} {g : κ × List α}
    (hg : g ∈ groups compare key entries) : ∃ e ∈ entries, g.1 = key e := by
  induction entries using List.reverseRecOn generalizing g with
  | nil => cases hg
  | append_singleton entries entry ih =>
    rw [groups_concat, mem_insert_iff (sorted_groups entries)] at hg
    rcases hg with ⟨hmem, _⟩ | ⟨h, hmem, _, rfl⟩ | ⟨_, rfl⟩
    · obtain ⟨e, he, hkey⟩ := ih hmem
      exact ⟨e, List.mem_append_left _ he, hkey⟩
    · obtain ⟨e, he, hkey⟩ := ih hmem
      exact ⟨e, List.mem_append_left _ he, hkey⟩
    · exact ⟨entry, List.mem_append_right _ (List.mem_singleton_self entry), rfl⟩

/-- Each entry has a group. -/
theorem exists_group {entries : List α} {e : α} (he : e ∈ entries) :
    ∃ g ∈ groups compare key entries, compare (key e) g.1 = .eq := by
  induction entries using List.reverseRecOn with
  | nil => cases he
  | append_singleton entries entry ih =>
    simp only [groups_concat, mem_insert_iff (sorted_groups entries)]
    rcases List.mem_append.mp he with he | he
    · obtain ⟨g, hg, hkey⟩ := ih he
      by_cases hentry : compare (key entry) g.1 = .eq
      · exact ⟨_, Or.inr (Or.inl ⟨g, hg, hentry, rfl⟩), hkey⟩
      · exact ⟨g, Or.inl ⟨hg, hentry⟩, hkey⟩
    · obtain rfl := List.mem_singleton.mp he
      by_cases hold : ∃ g ∈ groups compare key entries, compare (key e) g.1 = .eq
      · obtain ⟨g, hg, hkey⟩ := hold
        exact ⟨_, Or.inr (Or.inl ⟨g, hg, hkey, rfl⟩), hkey⟩
      · refine ⟨_, Or.inr (Or.inr ⟨fun g hg hkey => hold ⟨g, hg, hkey⟩, rfl⟩), ?_⟩
        exact Std.ReflCmp.compare_self

/-- **A group holds the entries whose key compares as equal to its own, in the order given.** -/
theorem snd_of_mem_groups {entries : List α} {g : κ × List α}
    (hg : g ∈ groups compare key entries) :
    g.2 = entries.filter fun e => compare (key e) g.1 == .eq := by
  induction entries using List.reverseRecOn generalizing g with
  | nil => cases hg
  | append_singleton entries entry ih =>
    rw [groups_concat, mem_insert_iff (sorted_groups entries)] at hg
    rw [List.filter_append]
    rcases hg with ⟨hmem, hne⟩ | ⟨h, hmem, heq, rfl⟩ | ⟨hnone, rfl⟩
    · simp [ih hmem, hne]
    · simp [ih hmem, heq]
    · -- an entry before it that is of its key would have a group, which the new one had joined
      have hempty : (entries.filter fun e => compare (key e) (key entry) == .eq) = [] := by
        refine List.filter_eq_nil_iff.mpr fun e he hkey => ?_
        have hold : ∃ g ∈ groups compare key entries, compare (key e) g.1 = .eq := exists_group he
        obtain ⟨g, hg, hgroup⟩ := hold
        refine hnone g hg ?_
        rwa [← Std.TransCmp.congr_left (beq_iff_eq.mp hkey)]
      simp [hempty, Std.ReflCmp.compare_self]

end Grouping

end AndroidLint
