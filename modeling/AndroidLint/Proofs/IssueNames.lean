/-
  File:      AndroidLint/Proofs/IssueNames.lean
  Subject:   The ids of issues in a configuration.

  An id is recognised whatever the case of its letters, while the lists of a configuration are
  searched for the id as it is registered. So an id in another case is accepted and then means
  nothing:

  * `Issue.find?_eq_some_iff`:   which ids are recognised, and that each names one issue only;
  * `Issue.ne_id_of_find?`:      an id in another case is that of no issue;
  * `severityFor_recognised`:    what an id does in a configuration, in the registered case and in
                                 another one.
-/
import AndroidLint.Config
import Mathlib.Data.List.Nodup

namespace AndroidLint

namespace Issue

/-! ## 1. Ids that are recognised -/

/-- Different issues have ids that differ in more than the case of letters. -/
theorem eq_of_lower_id {a b : Issue} (h : Text.lower a.id = Text.lower b.id) : a = b := by
  have hnodup : (all.map fun i => i.id.toList.map Char.toLower).Nodup := by decide +kernel
  exact List.inj_on_of_nodup_map hnodup (mem_all a) (mem_all b) (String.ofList_injective h)

theorem lower_id_of_find? {id : String} {i : Issue} (h : find? id = some i) :
    Text.lower i.id = Text.lower id := by
  have hbeq := List.find?_some h
  exact beq_iff_eq.mp hbeq

/-- An issue is recognised by its id in any case of letters, and by nothing else. -/
theorem find?_eq_some_iff {id : String} {i : Issue} :
    find? id = some i ↔ Text.lower i.id = Text.lower id := by
  refine ⟨lower_id_of_find?, fun h => ?_⟩
  have hsome : (find? id).isSome = true :=
    List.find?_isSome.mpr ⟨i, mem_all i, beq_iff_eq.mpr h⟩
  obtain ⟨j, hj⟩ := Option.isSome_iff_exists.mp hsome
  rw [hj, eq_of_lower_id ((lower_id_of_find? hj).trans h.symm)]

/-- Every issue is found by its id. -/
theorem find?_id (i : Issue) : find? i.id = some i := find?_eq_some_iff.mpr rfl

/-- An id that is recognised in another case is the id of no issue. -/
theorem ne_id_of_find? {id : String} {issue : Issue} (h : find? id = some issue)
    (hcase : id ≠ issue.id) (i : Issue) : i.id ≠ id := by
  rintro rfl
  rw [find?_id] at h
  exact hcase (congrArg Issue.id (Option.some.inj h))

end Issue

namespace Config

/-! ## 2. Entries of a configuration -/

/-- Severities follow from what the lists say about the id of the issue. -/
theorem severityFor_congr {c c' : Config} {i : Issue}
    (hdisable : i.id ∈ c'.disable ↔ i.id ∈ c.disable)
    (hcheck : c'.check = c.check) (hgrade : c'.grade? i = c.grade? i) :
    c'.severityFor i = c.severityFor i := by
  have hcontains : c'.disable.contains i.id = c.disable.contains i.id := by
    rw [Bool.eq_iff_iff, List.contains_iff_mem, List.contains_iff_mem, hdisable]
  rw [severityFor, severityFor, hcontains, hcheck, hgrade]

/-- Setting a grade says nothing about other ids. -/
theorem find?_setGrade {id other : String} (h : other ≠ id) (value : String)
    (entries : List (String × String)) :
    (setGrade id value entries).find? (·.1 == other) = entries.find? (·.1 == other) := by
  have hid : ((id, value).1 == other) = false := beq_false_of_ne h.symm
  induction entries with
  | nil => rw [setGrade, List.find?_cons_of_neg (by simp [hid])]
  | cons entry entries ih =>
    rw [setGrade]
    split
    · rw [List.find?_cons_of_neg (by simp [hid])]
    · split
      · next heq =>
        rw [List.find?_cons_of_neg (by simp [hid]),
          List.find?_cons_of_neg (by simp [← heq, h.symm])]
      · rw [List.find?_cons, List.find?_cons, ih]

theorem severityFor_of_disable {c : Config} {i : Issue} (h : i.id ∈ c.disable) :
    c.severityFor i = none := by
  rw [severityFor, if_pos (List.contains_iff_mem.mpr h)]

/-- Where an issue is neither left out nor passed over the grade alone decides. -/
theorem severityFor_of_grade {c : Config} {i : Issue} (hcheck : c.check = [] ∨ i.id ∈ c.check)
    (hdisable : c.disable = []) :
    c.severityFor i = (c.grade? i).elim (some i.severity) Grade.severity? := by
  have hleft : ¬ c.disable.contains i.id = true := by
    rw [hdisable]
    exact Bool.false_ne_true
  have hasked : ¬ (!c.check.isEmpty && !c.check.contains i.id) = true := by
    rcases hcheck with hnil | hmem
    · rw [hnil]
      exact Bool.false_ne_true
    · rw [List.contains_iff_mem.mpr hmem, Bool.not_true, Bool.and_false]
      exact Bool.false_ne_true
  rw [severityFor, if_neg hleft, if_neg hasked]
  cases c.grade? i <;> rfl

/-! ## 3. What an id does -/

/-- **An id that is recognised takes effect in the registered case, and in no other.** In the
    registered case an issue that is left out is not reported, one that alone is checked is, and a
    grade counts. In another case leaving out the id leaves out nothing, checking it alone checks
    nothing at all, and a grade for it grades nothing. -/
theorem severityFor_recognised (id : String) (issue : Issue) (h : Issue.find? id = some issue) :
    (id = issue.id →
      (∀ c : Config, id ∈ c.disable → c.severityFor issue = none) ∧
      (∀ c : Config, c.check = [id] → c.disable = [] → c.severity = [] →
        c.severityFor issue = some issue.severity) ∧
      (∀ (c : Config) (name : String) (grade : Grade), c.check = [] → c.disable = [] →
        c.severity = [(id, name)] → Grade.ofName? name = some grade →
          c.severityFor issue = grade.severity?)) ∧
    (id ≠ issue.id → ∀ (c : Config) (i : Issue),
      (∀ front back, c.disable = front ++ id :: back →
        c.severityFor i = { c with disable := front ++ back }.severityFor i) ∧
      (c.check = [id] → c.severityFor i = none) ∧
      (∀ name, { c with severity := setGrade id name c.severity }.severityFor i =
        c.severityFor i)) := by
  constructor
  · rintro rfl
    refine ⟨fun c hid => severityFor_of_disable hid, fun c hcheck hdisable hseverity => ?_,
      fun c name grade hcheck hdisable hseverity hgrade => ?_⟩
    · rw [severityFor_of_grade (Or.inr (by rw [hcheck]; exact List.mem_singleton_self _)) hdisable,
        grade?, hseverity]
      rfl
    · have hfound : c.grade? issue = some grade := by
        simp [grade?, hseverity, hgrade]
      rw [severityFor_of_grade (Or.inl hcheck) hdisable, hfound]
      rfl
  · intro hcase c i
    have hid : i.id ≠ id := Issue.ne_id_of_find? h hcase i
    refine ⟨fun front back hdisable => ?_, fun hcheck => ?_, fun name => ?_⟩
    · refine severityFor_congr ?_ rfl rfl
      rw [hdisable]
      simp [hid]
    · have hother : (!c.check.isEmpty && !c.check.contains i.id) = true := by
        rw [hcheck]
        simp [hid]
      rw [severityFor, if_pos hother, ite_self]
    · refine severityFor_congr Iff.rfl rfl ?_
      show ((setGrade id name c.severity).find? (·.1 == i.id)).bind _ = _
      rw [find?_setGrade hid]
      rfl

/-- The effects in the registered case, and in capitals the last of them. -/
theorem severityFor_recognised_allowBackup :
    Issue.find? "AllowBackup" = some .allowBackup ∧
      ({ disable := ["Range", "AllowBackup"] } : Config).severityFor .allowBackup = none ∧
      ({ check := ["AllowBackup"] } : Config).severityFor .allowBackup = some .warning ∧
      ({ severity := [("AllowBackup", "Fatal")] } : Config).severityFor .allowBackup =
        some .fatal ∧
      Issue.find? "ALLOWBACKUP" = some .allowBackup ∧
      ∀ i, ({ check := ["ALLOWBACKUP"] } : Config).severityFor i = none := by
  have hfound : Issue.find? "AllowBackup" = some .allowBackup := Issue.find?_id .allowBackup
  have hcapitals : Issue.find? "ALLOWBACKUP" = some .allowBackup := rfl
  obtain ⟨hdisable, hcheck, hgrade⟩ :=
    (severityFor_recognised "AllowBackup" .allowBackup hfound).1 rfl
  refine ⟨hfound, hdisable _ (by decide), hcheck _ rfl rfl rfl,
    hgrade _ "Fatal" (.report .fatal) rfl rfl rfl rfl, hcapitals, fun i => ?_⟩
  exact ((severityFor_recognised "ALLOWBACKUP" .allowBackup hcapitals).2 (by decide) _ i).2.1 rfl

/-- **An id in small letters is recognised, and none of its effects is there.** -/
theorem severityFor_small_letters :
    Issue.find? "allowbackup" = some .allowBackup ∧
      ({ disable := ["allowbackup"] } : Config).severityFor .allowBackup = some .warning ∧
      ({ check := ["allowbackup"] } : Config).severityFor .allowBackup = none ∧
      ({ severity := [("allowbackup", "error")] } : Config).severityFor .allowBackup =
        some .warning :=
  ⟨rfl, rfl, rfl, rfl⟩

end Config

end AndroidLint
