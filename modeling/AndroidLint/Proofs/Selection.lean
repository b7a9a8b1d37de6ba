/-
  File:      AndroidLint/Proofs/Selection.lean
  Subject:   Selecting issues and grading them takes away from a run and changes nothing else.

  A run that is restricted to some issues leaves out whole checks, drops incidents before they are
  sorted and gives the rest other severities. All the same it reports what a run without
  restrictions reports, less the issues that are left out:

  * `reported_eq`:            the incidents of checks that are left out would all be dropped;
  * `analyze_restrict`:       the restricted run, from the unrestricted one.
-/
import AndroidLint.Proofs.Findings
import AndroidLint.Proofs.ReportOrder
import Mathlib.Data.List.Nodup

namespace AndroidLint

/-! ## 1. Grading -/

/-- Different issues have different ids. -/
theorem Issue.eq_of_id {a b : Issue} (h : a.id = b.id) : a = b :=
  List.inj_on_of_nodup_map (f := Issue.id) (by decide) (mem_all a) (mem_all b) h

namespace Incident

/-- The incident with the severity that its issue has, or nothing when that is not reported. -/
def grade (severity? : Issue → Option Severity) (i : Incident) : Option Incident :=
  (severity? i.issue).map i.graded

section Grade
variable {severity? : Issue → Option Severity}

theorem key_of_grade (i j : Incident) (h : i.grade severity? = some j) : j.key = i.key := by
  obtain ⟨severity, _, rfl⟩ := Option.map_eq_some_iff.mp h
  rfl

/-- Incidents with the same key are of the same issue. -/
theorem issue_eq_of_key {i j : Incident} (h : i.key = j.key) : i.issue = j.issue :=
  Issue.eq_of_id (congrArg SortKey.id h)

/-- Whether an incident is reported follows from its key. -/
theorem grade_eq_none_of_key (i j : Incident) (hkey : i.key = j.key)
    (h : i.grade severity? = none) : j.grade severity? = none := by
  rw [grade, Option.map_eq_none_iff] at h ⊢
  rw [← issue_eq_of_key hkey, h]

end Grade

end Incident

/-! ## 2. Checks that are left out -/

namespace Project

/-- What all checks find, whatever is selected. -/
def findings (p : Project) : List Incident := Check.all.flatMap (Check.incidents p p.sources)

/-- The project with a configuration that neither selects issues nor grades them. -/
def unrestricted (p : Project) : Project :=
  { p with config := { p.config with check := [], disable := [], severity := [] } }

/-- The findings do not depend on what is selected and how it is graded. -/
theorem findings_unrestricted (p : Project) : p.unrestricted.findings = p.findings := rfl

/-- A check that is left out finds nothing that would be reported. -/
theorem filterMap_grade_of_inactive (p : Project) (s : Selection) {c : Check}
    (hc : (c.issues.any fun i => (p.reportedSeverity s i).isSome) = false) :
    (Check.incidents p p.sources c).filterMap (Incident.grade (p.reportedSeverity s)) = [] := by
  rw [List.filterMap_eq_nil_iff]
  intro i hi
  have hissue := (Check.found_incidents p p.sources c i hi).1
  have hnone := List.any_eq_false.mp hc i.issue hissue
  rw [Incident.grade, Option.map_eq_none_iff]
  exact Option.not_isSome_iff_eq_none.mp hnone

/-- The incidents that a run reports, out of the findings of all checks. -/
theorem reported_eq (p : Project) (s : Selection) :
    ((p.activeChecks s).flatMap (Check.incidents p p.sources)).filterMap
        (Incident.grade (p.reportedSeverity s)) =
      p.findings.filterMap (Incident.grade (p.reportedSeverity s)) := by
  unfold activeChecks findings
  generalize Check.all = checks
  induction checks with
  | nil => rfl
  | cons c checks ih =>
    rw [List.flatMap_cons, List.filterMap_append, ← ih]
    cases hc : c.issues.any fun i => (p.reportedSeverity s i).isSome with
    | true =>
      simp only [List.filter_cons, hc, if_true, List.flatMap_cons, List.filterMap_append]
    | false =>
      simp only [List.filter_cons, hc, Bool.false_eq_true, if_false,
        p.filterMap_grade_of_inactive s hc, List.nil_append]

theorem analyze_eq (p : Project) (s : Selection) :
    p.analyze s =
      Incident.report (p.findings.filterMap (Incident.grade (p.reportedSeverity s))) := by
  rw [← p.reported_eq s]
  rfl

/-- **A run reports the findings of all checks in order, less those that are not selected.** -/
theorem analyze_eq_filterMap (p : Project) (s : Selection) :
    p.analyze s =
      (Incident.report p.findings).filterMap (Incident.grade (p.reportedSeverity s)) := by
  rw [analyze_eq, Incident.report_filterMap Incident.key_of_grade Incident.grade_eq_none_of_key]

/-! ## 3. Runs with and without restrictions -/

/-- Without restrictions every check is active. -/
theorem activeChecks_unrestricted (p : Project) :
    p.unrestricted.activeChecks none = Check.all := rfl

/-- The unrestricted run reports the findings with the severities that the issues have of
    themselves. -/
theorem analyze_unrestricted (p : Project) :
    p.unrestricted.analyze none =
      (Incident.report p.findings).map fun i => i.graded i.issue.severity := by
  rw [analyze_eq_filterMap, findings_unrestricted, ← List.filterMap_eq_map]
  rfl

/-- The selected issues that the configuration reports, and the severities it gives them. -/
theorem grade_reportedSeverity (p : Project) (s : Selection) (is : List Incident) :
    is.filterMap (Incident.grade (p.reportedSeverity s)) =
      (is.filter fun i => s.includes i.issue).filterMap fun i =>
        (p.config.severityFor i.issue).map fun severity => { i with severity } := by
  rw [List.filterMap_filter]
  congr 1
  funext i
  rw [Incident.grade, reportedSeverity]
  split <;> rfl

/-- A restricted run reads no file as XML that the unrestricted run does not read. -/
theorem analyze?_of_unrestricted {p : Project} {is : List Incident}
    (h : p.unrestricted.analyze? none = some is) (s : Selection) :
    p.analyze? s = some (p.analyze s) := by
  unfold analyze? at h ⊢
  rw [activeChecks_unrestricted] at h
  dsimp only at h ⊢
  split at h
  · cases h
  · next hwhole =>
    refine if_neg fun htorn => hwhole ?_
    obtain ⟨c, hc, hx⟩ := List.any_eq_true.mp htorn
    exact List.any_eq_true.mpr ⟨c, (List.mem_filter.mp hc).1, hx⟩

theorem analyze_increasing (p : Project) (s : Selection) : Incident.Increasing (p.analyze s) := by
  rw [analyze_eq]
  exact Incident.report_increasing _

/-- A finding that a run does not leave out has one with its key in the report. -/
theorem exists_mem_analyze {p : Project} {s : Selection} {c : Check} {i : Incident}
    (hi : i ∈ Check.incidents p p.sources c) (h : (p.reportedSeverity s i.issue).isSome = true) :
    ∃ j ∈ p.analyze s, j.key = i.key := by
  have hall : c ∈ Check.all := by cases c <;> decide
  have hfound : i ∈ p.findings := List.mem_flatMap.mpr ⟨c, hall, hi⟩
  obtain ⟨severity, hseverity⟩ := Option.isSome_iff_exists.mp h
  have hgrade : i.grade (p.reportedSeverity s) = some (i.graded severity) := by
    rw [Incident.grade, hseverity, Option.map_some]
  obtain ⟨j, hj, hkey⟩ :=
    Incident.exists_mem_report (List.mem_filterMap.mpr ⟨i, hfound, hgrade⟩)
  rw [analyze_eq]
  exact ⟨j, hj, hkey⟩

/-- **A restricted run reports what the unrestricted run reports, less the issues that are not
    selected or not reported by the configuration, and with the severities that the configuration
    gives.** It does so as far as the unrestricted run can read its files. Both runs report in
    strict order, and both have an incident with the key of every finding that they do not leave
    out. -/
theorem analyze_restrict (p : Project) (s : Selection) :
    let all := p.unrestricted.analyze none
    let restricted := (all.filter fun i => s.includes i.issue).filterMap fun i =>
      (p.config.severityFor i.issue).map fun severity => { i with severity }
    p.analyze s = restricted ∧
      ((p.unrestricted.analyze? none).isSome → p.analyze? s = some restricted) ∧
      all.Pairwise (fun i j => i.key.compare j.key = .lt) ∧
      restricted.Pairwise (fun i j => i.key.compare j.key = .lt) ∧
      (∀ c, ∀ i ∈ Check.incidents p p.sources c, ∃ j ∈ all, j.key = i.key) ∧
      (∀ c, ∀ i ∈ Check.incidents p p.sources c, s.includes i.issue = true →
        (p.config.severityFor i.issue).isSome → ∃ j ∈ restricted, j.key = i.key) := by
  intro all restricted
  have hrestricted : restricted = all.filterMap (Incident.grade (p.reportedSeverity s)) :=
    (p.grade_reportedSeverity s all).symm
  have hall : all = (Incident.report p.findings).map fun i => i.graded i.issue.severity :=
    p.analyze_unrestricted
  have hrun : p.analyze s = restricted := by
    rw [hrestricted, hall, List.filterMap_map, analyze_eq_filterMap]
    rfl
  rw [← hrun]
  refine ⟨rfl, ?_, p.unrestricted.analyze_increasing none, p.analyze_increasing s, ?_, ?_⟩
  · intro h
    obtain ⟨is, his⟩ := Option.isSome_iff_exists.mp h
    exact analyze?_of_unrestricted his s
  · intro c i hi
    exact exists_mem_analyze (p := p.unrestricted) hi rfl
  · intro c i hi hselected hseverity
    refine exists_mem_analyze hi ?_
    rw [reportedSeverity, if_pos hselected]
    exact hseverity

end Project

end AndroidLint
