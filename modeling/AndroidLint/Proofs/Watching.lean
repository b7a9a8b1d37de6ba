/-
  File:      AndroidLint/Proofs/Watching.lean
  Subject:   The changes that are watched for, and the files that the checks look at.

  Generated folders are a fixed list for the watch, and patterns of the configuration for the
  search. The two agree as long as the patterns leave out at least what the list does.

  * `mem_find`, `exists_same_of_mem_reached`:  what is found, of all that the search reaches;
  * `isGenerated_iff`:                         the paths through a generated folder;
  * `excludes_of_isGenerated`:                 patterns that leave all of them out;
  * `isRelevant_of_reached`:                   what is watched against what is found.
-/
import AndroidLint.Discovery
import AndroidLint.Watch
import AndroidLint.Proofs.PathPatterns

namespace AndroidLint

/-! ## 1. The files that are found -/

namespace Discovery

/-- What is left out has the relative path of a file that stays. -/
theorem exists_same_withoutRepeats (found : List FoundFile) :
    ∀ f ∈ found, ∃ g ∈ withoutRepeats found, g.relative.same f.relative = true := by
  unfold Discovery.withoutRepeats
  fun_induction Grouping.withoutRepeats _ found with
  | case1 => exact List.forall_mem_nil _
  | case2 a =>
    exact List.forall_mem_singleton.mpr ⟨a, List.mem_singleton_self a, beq_self_eq_true _⟩
  | case3 a b rest hsame ih =>
    intro f hf
    rcases List.mem_cons.mp hf with rfl | hf
    · exact ih f List.mem_cons_self
    rcases List.mem_cons.mp hf with rfl | hf
    · -- `f` goes for the sake of `a`, which may go for the sake of another in turn
      obtain ⟨g, hg, hga⟩ := ih a List.mem_cons_self
      exact ⟨g, hg, beq_iff_eq.mpr ((beq_iff_eq.mp hga).trans (beq_iff_eq.mp hsame))⟩
    · exact ih f (List.mem_cons_of_mem a hf)
  | case4 a b rest hother ih =>
    intro f hf
    rcases List.mem_cons.mp hf with rfl | hf
    · exact ⟨f, List.mem_cons_self, beq_self_eq_true _⟩
    · obtain ⟨g, hg, hgf⟩ := ih f hf
      exact ⟨g, List.mem_cons_of_mem a hg, hgf⟩

/-- The paths of all files that the search reaches, whatever they are. -/
def reached (d : Disk) (c : Config) (root : Path) : List Path :=
  (if c.targets.isEmpty then [root] else c.targets.map (root ++ ·)).flatMap (search d)

variable {d : Disk} {c : Config} {root : Path}

/-- What is found was reached and is kept. -/
theorem mem_find {f : FoundFile} (h : f ∈ find d c root) :
    f.path ∈ reached d c root ∧ f.relative = f.path.relativeTo root ∧
      keeps c f.relative = true := by
  have hmem := List.mem_mergeSort.mp ((Grouping.withoutRepeats_sublist _ _).subset h)
  obtain ⟨hfound, hkeeps⟩ := List.mem_filter.mp hmem
  obtain ⟨p, hp, rfl⟩ := List.mem_map.mp hfound
  exact ⟨hp, rfl, hkeeps⟩

/-- **What is reached and kept is found**, if only under another way of writing its path. -/
theorem exists_same_of_mem_reached {p : Path} (hp : p ∈ reached d c root)
    (hkeeps : keeps c (p.relativeTo root) = true) :
    ∃ f ∈ find d c root, f.relative.same (p.relativeTo root) = true := by
  refine exists_same_withoutRepeats _ ⟨p, p.relativeTo root⟩ (List.mem_mergeSort.mpr ?_)
  exact List.mem_filter.mpr ⟨List.mem_map.mpr ⟨p, hp, rfl⟩, hkeeps⟩

end Discovery

/-! ## 2. Generated folders -/

namespace Watch

open Discovery

/-- Only a name can be that of a generated folder. -/
theorem isGenerated_iff {p : Path} :
    isGenerated p = true ↔ ∃ d ∈ generatedFolders, Path.Component.name d ∈ p.components := by
  rw [isGenerated, List.any_eq_true]
  constructor
  · rintro ⟨step, hstep, hcontains⟩
    have hmem := List.contains_iff_mem.mp hcontains
    cases step with
    | root => exact absurd hmem (by decide)
    | current => exact absurd hmem (by decide)
    | parent => exact absurd hmem (by decide)
    | name d => exact ⟨d, hmem, hstep⟩
  · rintro ⟨d, hd, hstep⟩
    exact ⟨.name d, hstep, List.contains_iff_mem.mpr hd⟩

theorem isGenerated_eq_false_iff {p : Path} :
    isGenerated p = false ↔ ∀ d ∈ generatedFolders, Path.Component.name d ∉ p.components := by
  rw [← Bool.not_eq_true, isGenerated_iff, not_exists]
  exact forall_congr' fun d => not_and

/-- **Patterns for everything in the generated folders leave out every path through one.** -/
theorem excludes_of_isGenerated {c : Config} {p : Path}
    (hc : ∀ d ∈ generatedFolders, Glob.everythingIn d ∈ c.exclude) (hp : isGenerated p = true) :
    c.excludes p = true := by
  obtain ⟨d, hd, hstep⟩ := isGenerated_iff.mp hp
  have hplain : '/' ∉ d.toList ∧ '\\' ∉ d.toList ∧ d ≠ "" ∧ d ≠ "**" := by
    simp only [generatedFolders, List.mem_cons, List.not_mem_nil, or_false] at hd
    rcases hd with rfl | rfl | rfl | rfl <;> decide
  obtain ⟨hslash, hbackslash, hne, hwild⟩ := hplain
  refine List.any_eq_true.mpr ⟨Glob.everythingIn d, hc d hd, ?_⟩
  exact (Glob.isMatch_everythingIn hslash hne hwild p.display).mpr
    ⟨d, Path.mem_segments_display hstep hbackslash, Glob.segmentMatches_self d⟩

theorem isRelevant_eq (c : Config) (p : Path) : isRelevant c p = (!isGenerated p && keeps c p) := by
  rw [isRelevant, keeps, Bool.and_assoc]

/-! ## 3. What is watched and what is found -/

/-- **A change is watched for exactly if the file would be kept and is in no generated folder.** So
    the watch takes note of every file that is found as long as the configuration leaves out the
    generated folders, and of those outside of them whatever it leaves out; and each change that it
    takes note of, of a file that the search reaches, is a change of a file that is found. -/
theorem isRelevant_of_reached (disk : Disk) (c : Config) (root : Path) :
    (∀ p : Path, isRelevant c (p.relativeTo root) = true ↔
      keeps c (p.relativeTo root) = true ∧
        ∀ d ∈ generatedFolders, Path.Component.name d ∉ (p.relativeTo root).components) ∧
    ((∀ d ∈ generatedFolders, Glob.everythingIn d ∈ c.exclude) →
      ∀ p : Path, isRelevant c (p.relativeTo root) = keeps c (p.relativeTo root)) ∧
    (∀ f ∈ find disk c root, isRelevant c f.relative = !isGenerated f.relative) ∧
    ∀ p ∈ reached disk c root, isRelevant c (p.relativeTo root) = true →
      ∃ f ∈ find disk c root, f.relative.same (p.relativeTo root) = true := by
  refine ⟨fun p => ?_, fun hc p => ?_, fun f hf => ?_, fun p hp hrelevant => ?_⟩
  · rw [isRelevant_eq, Bool.and_eq_true, Bool.not_eq_true', isGenerated_eq_false_iff, and_comm]
  · rw [isRelevant_eq]
    cases hgenerated : isGenerated (p.relativeTo root) with
    | false => rfl
    | true => simp [keeps, excludes_of_isGenerated hc hgenerated]
  · rw [isRelevant_eq, (mem_find hf).2.2, Bool.and_true]
  · rw [isRelevant_eq, Bool.and_eq_true] at hrelevant
    exact exists_same_of_mem_reached hp hrelevant.2

/-- A project with a file in a folder for what is built. -/
def builtDisk : Disk :=
  ⟨[(["work"], .folder), (["work", "build"], .folder),
    (["work", "build", "A.java"], .file (.text "a"))], []⟩

/-- By default the patterns leave out the generated folders, and other sources are watched. -/
theorem isRelevant_by_default :
    (∀ d ∈ generatedFolders, Glob.everythingIn d ∈ ({} : Config).exclude) ∧
    isRelevant {} (Path.relativeTo ⟨"/work/build/A.java"⟩ ⟨"/work"⟩) =
      keeps {} (Path.relativeTo ⟨"/work/build/A.java"⟩ ⟨"/work"⟩) ∧
    isRelevant {} (Path.relativeTo ⟨"/work/src/A.java"⟩ ⟨"/work"⟩) = true := by
  have hc : ∀ d ∈ generatedFolders, Glob.everythingIn d ∈ ({} : Config).exclude := by decide
  obtain ⟨hiff, hagree, _⟩ := isRelevant_of_reached builtDisk {} ⟨"/work"⟩
  refine ⟨hc, hagree hc ⟨"/work/build/A.java"⟩, (hiff ⟨"/work/src/A.java"⟩).mpr ?_⟩
  exact ⟨by decide +kernel, by decide +kernel⟩

/-- **Without patterns a file in a generated folder is found, and its changes are not noted.** -/
theorem found_unwatched :
    (∃ f ∈ find builtDisk { exclude := [] } ⟨"/work"⟩, f.relative.same ⟨"build/A.java"⟩ = true) ∧
    keeps { exclude := [] } (Path.relativeTo ⟨"/work/build/A.java"⟩ ⟨"/work"⟩) = true ∧
    isRelevant { exclude := [] } (Path.relativeTo ⟨"/work/build/A.java"⟩ ⟨"/work"⟩) = false := by
  have hrelative : Path.relativeTo ⟨"/work/build/A.java"⟩ ⟨"/work"⟩ = ⟨"build/A.java"⟩ := by
    decide +kernel
  have hreached : ⟨"/work/build/A.java"⟩ ∈ reached builtDisk { exclude := [] } ⟨"/work"⟩ := by
    decide +kernel
  have hkeeps : keeps { exclude := [] } ⟨"build/A.java"⟩ = true := by decide +kernel
  have hfound := exists_same_of_mem_reached hreached (hrelative ▸ hkeeps)
  rw [hrelative] at hfound ⊢
  exact ⟨hfound, hkeeps, by decide +kernel⟩

end Watch

end AndroidLint
