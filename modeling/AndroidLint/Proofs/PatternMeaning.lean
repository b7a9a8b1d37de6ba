/-
  File:      AndroidLint/Proofs/PatternMeaning.lean
  Subject:   What a pattern for paths stands for.

  Matching goes back and forth over the segments of a path, and over the characters of a segment. It
  accepts what can be cut into runs, one for each part of the pattern:

  * `covers_iff`:           a list is covered exactly if it can be cut so;
  * `segmentMatches_iff`:   a segment is obtained from its pattern by filling in the stars;
  * `isMatch_iff_stands`:   a path matches exactly if the pattern stands for it.
-/
import AndroidLint.Config
import AndroidLint.Proofs.PathPatterns
import Mathlib.Data.List.Forall2

namespace AndroidLint

/-! ## 1. Parts between slashes -/

namespace Text

/-- The parts of a text make the text. -/
theorem joinWith_splitOn (separator : Char) (cs : List Char) :
    joinWith [separator] (splitOn separator cs) = cs := by
  induction cs with
  | nil => rfl
  | cons c cs ih =>
    cases hsplit : splitOn separator cs with
    | nil => exact absurd hsplit (splitOn_ne_nil cs)
    | cons l ls =>
      rw [hsplit] at ih
      by_cases hc : c = separator
      · rw [splitOn, if_pos hc, hsplit, joinWith, ih, hc]
        · rfl
        · exact List.cons_ne_nil l ls
      · rw [splitOn_cons_of_ne hc hsplit]
        cases ls with
        | nil => exact congrArg (c :: ·) ih
        | cons m ms => exact congrArg (c :: ·) ih

theorem join_split (text : String) : join "/" (split '/' text) = text := by
  have hlists : (split '/' text).map String.toList = splitOn '/' text.toList := by
    rw [split, List.map_map]
    exact (List.map_congr_left fun _ _ => String.toList_ofList).trans (List.map_id _)
  have hslash : "/".toList = ['/'] := String.toList_ofList
  rw [join, hlists, hslash, joinWith_splitOn, String.ofList_toList]

end Text

namespace Glob

/-- The segments are the parts between slashes that are not empty. -/
theorem exists_parts_segments (text : String) :
    ∃ parts, text = Text.join "/" parts ∧ (∀ s ∈ parts, '/' ∉ s.toList) ∧
      segments text = parts.filter (· != "") := by
  refine ⟨Text.split '/' text, (Text.join_split text).symm, fun s hs => ?_, rfl⟩
  obtain ⟨l, hl, rfl⟩ := List.mem_map.mp hs
  rw [String.toList_ofList]
  exact Text.notMem_of_mem_splitOn hl

/-! ## 2. Lists in runs -/

/-- A list can be cut into runs, one for each part of a pattern, that the parts take. -/
def Runs {π α : Type} (takes : π → List α → Prop) (ps : List π) (xs : List α) : Prop :=
  ∃ runs, List.Forall₂ takes ps runs ∧ xs = runs.flatten

theorem runs_nil {π α : Type} {takes : π → List α → Prop} {xs : List α} :
    Runs takes [] xs ↔ xs = [] := by
  constructor
  · rintro ⟨runs, hruns, rfl⟩
    cases hruns
    rfl
  · rintro rfl
    exact ⟨[], .nil, rfl⟩

theorem runs_cons {π α : Type} {takes : π → List α → Prop} {p : π} {ps : List π} {xs : List α} :
    Runs takes (p :: ps) xs ↔ ∃ run rest, xs = run ++ rest ∧ takes p run ∧ Runs takes ps rest := by
  constructor
  · rintro ⟨runs, hruns, rfl⟩
    cases hruns with
    | cons hrun hrest => exact ⟨_, _, List.flatten_cons, hrun, _, hrest, rfl⟩
  · rintro ⟨run, rest, rfl, hrun, runs, hruns, rfl⟩
    exact ⟨run :: runs, .cons hrun hruns, List.flatten_cons.symm⟩

/-- **A pattern covers a list exactly if the list can be cut into runs**: any run for a wild part,
    and for any other part one element that fits it. -/
theorem covers_iff {π α : Type} {isWild : π → Bool} {fits : π → α → Bool} {ps : List π}
    {xs : List α} :
    covers isWild fits ps xs = true ↔
      Runs (fun p run => isWild p = true ∨ ∃ x, run = [x] ∧ fits p x = true) ps xs := by
  induction ps generalizing xs with
  | nil => rw [runs_nil, covers, List.isEmpty_iff]
  | cons p ps ih =>
    rw [runs_cons]
    cases hp : isWild p with
    | true =>
      rw [covers_cons_wild hp]
      constructor
      · rintro ⟨front, back, hxs, hback⟩
        exact ⟨front, back, hxs, .inl rfl, ih.mp hback⟩
      · rintro ⟨front, back, hxs, _, hback⟩
        exact ⟨front, back, hxs, ih.mpr hback⟩
    | false =>
      rw [covers_cons hp]
      constructor
      · rintro ⟨x, rest, hxs, hfits, hrest⟩
        exact ⟨[x], rest, hxs, .inr ⟨x, rfl, hfits⟩, ih.mp hrest⟩
      · rintro ⟨run, rest, hxs, hrun, hrest⟩
        obtain ⟨x, rfl, hfits⟩ := hrun.resolve_left Bool.false_ne_true
        exact ⟨x, rest, hxs, hfits, ih.mpr hrest⟩

theorem Runs.congr {π α : Type} {takes takes' : π → List α → Prop}
    (h : ∀ p run, takes p run ↔ takes' p run) (ps : List π) (xs : List α) :
    Runs takes ps xs ↔ Runs takes' ps xs := by
  have htakes : takes = takes' := funext fun p => funext fun run => propext (h p run)
  rw [htakes]

/-! ## 3. Segments -/

/-- A segment is its pattern with some text filled in for each star. -/
def Fills (pattern segment : String) : Prop :=
  Runs (fun c run => c = '*' ∨ run = [c]) pattern.toList segment.toList

/-- **A segment matches exactly if it is the pattern with the stars filled in.** -/
theorem segmentMatches_iff {pattern segment : String} :
    segmentMatches pattern segment = true ↔ Fills pattern segment := by
  rw [segmentMatches, covers_iff, Fills]
  refine Runs.congr (fun c run => ?_) _ _
  rw [beq_iff_eq]
  refine or_congr_right ⟨?_, fun h => ⟨c, h, beq_self_eq_true c⟩⟩
  rintro ⟨x, rfl, hx⟩
  rw [beq_iff_eq.mp hx]

/-- A pattern without stars is filled by itself alone. -/
theorem fills_iff_eq {pattern : String} (h : '*' ∉ pattern.toList) (segment : String) :
    Fills pattern segment ↔ segment = pattern := by
  have hlist (cs : List Char) (hcs : '*' ∉ cs) (xs : List Char) :
      Runs (fun c run => c = '*' ∨ run = [c]) cs xs ↔ xs = cs := by
    induction cs generalizing xs with
    | nil => exact runs_nil
    | cons c cs ih =>
      obtain ⟨hc, hcs⟩ := not_or.mp (mt List.mem_cons.mpr hcs)
      rw [runs_cons]
      constructor
      · rintro ⟨run, rest, rfl, hrun, hrest⟩
        rw [hrun.resolve_left (Ne.symm hc), (ih hcs rest).mp hrest, List.singleton_append]
      · rintro rfl
        exact ⟨[c], cs, rfl, .inr rfl, (ih hcs cs).mpr rfl⟩
  rw [Fills, hlist _ h, String.toList_inj]

/-! ## 4. Paths -/

/-- What a part of a pattern takes of a path: two stars take any segments, and any other part one
    segment that is the part with its stars filled in. -/
def Takes (part : String) (run : List String) : Prop :=
  part = "**" ∨ ∃ segment, run = [segment] ∧ Fills part segment

/-- What a pattern stands for: with a slash in it for whole paths, and without for the last segment
    of any path. -/
def Stands (pattern path : String) : Prop :=
  if '/' ∈ pattern.toList then Runs Takes (segments pattern) (segments path)
  else ∃ name, (segments path).getLast? = some name ∧ Fills pattern name

theorem isMatch_iff {pattern path : String} : isMatch pattern path = true ↔ Stands pattern path := by
  unfold isMatch Stands
  by_cases hslash : '/' ∈ pattern.toList
  · rw [if_pos (List.contains_iff_mem.mpr hslash), if_pos hslash, covers_iff]
    refine Runs.congr (fun part run => ?_) _ _
    rw [beq_iff_eq, Takes]
    exact or_congr_right (exists_congr fun s => and_congr_right fun _ => segmentMatches_iff)
  · rw [if_neg (mt List.contains_iff_mem.mp hslash), if_neg hslash]
    cases (segments path).getLast? with
    | none => simp
    | some name => simpa using segmentMatches_iff

/-- A name without stars, in folders of any depth. -/
theorem isMatch_everythingIn_iff_mem {name : String} (hname : name ≠ "")
    (hstar : '*' ∉ name.toList) (hslash : '/' ∉ name.toList) (path : String) :
    isMatch (everythingIn name) path = true ↔ name ∈ segments path := by
  have hwild : name ≠ "**" := by
    rintro rfl
    exact hstar (by decide)
  rw [isMatch_everythingIn hslash hname hwild]
  constructor
  · rintro ⟨s, hs, hmatch⟩
    rwa [← (fills_iff_eq hstar s).mp (segmentMatches_iff.mp hmatch)]
  · exact fun h => ⟨name, h, segmentMatches_self name⟩

/-- **A path matches exactly if the pattern stands for it**, where the segments of both are the parts
    between slashes that are not empty. The pattern for everything in folders of a name matches the
    paths that have the name as a segment. Paths are left out, and are those of tests, exactly if a
    configured pattern stands for them. -/
theorem isMatch_iff_stands (pattern path : String) :
    (isMatch pattern path = true ↔
      if '/' ∈ pattern.toList then
        ∃ runs, List.Forall₂ Takes (segments pattern) runs ∧ segments path = runs.flatten
      else ∃ name, (segments path).getLast? = some name ∧ Fills pattern name) ∧
    (∀ part segment : String, segmentMatches part segment = true ↔
      ∃ runs, List.Forall₂ (fun c run => c = '*' ∨ run = [c]) part.toList runs ∧
        segment.toList = runs.flatten) ∧
    (∀ text, ∃ parts, text = Text.join "/" parts ∧ (∀ s ∈ parts, '/' ∉ s.toList) ∧
      segments text = parts.filter (· != "")) ∧
    (∀ name : String, name ≠ "" → '*' ∉ name.toList → '/' ∉ name.toList →
      (isMatch ("**/" ++ name ++ "/**") path = true ↔ name ∈ segments path)) ∧
    ∀ (c : Config) (p : Path),
      (c.excludes p = true ↔ ∃ pattern ∈ c.exclude, Stands pattern p.display) ∧
      (c.isTestSource p = true ↔
        ∃ pattern ∈ c.android.testSourcePatterns, Stands pattern p.display) := by
  refine ⟨isMatch_iff, fun _ _ => segmentMatches_iff, exists_parts_segments,
    fun name hname hstar hslash => isMatch_everythingIn_iff_mem hname hstar hslash path,
    fun c p => ⟨?_, ?_⟩⟩
  · simp only [Config.excludes, List.any_eq_true, isMatch_iff]
  · simp only [Config.isTestSource, List.any_eq_true, isMatch_iff]

end Glob

end AndroidLint
