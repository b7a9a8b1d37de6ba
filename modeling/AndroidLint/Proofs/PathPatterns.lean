/-
  File:      AndroidLint/Proofs/PathPatterns.lean
  Subject:   Patterns that cover everything in folders of a name.

  * `covers_cons_wild`, `covers_cons`:  a pattern covers a list part by part;
  * `isMatch_everythingIn`:             the pattern for all that is in folders of a name;
  * `mem_segments_display`:             the steps of a path are segments of what patterns are held
                                        against.
-/
import AndroidLint.Glob
import AndroidLint.Proofs.SavedFiles

namespace AndroidLint

namespace Glob

/-! ## 1. Parts of a pattern -/

theorem mem_suffixes {α : Type} {xs back : List α} :
    back ∈ suffixes xs ↔ ∃ front, xs = front ++ back := by
  induction xs with
  | nil => simp [suffixes]
  | cons x xs ih =>
    rw [suffixes, List.mem_cons, ih]
    constructor
    · rintro (rfl | ⟨front, rfl⟩)
      · exact ⟨[], rfl⟩
      · exact ⟨x :: front, rfl⟩
    · rintro ⟨front, h⟩
      cases front with
      | nil => exact Or.inl h.symm
      | cons y front => exact Or.inr ⟨front, (List.cons.inj h).2⟩

section Covers

variable {π α : Type} {isWild : π → Bool} {fits : π → α → Bool} {p : π} {ps : List π} {xs : List α}

/-- A wild part takes any run of elements. -/
theorem covers_cons_wild (hp : isWild p = true) :
    covers isWild fits (p :: ps) xs = true ↔
      ∃ front back, xs = front ++ back ∧ covers isWild fits ps back = true := by
  rw [covers.eq_def]
  simp only [hp, if_true, List.any_eq_true]
  constructor
  · rintro ⟨back, hback, hcovers⟩
    obtain ⟨front, rfl⟩ := mem_suffixes.mp hback
    exact ⟨front, back, rfl, hcovers⟩
  · rintro ⟨front, back, rfl, hcovers⟩
    exact ⟨back, mem_suffixes.mpr ⟨front, rfl⟩, hcovers⟩

/-- Any other part takes one element that fits it. -/
theorem covers_cons (hp : isWild p = false) :
    covers isWild fits (p :: ps) xs = true ↔
      ∃ x rest, xs = x :: rest ∧ fits p x = true ∧ covers isWild fits ps rest = true := by
  rw [covers.eq_def]
  simp only [hp, Bool.false_eq_true, if_false]
  cases xs with
  | nil => simp
  | cons x xs =>
    rw [Bool.and_eq_true]
    constructor
    · rintro ⟨hx, hxs⟩
      exact ⟨x, xs, rfl, hx, hxs⟩
    · rintro ⟨y, rest, heq, hy, hrest⟩
      obtain ⟨rfl, rfl⟩ := List.cons.inj heq
      exact ⟨hy, hrest⟩

/-- A wild part at the end covers whatever is left. -/
theorem covers_wild (hp : isWild p = true) : covers isWild fits [p] xs = true :=
  (covers_cons_wild hp).mpr ⟨xs, [], (List.append_nil xs).symm, rfl⟩

/-- A part between two wild ones has to fit some element. -/
theorem covers_between {q : π} (hp : isWild p = true) (hq : isWild q = false) :
    covers isWild fits [p, q, p] xs = true ↔ ∃ x ∈ xs, fits q x = true := by
  rw [covers_cons_wild hp]
  constructor
  · rintro ⟨front, back, rfl, hback⟩
    obtain ⟨x, rest, rfl, hx, _⟩ := (covers_cons hq).mp hback
    exact ⟨x, List.mem_append_right front List.mem_cons_self, hx⟩
  · rintro ⟨x, hx, hfits⟩
    obtain ⟨front, back, rfl⟩ := List.append_of_mem hx
    exact ⟨front, x :: back, rfl, (covers_cons hq).mpr ⟨x, back, rfl, hfits, covers_wild hp⟩⟩

end Covers

/-- A list covers itself, wild parts or not. -/
theorem covers_self {α : Type} {isWild : α → Bool} {fits : α → α → Bool}
    (hfits : ∀ a, fits a a = true) (xs : List α) : covers isWild fits xs xs = true := by
  induction xs with
  | nil => rfl
  | cons x xs ih =>
    cases hx : isWild x with
    | true => exact (covers_cons_wild hx).mpr ⟨[x], xs, rfl, ih⟩
    | false => exact (covers_cons hx).mpr ⟨x, xs, rfl, hfits x, ih⟩

theorem segmentMatches_self (name : String) : segmentMatches name name = true :=
  covers_self beq_self_eq_true name.toList

/-! ## 2. Everything in a folder -/

/-- The pattern for everything in folders of a name, and for the folders themselves. -/
def everythingIn (name : String) : String := "**/" ++ name ++ "/**"

theorem segments_everythingIn {name : String} (hslash : '/' ∉ name.toList) (hname : name ≠ "") :
    segments (everythingIn name) = ["**", name, "**"] := by
  have htext : (everythingIn name).toList =
      ['*', '*'] ++ '/' :: (name.toList ++ '/' :: ['*', '*']) := by
    simp [everythingIn]
  rw [segments, Text.split, htext, Text.splitOn_append (by decide), Text.splitOn_append hslash,
    Text.splitOn_of_notMem (by decide)]
  have hstars : String.ofList ['*', '*'] = "**" := rfl
  simp [hstars, hname]

/-- **It covers the paths that lead through a segment of that name.** -/
theorem isMatch_everythingIn {name : String} (hslash : '/' ∉ name.toList) (hname : name ≠ "")
    (hwild : name ≠ "**") (path : String) :
    isMatch (everythingIn name) path = true ↔
      ∃ s ∈ segments path, segmentMatches name s = true := by
  have hcontains : (everythingIn name).toList.contains '/' = true := by
    simp [everythingIn]
  rw [isMatch, if_pos hcontains, segments_everythingIn hslash hname]
  exact covers_between rfl (beq_false_of_ne hwild)

end Glob

/-! ## 3. Steps of a path -/

namespace Text

section Split

variable {separator : Char}

theorem splitOn_cons_of_ne {c : Char} {cs l : List Char} {ls : List (List Char)}
    (hc : c ≠ separator) (h : splitOn separator cs = l :: ls) :
    splitOn separator (c :: cs) = (c :: l) :: ls := by
  rw [splitOn, if_neg hc, h]

/-- Where more separators come up by replacement, the parts are split further. -/
theorem splitOn_map {f : Char → Char} (hf : f separator = separator) (cs : List Char) :
    splitOn separator (cs.map f) =
      (splitOn separator cs).flatMap fun l => splitOn separator (l.map f) := by
  induction cs with
  | nil => rfl
  | cons c cs ih =>
    rw [List.map_cons]
    by_cases hc : c = separator
    · rw [hc, hf, splitOn, if_pos rfl, splitOn, if_pos rfl, List.flatMap_cons, ih]
      rfl
    · cases hsplit : splitOn separator cs with
      | nil => exact absurd hsplit (splitOn_ne_nil cs)
      | cons l ls =>
        rw [hsplit, List.flatMap_cons] at ih
        rw [splitOn_cons_of_ne hc hsplit, List.flatMap_cons, List.map_cons]
        by_cases hfc : f c = separator
        · rw [hfc, splitOn, if_pos rfl, splitOn, if_pos rfl, ih, List.cons_append]
        · cases hfirst : splitOn separator (l.map f) with
          | nil => exact absurd hfirst (splitOn_ne_nil _)
          | cons m ms =>
            rw [hfirst, List.cons_append] at ih
            rw [splitOn_cons_of_ne hfc ih, splitOn_cons_of_ne hfc hfirst, List.cons_append]

end Split

end Text

namespace Path

theorem component?_eq_name {first : Bool} {s n : String} (h : component? first s = some (.name n)) :
    s = n ∧ n ≠ "" := by
  unfold component? at h
  split at h
  · cases h
  · next hne =>
    split at h
    · split at h <;> cases h
    · split at h
      · cases h
      · cases h
        exact ⟨rfl, hne⟩

/-- A step that is a name is a part between slashes. -/
theorem mem_segments_of_name {p : Path} {n : String} (h : Component.name n ∈ p.components) :
    n ∈ p.segments ∧ n ≠ "" := by
  rw [components_eq] at h
  cases hsegments : p.segments with
  | nil =>
    rw [hsegments] at h
    cases h
  | cons s rest =>
    rw [hsegments, stepsOf, List.mem_append] at h
    rcases h with h | h
    · split at h
      · cases List.mem_singleton.mp h
      · obtain ⟨rfl, hne⟩ := component?_eq_name (Option.mem_toList.mp h)
        exact ⟨List.mem_cons_self, hne⟩
    · obtain ⟨t, ht, hname⟩ := List.mem_filterMap.mp h
      obtain ⟨rfl, hne⟩ := component?_eq_name hname
      exact ⟨List.mem_cons_of_mem s ht, hne⟩

/-- **A step that is a name is a segment of the text that patterns are held against**, unless there
    is a backslash in it. -/
theorem mem_segments_display {p : Path} {n : String} (h : Component.name n ∈ p.components)
    (hn : '\\' ∉ n.toList) : n ∈ Glob.segments p.display := by
  obtain ⟨hmem, hne⟩ := mem_segments_of_name h
  have hslash : '/' ∉ n.toList := notMem_of_mem_segments hmem
  obtain ⟨l, hl, rfl⟩ := List.mem_map.mp hmem
  rw [String.toList_ofList] at hn hslash
  have hsame : l.map (fun c => if c = '\\' then '/' else c) = l := by
    refine (List.map_congr_left fun c hc => ?_).trans (List.map_id l)
    exact if_neg (ne_of_mem_of_not_mem hc hn)
  refine List.mem_filter.mpr ⟨?_, bne_iff_ne.mpr hne⟩
  rw [display, Text.replaceChar, Text.split, String.toList_ofList, Text.splitOn_map (by decide)]
  refine List.mem_map_of_mem (List.mem_flatMap.mpr ⟨l, hl, ?_⟩)
  rw [hsame, Text.splitOn_of_notMem hslash]
  exact List.mem_singleton_self l

end Path

end AndroidLint
