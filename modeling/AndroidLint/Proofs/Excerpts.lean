/-
  File:      AndroidLint/Proofs/Excerpts.lean
  Subject:   The line of source in a report, and the marker underneath.

  A span counts line feeds, a report takes lines without their ends. A `LinePlace` is a position
  together with the line it stands on, so that the two can be compared:

  * `LinePlace.getElem?_lines`:  the line with the number of a position is the one it stands on;
  * `exists_linePlace_iff`:      a position stands on no line only behind the last one;
  * `excerpt?_ofRange`:          the excerpt of a span.
-/
import AndroidLint.Proofs.Positions
import AndroidLint.Report.Text

namespace AndroidLint

namespace Text

/-! ## 1. Positions on lines -/

/-- The end of a line: a line feed with the carriage return in front of it, or the end of the text
    behind a line that is not empty. -/
inductive LineEnd (line later : List Char) : List Char → Prop where
  | feed (bare : line.getLast? ≠ some '\r') : LineEnd line later ['\n']
  | returnFeed : LineEnd line later ['\r', '\n']
  | text (last : later = []) (some : line ≠ []) : LineEnd line later []

/-- A position in a text, and the line it stands on. The position may be in the end of the line, but
    not behind it. -/
structure LinePlace where
  /-- The lines in front. -/
  earlier : List Char
  /-- What stands on the line before the position. -/
  head : List Char
  line : List Char
  ending : List Char
  /-- The lines behind. -/
  later : List Char
  begins : earlier = [] ∨ earlier.getLast? = some '\n'
  single : '\n' ∉ line
  ends : LineEnd line later ending
  inside : head <+: line ++ ending
  notBehind : head = line ++ ending → ending = []

namespace LinePlace

/-- The whole text. -/
def contents (p : LinePlace) : List Char := p.earlier ++ (p.line ++ p.ending ++ p.later)

/-- What stands before the position. -/
def before (p : LinePlace) : List Char := p.earlier ++ p.head

end LinePlace

/-- A position behind the last line feed of a text in which no character follows it. -/
def BehindLastLine (contents : List Char) (n : Nat) : Prop :=
  n = width contents ∧ (contents = [] ∨ contents.getLast? = some '\n')

/-! ## 2. Lines of a text -/

theorem linesFrom_append {cs : List Char} (h : '\n' ∉ cs) (line rest : List Char) :
    linesFrom line (cs ++ rest) = linesFrom (cs.reverse ++ line) rest := by
  induction cs generalizing line with
  | nil => rfl
  | cons c cs ih =>
    have hc : c ≠ '\n' := fun heq => h (heq ▸ List.mem_cons_self)
    rw [List.cons_append, linesFrom, if_neg hc, ih (fun hmem => h (List.mem_cons_of_mem c hmem)),
      List.reverse_cons, List.append_assoc, List.singleton_append]

/-- A text that ends with a line feed has as many lines as line feeds, and what follows has its own
    lines. -/
theorem exists_lines_append {earlier : List Char}
    (h : earlier = [] ∨ earlier.getLast? = some '\n') (rest : List Char) :
    ∃ ls, ls.length = earlier.count '\n' ∧ lines (earlier ++ rest) = ls ++ lines rest := by
  have hfeed : ∀ (front line : List Char), ∃ ls, ls.length = (front ++ ['\n']).count '\n' ∧
      linesFrom line (front ++ '\n' :: rest) = ls ++ linesFrom [] rest := by
    intro front
    induction front with
    | nil => exact fun line => ⟨[endLine line], rfl, rfl⟩
    | cons c front ih =>
      intro line
      rw [List.cons_append, List.cons_append, linesFrom, List.count_cons]
      by_cases hc : c = '\n'
      · obtain ⟨ls, hlength, hls⟩ := ih []
        refine ⟨endLine line :: ls, ?_, ?_⟩
        · rw [List.length_cons, hlength, if_pos (beq_iff_eq.mpr hc)]
        · rw [if_pos hc, hls, List.cons_append]
      · obtain ⟨ls, hlength, hls⟩ := ih (c :: line)
        refine ⟨ls, ?_, ?_⟩
        · rw [hlength, if_neg (fun heq => hc (beq_iff_eq.mp heq)), Nat.add_zero]
        · rw [if_neg hc, hls]
  rcases h with rfl | h
  · exact ⟨[], rfl, rfl⟩
  · obtain ⟨front, rfl⟩ := List.getLast?_eq_some_iff.mp h
    obtain ⟨ls, hlength, hls⟩ := hfeed front []
    refine ⟨ls, hlength, ?_⟩
    rw [List.append_assoc, List.singleton_append]
    exact hls

theorem endLine_reverse {line : List Char} (h : line.getLast? ≠ some '\r') :
    endLine line.reverse = line := by
  unfold endLine
  split
  · next cs hcs =>
    rw [← List.head?_reverse, hcs] at h
    exact absurd rfl h
  · exact List.reverse_reverse line

/-- The first line of a text is what stands before its end. -/
theorem head?_lines {line ending later : List Char} (hline : '\n' ∉ line)
    (h : LineEnd line later ending) :
    (lines (line ++ ending ++ later)).head? = some line := by
  unfold lines
  rw [List.append_assoc, linesFrom_append hline, List.append_nil]
  cases h with
  | feed bare =>
    show some (endLine line.reverse) = some line
    rw [endLine_reverse bare]
  | returnFeed =>
    show some line.reverse.reverse = some line
    rw [List.reverse_reverse]
  | text last some =>
    subst last
    have hsome : line.reverse.isEmpty = false := by
      rw [List.isEmpty_eq_false_iff]
      exact fun hnil => some (List.reverse_eq_nil_iff.mp hnil)
    rw [List.append_nil, linesFrom, hsome]
    show Option.some line.reverse.reverse = _
    rw [List.reverse_reverse]

/-! ## 3. The line of a position -/

/-- Before the end of a line is reached, no line feed has come. -/
theorem LineEnd.newline_notMem {line later ending head : List Char} (h : LineEnd line later ending)
    (hline : '\n' ∉ line) (hinside : head <+: line ++ ending)
    (hbehind : head = line ++ ending → ending = []) : '\n' ∉ head := by
  have hlast : ∀ front : List Char, '\n' ∉ front → head <+: front ++ ['\n'] →
      head ≠ front ++ ['\n'] → '\n' ∉ head := by
    intro front hfront hpre hne
    rcases List.prefix_concat_iff.mp hpre with heq | hpre
    · exact absurd heq hne
    · exact fun hmem => hfront (hpre.subset hmem)
  cases h with
  | feed => exact hlast line hline hinside fun heq => List.cons_ne_nil _ _ (hbehind heq)
  | returnFeed =>
    have hfront : '\n' ∉ line ++ ['\r'] := by
      simpa using hline
    refine hlast (line ++ ['\r']) hfront ?_ ?_
    · rwa [List.append_assoc]
    · rw [List.append_assoc]
      exact fun heq => List.cons_ne_nil _ _ (hbehind heq)
  | text =>
    rw [List.append_nil] at hinside
    exact fun hmem => hline (hinside.subset hmem)

namespace LinePlace

variable (p : LinePlace)

theorem newline_notMem_head : '\n' ∉ p.head :=
  p.ends.newline_notMem p.single p.inside p.notBehind

theorem count_before : p.before.count '\n' = p.earlier.count '\n' := by
  rw [before, List.count_append, List.count_eq_zero.mpr p.newline_notMem_head, Nat.add_zero]

/-- **The line with the number of a position is the one it stands on.** -/
theorem getElem?_lines : (lines p.contents)[p.before.count '\n']? = some p.line := by
  obtain ⟨ls, hlength, hls⟩ := exists_lines_append p.begins (p.line ++ p.ending ++ p.later)
  rw [contents, hls, p.count_before, ← hlength, List.getElem?_append_right (Nat.le_refl _),
    Nat.sub_self, ← List.head?_eq_getElem?]
  exact head?_lines p.single p.ends

/-- The line of a position, and its column. -/
theorem lineColumn_before_append {cs : List Char} (h : '\n' ∉ cs) :
    lineColumn (p.before ++ cs) = (p.before.count '\n' + 1, p.head.length + cs.length) := by
  have hhead : ∀ c ∈ (p.head ++ cs).reverse, (c != '\n') = true := by
    intro c hc
    refine bne_iff_ne.mpr fun heq => ?_
    rw [heq, List.mem_reverse, List.mem_append] at hc
    exact hc.elim p.newline_notMem_head h
  have hearlier : p.earlier.reverse.takeWhile (· != '\n') = [] := by
    rcases p.begins with hnil | hlast
    · rw [hnil]
      rfl
    · obtain ⟨front, hfront⟩ := List.getLast?_eq_some_iff.mp hlast
      rw [hfront, List.reverse_concat]
      rfl
  rw [lineColumn_eq, List.count_append, List.count_eq_zero.mpr h, before, List.append_assoc,
    List.reverse_append, List.takeWhile_append_of_pos hhead, hearlier, List.append_nil,
    List.length_reverse, List.length_append]

end LinePlace

theorem getElem?_lines_of_behind {contents : List Char} {n : Nat} (h : BehindLastLine contents n) :
    (lines contents)[contents.count '\n']? = none := by
  obtain ⟨ls, hlength, hls⟩ := exists_lines_append h.2 []
  have hnil : lines [] = [] := rfl
  rw [List.append_nil, hnil, List.append_nil] at hls
  rw [hls, ← hlength]
  exact List.getElem?_eq_none (Nat.le_refl _)

/-- What stands on the last line of a text, and the lines in front. -/
theorem exists_lastLine (cs : List Char) : ∃ earlier head, cs = earlier ++ head ∧
    (earlier = [] ∨ earlier.getLast? = some '\n') ∧ '\n' ∉ head := by
  induction cs using List.reverseRecOn with
  | nil => exact ⟨[], [], rfl, .inl rfl, List.not_mem_nil⟩
  | append_singleton cs c ih =>
    by_cases hc : c = '\n'
    · refine ⟨cs ++ [c], [], (List.append_nil _).symm, .inr ?_, List.not_mem_nil⟩
      rw [hc, List.getLast?_concat]
    · obtain ⟨earlier, head, rfl, hearlier, hhead⟩ := ih
      refine ⟨earlier, head ++ [c], List.append_assoc _ _ _, hearlier, ?_⟩
      simp [hhead, Ne.symm hc]

/-- What stands on the first line of a text, and what follows. -/
theorem exists_firstLine (cs : List Char) : ∃ tail after, cs = tail ++ after ∧ '\n' ∉ tail ∧
    (after = [] ∨ ∃ later, after = '\n' :: later) := by
  induction cs with
  | nil => exact ⟨[], [], rfl, List.not_mem_nil, .inl rfl⟩
  | cons c cs ih =>
    by_cases hc : c = '\n'
    · exact ⟨[], c :: cs, rfl, List.not_mem_nil, .inr ⟨cs, by rw [hc]⟩⟩
    · obtain ⟨tail, after, rfl, htail, hafter⟩ := ih
      refine ⟨c :: tail, after, rfl, ?_, hafter⟩
      simp [htail, Ne.symm hc]

theorem exists_linePlace {front rest : List Char}
    (h : ¬ BehindLastLine (front ++ rest) (width front)) :
    ∃ p : LinePlace, p.contents = front ++ rest ∧ p.before = front := by
  obtain ⟨earlier, head, rfl, hearlier, hhead⟩ := exists_lastLine front
  obtain ⟨tail, after, rfl, htail, hafter⟩ := exists_firstLine rest
  have hfull : '\n' ∉ head ++ tail := by
    simp [hhead, htail]
  have hpre : head <+: head ++ tail := List.prefix_append _ _
  rcases hafter with rfl | ⟨later, rfl⟩
  · -- nothing follows the line, so it has characters
    have hsome : head ++ tail ≠ [] := by
      intro hnil
      obtain ⟨rfl, rfl⟩ := List.append_eq_nil_iff.mp hnil
      simp only [List.append_nil] at h
      exact h ⟨rfl, hearlier⟩
    refine ⟨⟨earlier, head, head ++ tail, [], [], hearlier, hfull, .text rfl hsome, ?_,
      fun _ => rfl⟩,
      ?_, rfl⟩
    · rwa [List.append_nil]
    · simp [LinePlace.contents]
  · by_cases hlast : (head ++ tail).getLast? = some '\r'
    · obtain ⟨line, hline⟩ := List.getLast?_eq_some_iff.mp hlast
      have hnot : '\n' ∉ line := fun hmem => hfull (hline ▸ List.mem_append_left _ hmem)
      refine ⟨⟨earlier, head, line, ['\r', '\n'], later, hearlier, hnot, .returnFeed, ?_, ?_⟩,
        ?_, rfl⟩
      · rw [hline] at hpre
        exact hpre.trans (by simp)
      · intro heq
        exact absurd (heq ▸ by simp) hhead
      · have hparts : head ++ (tail ++ '\n' :: later) = line ++ ['\r'] ++ '\n' :: later := by
          rw [← hline, List.append_assoc]
        simp [LinePlace.contents, hparts]
    · refine ⟨⟨earlier, head, head ++ tail, ['\n'], later, hearlier, hfull, .feed hlast, ?_, ?_⟩,
        ?_, rfl⟩
      · exact hpre.trans (List.prefix_append _ _)
      · intro heq
        exact absurd (heq ▸ by simp) hhead
      · simp [LinePlace.contents]

/-- **A position stands on no line only behind the last one.** -/
theorem exists_linePlace_iff {front rest : List Char} :
    (∃ p : LinePlace, p.contents = front ++ rest ∧ p.before = front) ↔
      ¬ BehindLastLine (front ++ rest) (width front) := by
  refine ⟨fun ⟨p, hcontents, hbefore⟩ h => ?_, exists_linePlace⟩
  have hline := p.getElem?_lines
  have hall : front = front ++ rest := by
    have hw : width (front ++ rest) = width front := h.1.symm
    exact (append_inj_of_width (List.append_nil (front ++ rest)) hw).1.symm
  rw [hcontents, hbefore] at hline
  have hnone := getElem?_lines_of_behind h
  rw [← hall] at hline hnone
  rw [hnone] at hline
  cases hline

end Text

/-! ## 4. Excerpts -/

theorem Project.file?_of_mem {p : Project}
    (hdistinct : p.files.Pairwise fun f g => f.path.same g.path = false) {f : File}
    (hf : f ∈ p.files) : p.file? f.path = some f := by
  have hself : f.path.same f.path = true := beq_self_eq_true f.path.components
  obtain ⟨front, back, hparts⟩ := List.append_of_mem hf
  rw [hparts] at hdistinct
  have hnone : front.find? (·.path.same f.path) = none := by
    refine List.find?_eq_none.mpr fun g hg => ?_
    rw [(List.pairwise_append.mp hdistinct).2.2 g hg f List.mem_cons_self]
    exact Bool.false_ne_true
  rw [file?, hparts, List.find?_append, hnone, List.find?_cons, hself]
  rfl

namespace Report

open Text

/-- The number of characters that a span takes on the line of its beginning. -/
def shownLength (place : LinePlace) (written : List Char) : Nat :=
  if '\n' ∈ written then (place.line.drop place.head.length).length else written.length

/-- The marker under a span has a tilde for each character that the span takes on its first line. -/
theorem marker_resolve {contents written rest : List Char} {range : ByteRange} (place : LinePlace)
    (hparts : contents = place.before ++ written ++ rest)
    (hstart : (Span.resolve contents range).start = width place.before)
    (hstop : (Span.resolve contents range).stop = width place.before + width written) :
    (Span.resolve contents range).line = place.before.count '\n' + 1 ∧
      (Span.resolve contents range).column = place.head.length ∧
      marker (Span.resolve contents range) place.line.length =
        String.ofList (List.replicate place.head.length ' ' ++
          if shownLength place written = 0 then ['^']
          else List.replicate (shownLength place written) '~') := by
  have hbefore : before (width place.before) contents = place.before := by
    rw [hparts, List.append_assoc, before_width]
  have hbefore' : before (width place.before + width written) contents =
      place.before ++ written := by
    rw [hparts, ← width_append, before_width]
  have hfirst : ((Span.resolve contents range).line, (Span.resolve contents range).column) =
      (place.before.count '\n' + 1, place.head.length) := by
    show lineColumn (before (Span.resolve contents range).start contents) = _
    have hcolumn := place.lineColumn_before_append List.not_mem_nil
    rw [List.append_nil] at hcolumn
    rw [hstart, hbefore, hcolumn]
    rfl
  have hlast : ((Span.resolve contents range).endLine, (Span.resolve contents range).endColumn) =
      lineColumn (place.before ++ written) := by
    show lineColumn (before (Span.resolve contents range).stop contents) = _
    rw [hstop, hbefore']
  obtain ⟨hline, hcolumn⟩ := Prod.mk.inj hfirst
  refine ⟨hline, hcolumn, ?_⟩
  have hcount : (if (Span.resolve contents range).endLine = (Span.resolve contents range).line
      then (Span.resolve contents range).endColumn else place.line.length) -
      (Span.resolve contents range).column = shownLength place written := by
    unfold shownLength
    rw [hline, hcolumn]
    by_cases hfeed : '\n' ∈ written
    · have hlater : (Span.resolve contents range).endLine ≠ place.before.count '\n' + 1 := by
        have hend := congrArg Prod.fst (hlast.trans (lineColumn_eq _))
        have hpos := List.count_pos_iff.mpr hfeed
        simp only [List.count_append] at hend
        omega
      rw [if_pos hfeed, if_neg hlater, List.length_drop]
    · rw [place.lineColumn_before_append hfeed] at hlast
      obtain ⟨hend, hcolumn'⟩ := Prod.mk.inj hlast
      rw [if_neg hfeed, if_pos hend, hcolumn', Nat.add_sub_cancel_left]
  unfold marker
  dsimp only
  rw [hcount, hcolumn]

theorem excerpt?_eq_map {p : Project} {l : Location} {s : Span} {f : File} (hspan : l.span = some s)
    (hfile : p.file? l.file = some f) :
    excerpt? p l = (lines f.contents.toList)[s.line - 1]?.map fun line =>
      (String.ofList (trimEnd line), marker s line.length) := by
  unfold excerpt?
  rw [hspan, hfile]
  simp only [Option.bind_eq_bind, Option.bind_some, Option.pure_def, Option.map_eq_bind]
  rfl

/-- **A report shows the line of an incident and marks the incident on it.** -/
theorem excerpt?_ofRange {p : Project}
    (hdistinct : p.files.Pairwise fun f g => f.path.same g.path = false) {f : File}
    (hf : f ∈ p.files) (range : ByteRange) :
    let contents := f.contents.toList
    let s := Span.resolve contents range
    let excerpt := excerpt? p (.ofRange f.path f.contents range)
    ∃ written, slice? contents ⟨s.start, s.stop⟩ = some written ∧
      (excerpt = none ↔ BehindLastLine contents s.start) ∧
      (¬ BehindLastLine contents s.start → ∃ place : LinePlace,
        place.contents = contents ∧ place.before = before s.start contents) ∧
      ∀ place : LinePlace, place.contents = contents → place.before = before s.start contents →
        s.column = place.head.length ∧
        excerpt = some (String.ofList (trimEnd place.line),
          String.ofList (List.replicate s.column ' ' ++
            if shownLength place written = 0 then ['^']
            else List.replicate (shownLength place written) '~')) := by
  intro contents s excerpt
  obtain ⟨front, written, rest, hparts, hrange⟩ := (Span.fitsIn_resolve contents range).exists_parts
  obtain ⟨hstart, hstop⟩ := ByteRange.mk.inj hrange
  have hbefore : before s.start contents = front := by
    rw [show s.start = width front from hstart, hparts, List.append_assoc, before_width]
  have hwritten : slice? contents ⟨s.start, s.stop⟩ = some written := by
    rw [hrange, hparts, slice?_width]
  rw [hbefore]
  have hline : s.line = front.count '\n' + 1 := by
    show (lineColumn (before s.start contents)).1 = _
    rw [hbefore, lineColumn_eq]
  -- the excerpt is made of the line with the number of line feeds before the span
  have hexcerpt : excerpt = (lines contents)[front.count '\n']?.map fun line =>
      (String.ofList (trimEnd line), marker s line.length) := by
    have hmap : excerpt? p (.ofRange f.path f.contents range) = _ :=
      excerpt?_eq_map rfl (p.file?_of_mem hdistinct hf)
    rw [hline, Nat.add_sub_cancel] at hmap
    exact hmap
  have hshown : ∀ place : LinePlace, place.contents = contents → place.before = front →
      s.column = place.head.length ∧
      excerpt = some (String.ofList (trimEnd place.line),
        String.ofList (List.replicate s.column ' ' ++
          if shownLength place written = 0 then ['^']
          else List.replicate (shownLength place written) '~')) := by
    rintro place hcontents rfl
    obtain ⟨-, hcolumn, hmarker⟩ := marker_resolve place hparts hstart hstop
    have hfound := place.getElem?_lines
    rw [hcontents] at hfound
    refine ⟨hcolumn, ?_⟩
    rw [hexcerpt, hfound, hcolumn]
    exact congrArg (fun m => some (String.ofList (trimEnd place.line), m)) hmarker
  have hplaces : (∃ place : LinePlace, place.contents = contents ∧ place.before = front) ↔
      ¬ BehindLastLine contents s.start := by
    rw [show s.start = width front from hstart, hparts, List.append_assoc]
    exact exists_linePlace_iff
  refine ⟨written, hwritten, ⟨fun hnone => ?_, fun hbehind => ?_⟩, hplaces.mpr, hshown⟩
  · by_contra hnot
    obtain ⟨place, hcontents, hplace⟩ := hplaces.mpr hnot
    rw [(hshown place hcontents hplace).2] at hnone
    cases hnone
  · have hall : front = contents := by
      have hwhole := before_width contents []
      rw [List.append_nil, ← hbehind.1] at hwhole
      exact hbefore.symm.trans hwhole
    rw [hexcerpt, hall, getElem?_lines_of_behind hbehind]
    rfl

/-- A file with both ends of lines, and one that is not looked at. -/
def twoEndsProject : Project := ⟨⟨""⟩, [⟨⟨"a.xml"⟩, "x"⟩, ⟨⟨"b.xml"⟩, "ab \r\nc\n"⟩], {}⟩

/-- A span from the second character of a line into the next one is marked up to the end of the
    first; its blank counts, but is not shown. -/
theorem excerpt?_ofRange_twoEnds :
    (twoEndsProject.files.Pairwise fun f g => f.path.same g.path = false) ∧
    (⟨⟨"b.xml"⟩, "ab \r\nc\n"⟩ : File) ∈ twoEndsProject.files ∧
    excerpt? twoEndsProject (.ofRange ⟨"b.xml"⟩ "ab \r\nc\n" ⟨1, 6⟩) = some ("ab", " ~~") := by
  have hdistinct : twoEndsProject.files.Pairwise fun f g => f.path.same g.path = false := by
    decide
  have hmem : (⟨⟨"b.xml"⟩, "ab \r\nc\n"⟩ : File) ∈ twoEndsProject.files :=
    List.mem_cons_of_mem _ List.mem_cons_self
  obtain ⟨written, hwritten, -, -, hshown⟩ := excerpt?_ofRange hdistinct hmem ⟨1, 6⟩
  let place : LinePlace := {
    earlier := []
    head := ['a']
    line := ['a', 'b', ' ']
    ending := ['\r', '\n']
    later := ['c', '\n']
    begins := .inl rfl
    single := by decide
    ends := .returnFeed
    inside := ⟨_, rfl⟩
    notBehind := by decide }
  have hplace : place.contents = "ab \r\nc\n".toList := by decide
  have hall : written = ['b', ' ', '\r', '\n', 'c'] :=
    Option.some.inj (hwritten.symm.trans (by decide))
  subst hall
  refine ⟨hdistinct, hmem, (hshown place hplace (by decide)).2.trans (by decide)⟩

end Report

end AndroidLint
