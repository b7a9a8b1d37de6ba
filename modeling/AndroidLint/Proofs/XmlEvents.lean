/-
  File:      AndroidLint/Proofs/XmlEvents.lean
  Subject:   The events of a text are its parts, one behind the other.

  Each event takes the characters of its range, the next one begins where it ends, and a start tag
  or an empty one is written as a `<`, its name and what else is in the tag:

  * `Consecutive.pairwise`:   events that follow each other are in the order of the text;
  * `scanFrom_covers`:        the events of the rest of a text;
  * `scan_covers`:            the events of a text without a byte order mark;
  * `scan_consecutive`:       with or without one, they follow each other.
-/
import Mathlib.Data.List.Pairwise
import AndroidLint.Proofs.Slices
import AndroidLint.Xml.Event

namespace AndroidLint.Xml

open Text

/-! ## 1. Events and the characters they take -/

/-- How a tag with a name is written. -/
def writtenTag (name inner : List Char) : List Char := '<' :: (name ++ inner) ++ ['>']

/-- The event takes a part of the text that is not empty; a tag is written with its name. -/
def Placed.LiesIn (contents : List Char) (p : Placed) : Prop :=
  ∃ as written cs, contents = as ++ written ++ cs ∧
    p.range = ⟨width as, width as + width written⟩ ∧ written ≠ [] ∧
    ∀ tag, p.event = .start tag ∨ p.event = .empty tag → ∃ inner, written = writtenTag tag inner

/-- Each event begins where the one before it ends, the first one at an offset. -/
def Consecutive : Nat → List Placed → Prop
  | _, [] => True
  | n, p :: ps => p.range.start = n ∧ Consecutive p.range.stop ps

theorem Placed.LiesIn.lt {contents : List Char} {p : Placed} (h : p.LiesIn contents) :
    p.range.start < p.range.stop := by
  obtain ⟨as, written, cs, _, hrange, hne, _⟩ := h
  have hpos := width_pos hne
  rw [hrange]
  show width as < width as + width written
  omega

theorem Placed.LiesIn.fitsIn {contents : List Char} {p : Placed} (h : p.LiesIn contents) :
    p.range.FitsIn contents := by
  obtain ⟨as, written, cs, rfl, hrange, _⟩ := h
  rw [hrange]
  exact ByteRange.fitsIn_width as written cs

/-! ## 2. Events that follow each other -/

/-- Where the last of some events ends that begin at an offset. -/
def reached : Nat → List Placed → Nat
  | n, [] => n
  | _, p :: ps => reached p.range.stop ps

theorem Consecutive.append {n : Nat} {earlier later : List Placed} {p : Placed}
    (h : Consecutive n (earlier ++ p :: later)) :
    Consecutive n earlier ∧ p.range.start = reached n earlier := by
  induction earlier generalizing n with
  | nil => exact ⟨trivial, h.1⟩
  | cons q earlier ih =>
    obtain ⟨hq, hrest⟩ := h
    obtain ⟨hearlier, hstart⟩ := ih hrest
    exact ⟨⟨hq, hearlier⟩, hstart⟩

theorem Consecutive.le_reached {n : Nat} {events : List Placed} (h : Consecutive n events)
    (hlt : ∀ p ∈ events, p.range.start < p.range.stop) : n ≤ reached n events := by
  induction events generalizing n with
  | nil => exact Nat.le_refl n
  | cons p events ih =>
    obtain ⟨rfl, hrest⟩ := h
    obtain ⟨hp, hevents⟩ := List.forall_mem_cons.mp hlt
    exact Nat.le_trans (Nat.le_of_lt hp) (ih hrest hevents)

theorem Consecutive.stop_le_reached {n : Nat} {events : List Placed} (h : Consecutive n events)
    (hlt : ∀ p ∈ events, p.range.start < p.range.stop) {q : Placed} (hq : q ∈ events) :
    q.range.stop ≤ reached n events := by
  induction events generalizing n with
  | nil => cases hq
  | cons p events ih =>
    obtain ⟨rfl, hrest⟩ := h
    obtain ⟨_, hevents⟩ := List.forall_mem_cons.mp hlt
    rcases List.mem_cons.mp hq with rfl | hq
    · exact hrest.le_reached hevents
    · exact ih hrest hevents hq

theorem Consecutive.le_start {n : Nat} {events : List Placed} (h : Consecutive n events)
    (hlt : ∀ p ∈ events, p.range.start < p.range.stop) {q : Placed} (hq : q ∈ events) :
    n ≤ q.range.start := by
  induction events generalizing n with
  | nil => cases hq
  | cons p events ih =>
    obtain ⟨rfl, hrest⟩ := h
    obtain ⟨hp, hevents⟩ := List.forall_mem_cons.mp hlt
    rcases List.mem_cons.mp hq with rfl | hq
    · exact Nat.le_refl _
    · exact Nat.le_trans (Nat.le_of_lt hp) (ih hrest hevents hq)

/-- Events that follow each other are in the order of the text, none of them twice. -/
theorem Consecutive.pairwise {n : Nat} {events : List Placed} (h : Consecutive n events)
    (hlt : ∀ p ∈ events, p.range.start < p.range.stop) :
    events.Pairwise fun p q => p.range.Precedes q.range := by
  induction events generalizing n with
  | nil => exact List.Pairwise.nil
  | cons p events ih =>
    obtain ⟨rfl, hrest⟩ := h
    obtain ⟨hp, hevents⟩ := List.forall_mem_cons.mp hlt
    refine List.pairwise_cons.mpr ⟨fun q hq => ?_, ih hrest hevents⟩
    have hle := hrest.le_start hevents hq
    exact ⟨hle, Nat.lt_of_lt_of_le hp hle⟩

/-- Around an event, those before it end where it begins or earlier, and those behind it end later
    than it does. -/
theorem Consecutive.around {n : Nat} {seen later : List Placed} {p : Placed}
    (h : Consecutive n (seen ++ p :: later))
    (hlt : ∀ q ∈ seen ++ p :: later, q.range.start < q.range.stop) :
    (∀ q ∈ seen, q.range.stop ≤ p.range.start) ∧ ∀ q ∈ later, p.range.stop < q.range.stop := by
  obtain ⟨_, hbehind, hbefore⟩ := List.pairwise_append.mp (h.pairwise hlt)
  refine ⟨fun q hq => (hbefore q hq p List.mem_cons_self).1, fun q hq => ?_⟩
  have hprecedes := (List.pairwise_cons.mp hbehind).1 q hq
  exact Nat.lt_of_le_of_lt hprecedes.1
    (hlt q (List.mem_append_right _ (List.mem_cons_of_mem p hq)))

theorem Consecutive.apart {n : Nat} {events : List Placed} (h : Consecutive n events)
    (hlt : ∀ p ∈ events, p.range.start < p.range.stop) {p q : Placed} (hp : p ∈ events)
    (hq : q ∈ events) (hne : p ≠ q) :
    p.range.stop ≤ q.range.start ∨ q.range.stop ≤ p.range.start := by
  have hsymm : Std.Symm fun p q : Placed =>
      p.range.stop ≤ q.range.start ∨ q.range.stop ≤ p.range.start := ⟨fun _ _ => Or.symm⟩
  have hpairs : events.Pairwise fun p q =>
      p.range.stop ≤ q.range.start ∨ q.range.stop ≤ p.range.start :=
    (h.pairwise hlt).imp fun hprecedes => Or.inl hprecedes.1
  exact hpairs.forall hp hq hne

/-! ## 3. Tags -/

theorem Reading.exists_of_upToClose {begin : Char} {make : List Char → Piece}
    {cs used rest : List Char} {piece : Piece}
    (h : Reading.upToClose begin make cs = .piece piece used rest) :
    ∃ content, piece = make content := by
  unfold Reading.upToClose at h
  split at h <;> exact ⟨_, (Reading.piece.inj h).1.symm⟩

theorem Reading.exists_of_bang {construct : Construct} {make : List Char → Piece}
    {accept : List Char → Bool} {cs used rest : List Char} {piece : Piece}
    (h : Reading.bang construct make accept cs = .piece piece used rest) :
    ∃ content, piece = make content := by
  unfold Reading.bang at h
  split at h
  · exact ⟨_, (Reading.piece.inj h).1.symm⟩
  · cases h

/-- A tag is followed to its `>`. -/
theorem Piece.used_of_tag {cs content used rest : List Char}
    (h : Piece.read cs = .piece (.tag content) used rest) : used = content ++ ['>'] := by
  unfold Piece.read at h
  split at h
  · cases h
  · nomatch Reading.exists_of_upToClose h
  · nomatch Reading.exists_of_upToClose h
  · split at h
    · cases h
    · nomatch Reading.exists_of_bang h
    · nomatch Reading.exists_of_bang h
    · nomatch Reading.exists_of_bang h
    · nomatch Reading.exists_of_bang h
    · cases h
  · split at h
    · cases h
      rfl
    · cases h

/-- Only tags begin elements, and the name stands first in them. -/
theorem Piece.eq_tag_of_event {piece : Piece} {opened opened' : List (List Char)} {event : Event}
    (h : piece.event opened = .ok (event, opened')) {name : List Char}
    (hname : event = .start name ∨ event = .empty name) :
    ∃ inner, piece = .tag (name ++ inner) := by
  cases piece with
  | tag content =>
    simp only [Piece.event] at h
    have hhead : ∃ inner, content = content.takeWhile (fun c => !isNameBlank c) ++ inner :=
      ⟨_, List.takeWhile_append_dropWhile.symm⟩
    split at h
    · next hlast =>
      cases h
      rcases hname with hname | hname
      · cases hname
      · -- an empty tag without blanks is its name and a slash
        have hslash : content = content.dropLast ++ ['/'] := by
          obtain ⟨front, rfl⟩ := List.getLast?_eq_some_iff.mp hlast
          rw [List.dropLast_concat]
        rw [← Event.empty.inj hname]
        split
        · obtain ⟨inner, hinner⟩ := hhead
          exact ⟨inner, congrArg Piece.tag hinner⟩
        · exact ⟨['/'], congrArg Piece.tag hslash⟩
    · cases h
      rcases hname with hname | hname
      · rw [← Event.start.inj hname]
        obtain ⟨inner, hinner⟩ := hhead
        exact ⟨inner, congrArg Piece.tag hinner⟩
      · cases hname
  | ending content =>
    simp only [Piece.event] at h
    split at h
    · cases h
    · split at h <;> cases h
      rcases hname with hname | hname <;> cases hname
  | question content | comment content | cdata content =>
    simp only [Piece.event] at h
    split at h <;> cases h
    rcases hname with hname | hname <;> cases hname
  | doctype content =>
    simp only [Piece.event] at h
    split at h
    · split at h <;> cases h
      rcases hname with hname | hname <;> cases hname
    · cases h

/-! ## 4. All events -/

/-- The events of a scan follow each other from an offset on and lie in the text. -/
def Scan.Covers (contents : List Char) (offset : Nat) (scan : Scan) : Prop :=
  Consecutive offset scan.events ∧ ∀ p ∈ scan.events, p.LiesIn contents

theorem Scan.Covers.cons {contents : List Char} {p : Placed} {scan : Scan}
    (hp : p.LiesIn contents) (h : scan.Covers contents p.range.stop) :
    (scan.cons p).Covers contents p.range.start := by
  refine ⟨⟨rfl, h.1⟩, fun q hq => ?_⟩
  rcases List.mem_cons.mp hq with rfl | hq
  · exact hp
  · exact h.2 q hq

/-- **The events of the rest of a text are its parts.** -/
theorem scanFrom_covers {contents as cs : List Char} {offset : Nat} (opened : List (List Char))
    (hc : contents = as ++ cs) (ho : offset = width as) :
    (scanFrom offset opened cs).Covers contents offset := by
  fun_induction scanFrom offset opened cs generalizing as with
  | case1 => exact ⟨trivial, fun _ h => nomatch h⟩
  | case2 => exact ⟨trivial, fun _ h => nomatch h⟩
  | case3 => exact ⟨trivial, fun _ h => nomatch h⟩
  | case4 => exact ⟨trivial, fun _ h => nomatch h⟩
  | case5 offset opened cs piece used rest hread stop event opened' hevent =>
    rename_i ih
    have hparts : contents = as ++ ('<' :: used) ++ rest := by
      rw [hc, Piece.read_eq hread, List.append_assoc, List.cons_append]
    have hstop : stop = width as + width ('<' :: used) := by
      show offset + 1 + width used = width as + ('<'.utf8Size + width used)
      rw [ho, show '<'.utf8Size = 1 from rfl, Nat.add_assoc]
    refine Scan.Covers.cons ⟨as, '<' :: used, rest, hparts, ?_, List.cons_ne_nil _ _, ?_⟩ ?_
    · rw [ho, hstop]
    · intro tag htag
      obtain ⟨inner, rfl⟩ := Piece.eq_tag_of_event hevent htag
      exact ⟨inner, by rw [Piece.used_of_tag hread]; rfl⟩
    · exact ih hparts (by rw [width_append, hstop])
  | case6 offset opened c cs hne run stop =>
    rename_i ih
    have hparts : contents = as ++ run ++ cs.dropWhile (· != '<') := by
      rw [hc, List.append_assoc]
      show as ++ c :: cs = as ++ (c :: (cs.takeWhile (· != '<') ++ cs.dropWhile (· != '<')))
      rw [List.takeWhile_append_dropWhile]
    have hstop : stop = width as + width run := by rw [← ho]
    refine Scan.Covers.cons ⟨as, run, _, hparts, ?_, List.cons_ne_nil _ _, ?_⟩ ?_
    · rw [ho, hstop]
    · intro tag htag
      rcases htag with htag | htag <;> cases htag
    · exact ih hparts (by rw [width_append, hstop])

/-- **The events of a text are its parts**, unless a byte order mark is left out. -/
theorem scan_covers {contents : List Char} (hmark : contents.head? ≠ some byteOrderMark) :
    (scan contents).Covers contents 0 := by
  unfold scan
  split
  · next c cs =>
    have hc : c ≠ byteOrderMark := fun h => hmark (congrArg some h)
    rw [if_neg hc]
    exact scanFrom_covers [] (List.nil_append _).symm rfl
  · exact ⟨trivial, fun _ h => nomatch h⟩

/-- The events of a text follow each other from the beginning of what is read, and none is empty. -/
theorem scan_consecutive (contents : List Char) :
    Consecutive 0 (scan contents).events ∧
      ∀ p ∈ (scan contents).events, p.range.start < p.range.stop := by
  -- a byte order mark is not counted, so what is behind it is covered like a text of its own
  have hcovers : ∃ read, (scan contents).Covers read 0 := by
    unfold scan
    split
    · next c cs =>
      split
      · exact ⟨cs, scanFrom_covers [] (List.nil_append _).symm rfl⟩
      · exact ⟨c :: cs, scanFrom_covers [] (List.nil_append _).symm rfl⟩
    · exact ⟨[], trivial, List.forall_mem_nil _⟩
  obtain ⟨read, hevents, hlie⟩ := hcovers
  exact ⟨hevents, fun p hp => (hlie p hp).lt⟩

end AndroidLint.Xml
