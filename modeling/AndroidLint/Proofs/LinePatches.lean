/-
  File:      AndroidLint/Proofs/LinePatches.lean
  Subject:   A difference of lines is a patch that turns one text into the other.

  The lines that two texts share in front and at the end are cut off, and what is left between the
  cuts is printed. `readPatch?` reads the print back, and `Patch.applied?` carries it out on the
  lines of the old text, checking those that are kept or removed:

  * `sharedLength_spec`:     how far two lists agree;
  * `exists_parts`:          the cuts take two lists apart;
  * `cuts_inRange`:          the cuts lie in both lists, the one in front before the one at the end;
  * `readPatch?_print`:      what is printed is read back;
  * `Parts.applied?_patch`:  the changes between the parts turn one list into the other;
  * `lineDiff_patches`:      the difference of two texts does so with their lines, and is tight.

  A printed line ends with a line feed alone, so a carriage return at the end of a line is read
  back as a part of it.
-/
import AndroidLint.Proofs.Beginnings
import AndroidLint.Proofs.DirectiveText
import AndroidLint.Proofs.JsonText
import AndroidLint.Proofs.SavedFiles
import AndroidLint.Report.LineDiff

namespace AndroidLint.Report

open Text

/-! ## 1. Patches -/

/-- What a patch does with a line. -/
inductive Change where
  | keep (line : List Char)
  | remove (line : List Char)
  | add (line : List Char)

namespace Change

/-- A change from a printed line: the first two characters tell what to do. -/
def read? : List Char → Option Change
  | ' ' :: ' ' :: line => some (.keep line)
  | '-' :: ' ' :: line => some (.remove line)
  | '+' :: ' ' :: line => some (.add line)
  | _ => none

def removed? : Change → Option (List Char)
  | .remove line => some line
  | _ => none

def added? : Change → Option (List Char)
  | .add line => some line
  | _ => none

/-- Carry out changes from the first of some lines on. A line that is kept or removed must be there;
    the lines behind the last change stay. -/
def applyAll? : List Change → List (List Char) → Option (List (List Char))
  | [], lines => some lines
  | .add new :: changes, lines => (applyAll? changes lines).map (new :: ·)
  | .keep old :: changes, line :: lines =>
    if old = line then (applyAll? changes lines).map (line :: ·) else none
  | .remove old :: changes, line :: lines => if old = line then applyAll? changes lines else none
  | .keep _ :: _, [] | .remove _ :: _, [] => none

end Change

/-- Changes and the number of the line, counted from one, at which they begin. -/
structure Patch where
  line : Nat
  changes : List Change

namespace Patch

/-- The lines after the patch; `none` when it does not fit. -/
def applied? (p : Patch) (lines : List (List Char)) : Option (List (List Char)) :=
  if 1 ≤ p.line ∧ p.line ≤ lines.length + 1 then
    (Change.applyAll? p.changes (lines.drop (p.line - 1))).map (lines.take (p.line - 1) ++ ·)
  else none

def removed (p : Patch) : List (List Char) := p.changes.filterMap Change.removed?

def added (p : Patch) : List (List Char) := p.changes.filterMap Change.added?

/-- Where lines are both removed and added, they differ at both ends. -/
def Tight (p : Patch) : Prop :=
  p.removed ≠ [] → p.added ≠ [] →
    p.removed.head? ≠ p.added.head? ∧ p.removed.getLast? ≠ p.added.getLast?

end Patch

/-- The lines of a print, each ended by a line feed. -/
def printedLines? (cs : List Char) : Option (List (List Char)) :=
  if (splitOn '\n' cs).getLast? = some [] then some (splitOn '\n' cs).dropLast else none

/-- The line number that a header gives: for both texts the same one. -/
def readHeader? (cs : List Char) : Option Nat := do
  let numbers ← dropHead? "@@ -".toList cs
  let second ← dropHead? " +".toList (numbers.dropWhile Char.isDigit)
  let line ← natural? 10 (numbers.takeWhile Char.isDigit)
  if natural? 10 second = some line then some line else none

/-- A patch from a print: a header and the changes. -/
def readPatch? (cs : List Char) : Option Patch :=
  match printedLines? cs with
  | some (header :: changes) => do
    let line ← readHeader? header
    let changes ← changes.mapM Change.read?
    some ⟨line, changes⟩
  | _ => none

/-! ## 2. Shared lines -/

section Shared

variable {as bs : List (List Char)}

/-- **How far two lists agree**: up to the shared length, and not in the next line if both have
    one. -/
theorem sharedLength_spec (as bs : List (List Char)) :
    ∃ shared as' bs', as = shared ++ as' ∧ bs = shared ++ bs' ∧
      sharedLength as bs = shared.length ∧ (as' ≠ [] → bs' ≠ [] → as'.head? ≠ bs'.head?) := by
  induction as generalizing bs with
  | nil => exact ⟨[], [], bs, rfl, rfl, rfl, fun h => absurd rfl h⟩
  | cons a as ih =>
    cases bs with
    | nil => exact ⟨[], a :: as, [], rfl, rfl, rfl, fun _ h => absurd rfl h⟩
    | cons b bs =>
      rw [sharedLength]
      split
      · next hab =>
        obtain ⟨shared, as', bs', rfl, rfl, hlength, hdiffer⟩ := ih bs
        exact ⟨a :: shared, as', bs', rfl, by rw [hab]; rfl, by rw [hlength]; rfl, hdiffer⟩
      · next hab =>
        exact ⟨[], a :: as, b :: bs, rfl, rfl, rfl, fun _ _ h => hab (Option.some.inj h)⟩

/-- Two lists share all their lines exactly if they are the same. -/
theorem sharedLength_eq_iff :
    sharedLength as bs = as.length ∧ sharedLength as bs = bs.length ↔ as = bs := by
  obtain ⟨shared, as', bs', rfl, rfl, hlength, hdiffer⟩ := sharedLength_spec as bs
  rw [hlength, List.length_append, List.length_append, List.append_cancel_left_eq]
  constructor
  · rintro ⟨ha, hb⟩
    rw [List.length_eq_zero_iff.mp (by omega : as'.length = 0),
      List.length_eq_zero_iff.mp (by omega : bs'.length = 0)]
  · rintro rfl
    cases as' with
    | nil => exact ⟨rfl, rfl⟩
    | cons a as' => exact absurd rfl (hdiffer (List.cons_ne_nil _ _) (List.cons_ne_nil _ _))

/-- What stands behind the shorter of two beginnings does not count, up to its length. -/
theorem min_sharedLength_append (as bs cs ds : List (List Char)) :
    min (min as.length bs.length) (sharedLength (as ++ cs) (bs ++ ds)) = sharedLength as bs := by
  induction as generalizing bs with
  | nil => simp [sharedLength]
  | cons a as ih =>
    cases bs with
    | nil => simp [sharedLength]
    | cons b bs =>
      rw [List.cons_append, List.cons_append, sharedLength, sharedLength]
      split
      · rw [← ih bs, List.length_cons, List.length_cons]
        omega
      · exact Nat.min_zero _

end Shared

/-! ## 3. Cuts -/

/-- Where a difference cuts two lists of lines. -/
structure Cuts where
  /-- How many lines are shared in front and at the end. -/
  head : Nat
  tail : Nat
  /-- The printed lines of the first list: from which one on, and up to which. -/
  first : Nat
  last : Nat

/-- The cuts of two lists with some shared lines around them. -/
def cuts (old new : List (List Char)) (window : Nat) : Cuts :=
  let head := sharedLength old new
  let tail := min (min old.length new.length - head) (sharedLength old.reverse new.reverse)
  ⟨head, tail, head - window, min (old.length - tail + window) old.length⟩

theorem cuts_first (old new : List (List Char)) (window : Nat) :
    (cuts old new window).first = (cuts old new window).head - window := rfl

theorem cuts_last (old new : List (List Char)) (window : Nat) :
    (cuts old new window).last =
      min (old.length - (cuts old new window).tail + window) old.length := rfl

namespace Cuts

/-- What is printed between the cuts. -/
def text (c : Cuts) (old new : List (List Char)) : List Char :=
  s!"@@ -{c.first + 1} +{c.first + 1}\n".toList ++
    marked [' ', ' '] (between c.first c.head old) ++
    marked ['-', ' '] (between c.head (old.length - c.tail) old) ++
    marked ['+', ' '] (between c.head (new.length - c.tail) new) ++
    marked [' ', ' '] (between (old.length - c.tail) c.last old)

/-- The cuts lie in both lists and are the right way round, and no number that is counted up is
    greater than the number of lines and the window together. -/
structure InRange (c : Cuts) (old new : List (List Char)) (window : Nat) : Prop where
  inOld : c.head + c.tail ≤ old.length
  inNew : c.head + c.tail ≤ new.length
  first_le : c.first ≤ c.head
  le_last : old.length - c.tail ≤ c.last
  last_le : c.last ≤ old.length
  number_le : c.first + 1 ≤ max old.length new.length
  sum_le : old.length - c.tail + window ≤ max old.length new.length + window

end Cuts

/-- The difference of two texts is what is printed between the cuts of their lines. -/
theorem lineDiff_eq (old new : List Char) (window : Nat) :
    lineDiff old new window = if lines old = lines new then []
      else (cuts (lines old) (lines new) window).text (lines old) (lines new) := by
  have hsame := @sharedLength_eq_iff (lines old) (lines new)
  unfold lineDiff
  by_cases heq : lines old = lines new
  · rw [if_pos heq]
    exact if_pos (hsame.mpr heq)
  · rw [if_neg heq]
    exact if_neg fun h => heq (hsame.mp h)

/-- Two lists of lines as a difference takes them apart: what they share in front and at the end,
    and what each has between. Where both have something there, it differs at both ends. -/
structure Parts where
  front : List (List Char)
  removed : List (List Char)
  added : List (List Char)
  back : List (List Char)
  tight : removed ≠ [] → added ≠ [] →
    removed.head? ≠ added.head? ∧ removed.getLast? ≠ added.getLast?

namespace Parts

def old (p : Parts) : List (List Char) := p.front ++ (p.removed ++ p.back)

def new (p : Parts) : List (List Char) := p.front ++ (p.added ++ p.back)

theorem length_old (p : Parts) :
    p.old.length = p.front.length + (p.removed.length + p.back.length) := by
  rw [old, List.length_append, List.length_append]

theorem length_new (p : Parts) :
    p.new.length = p.front.length + (p.added.length + p.back.length) := by
  rw [new, List.length_append, List.length_append]

end Parts

/-- **The cuts take two lists apart.** -/
theorem exists_parts (old new : List (List Char)) (window : Nat) : ∃ p : Parts,
    p.old = old ∧ p.new = new ∧ (cuts old new window).head = p.front.length ∧
      (cuts old new window).tail = p.back.length := by
  obtain ⟨front, as, bs, hold, hnew, hhead, hfirst⟩ := sharedLength_spec old new
  -- The lines at the end are counted backwards, and only behind those shared in front.
  obtain ⟨back, as', bs', has, hbs, htail, hlast⟩ := sharedLength_spec as.reverse bs.reverse
  have has' : as = as'.reverse ++ back.reverse := by
    rw [← List.reverse_append, ← has, List.reverse_reverse]
  have hbs' : bs = bs'.reverse ++ back.reverse := by
    rw [← List.reverse_append, ← hbs, List.reverse_reverse]
  have hmin : min old.length new.length - sharedLength old new =
      min as.reverse.length bs.reverse.length := by
    rw [hhead, hold, hnew]
    simp only [List.length_append, List.length_reverse]
    omega
  have hback : (cuts old new window).tail = back.reverse.length := by
    show min (min old.length new.length - sharedLength old new)
      (sharedLength old.reverse new.reverse) = back.reverse.length
    rw [hmin, hold, hnew, List.reverse_append, List.reverse_append, min_sharedLength_append, htail,
      List.length_reverse]
  refine ⟨⟨front, as'.reverse, bs'.reverse, back.reverse, fun hremoved hadded => ⟨?_, ?_⟩⟩,
    by rw [Parts.old, hold, has'], by rw [Parts.new, hnew, hbs'], hhead, hback⟩
  · have hheads := hfirst (by rw [has']; exact List.append_ne_nil_of_left_ne_nil hremoved _)
      (by rw [hbs']; exact List.append_ne_nil_of_left_ne_nil hadded _)
    rw [has', hbs', List.head?_append, List.head?_append] at hheads
    obtain ⟨a, as, ha⟩ := List.exists_cons_of_ne_nil hremoved
    obtain ⟨b, bs, hb⟩ := List.exists_cons_of_ne_nil hadded
    rw [ha, hb] at hheads ⊢
    exact hheads
  · rw [List.getLast?_reverse, List.getLast?_reverse]
    exact hlast (mt List.reverse_eq_nil_iff.mpr hremoved) (mt List.reverse_eq_nil_iff.mpr hadded)

/-- The cuts of two lists that differ are in range. -/
theorem cuts_inRange {old new : List (List Char)} (hne : old ≠ new) (window : Nat) :
    (cuts old new window).InRange old new window := by
  obtain ⟨p, rfl, rfl, hhead, htail⟩ := exists_parts old new window
  have hold := p.length_old
  have hnew := p.length_new
  -- One of the lists goes on behind the shared lines in front, so there is a first printed line.
  have hmore : p.front.length < max p.old.length p.new.length := by
    have hshared := mt sharedLength_eq_iff.mp hne
    have hlength : sharedLength p.old p.new = p.front.length := hhead
    omega
  have hfirst := cuts_first p.old p.new window
  have hlast := cuts_last p.old p.new window
  constructor <;> omega

/-! ## 4. Printing -/

namespace Change

/-- A change as a line. -/
def print : Change → List Char
  | .keep line => ' ' :: ' ' :: line
  | .remove line => '-' :: ' ' :: line
  | .add line => '+' :: ' ' :: line

theorem read?_print (c : Change) : read? c.print = some c := by
  cases c <;> rfl

theorem mapM_read?_print (cs : List Change) : (cs.map print).mapM read? = some cs := by
  induction cs with
  | nil => rfl
  | cons c cs ih => rw [List.map_cons, List.mapM_cons, read?_print, ih]; rfl

end Change

/-- The header of changes that begin at a line. -/
def printHeader (line : Nat) : List Char :=
  "@@ -".toList ++ (Nat.toDigits 10 line ++ (" +".toList ++ Nat.toDigits 10 line))

theorem readHeader?_printHeader (line : Nat) : readHeader? (printHeader line) = some line := by
  have hdigits : ∀ c ∈ Nat.toDigits 10 line, c.isDigit = true :=
    fun c hc => Nat.isDigit_of_mem_toDigits (by decide) (by decide) hc
  have hstop : Format.StopsRun Char.isDigit (" +".toList ++ Nat.toDigits 10 line) :=
    Format.stopsRun_cons rfl
  rw [readHeader?, printHeader, dropHead?_append]
  simp only [Option.bind_eq_bind, Option.bind_some]
  rw [Format.takeWhile_append_of_stopsRun hdigits hstop,
    Format.dropWhile_append_of_stopsRun hdigits hstop, dropHead?_append]
  simp only [Option.bind_some, natural?_toDigits, if_pos]

theorem newline_notMem_printHeader (line : Nat) : '\n' ∉ printHeader line := by
  have hdigits : '\n' ∉ Nat.toDigits 10 line := fun h =>
    absurd (Nat.isDigit_of_mem_toDigits (by decide) (by decide) h) (by decide)
  simp only [printHeader, List.mem_append, hdigits, or_false, false_or, not_or]
  exact ⟨by decide, by decide⟩

/-- A patch as a text: the header and a line for each change. -/
def Patch.print (p : Patch) : List Char :=
  (printHeader p.line :: p.changes.map Change.print).flatMap (· ++ ['\n'])

theorem Patch.print_ne_nil (p : Patch) : p.print ≠ [] := by
  rw [Patch.print, List.flatMap_cons, List.append_assoc, List.singleton_append]
  exact List.append_ne_nil_of_right_ne_nil _ (List.cons_ne_nil _ _)

/-- Lines without line feeds, each ended by one, are read back. -/
theorem printedLines?_flatMap {ls : List (List Char)} (hls : ∀ l ∈ ls, '\n' ∉ l) :
    printedLines? (ls.flatMap (· ++ ['\n'])) = some ls := by
  have hsplit : splitOn '\n' (ls.flatMap (· ++ ['\n'])) = ls ++ [[]] := by
    induction ls with
    | nil => rfl
    | cons l ls ih =>
      rw [List.flatMap_cons, List.append_assoc, List.singleton_append,
        splitOn_append (hls l List.mem_cons_self), ih fun l hl => hls l (List.mem_cons_of_mem _ hl)]
      rfl
  rw [printedLines?, hsplit, List.getLast?_concat, if_pos rfl, List.dropLast_concat]

/-- **What is printed is read back.** -/
theorem readPatch?_print (p : Patch) (hlines : ∀ c ∈ p.changes, '\n' ∉ c.print) :
    readPatch? p.print = some p := by
  have hall : ∀ l ∈ printHeader p.line :: p.changes.map Change.print, '\n' ∉ l := by
    intro l hl
    rcases List.mem_cons.mp hl with rfl | hl
    · exact newline_notMem_printHeader p.line
    · obtain ⟨c, hc, rfl⟩ := List.mem_map.mp hl
      exact hlines c hc
  rw [readPatch?, Patch.print, printedLines?_flatMap hall]
  simp only [readHeader?_printHeader, Change.mapM_read?_print, Option.bind_eq_bind,
    Option.bind_some]

/-! ## 5. Carrying out -/

namespace Change

variable (changes : List Change) (ls rest : List (List Char))

theorem applyAll?_keep :
    applyAll? (ls.map .keep ++ changes) (ls ++ rest) = (applyAll? changes rest).map (ls ++ ·) := by
  induction ls with
  | nil => exact Option.map_id'.symm
  | cons l ls ih =>
    rw [List.map_cons, List.cons_append, List.cons_append, applyAll?, if_pos rfl, ih,
      Option.map_map]
    rfl

theorem applyAll?_remove :
    applyAll? (ls.map .remove ++ changes) (ls ++ rest) = applyAll? changes rest := by
  induction ls with
  | nil => rfl
  | cons l ls ih =>
    rw [List.map_cons, List.cons_append, List.cons_append, applyAll?, if_pos rfl, ih]

theorem applyAll?_add :
    applyAll? (ls.map .add ++ changes) rest = (applyAll? changes rest).map (ls ++ ·) := by
  induction ls with
  | nil => exact Option.map_id'.symm
  | cons l ls ih =>
    rw [List.map_cons, List.cons_append, applyAll?, ih, Option.map_map]
    rfl

end Change

section Made

variable {make : List Char → Change} {line? : Change → Option (List Char)} {ls : List (List Char)}

theorem filterMap_map_of_none (h : ∀ l, line? (make l) = none) :
    (ls.map make).filterMap line? = [] := by
  rw [List.filterMap_map]
  exact List.filterMap_eq_nil_iff.mpr fun l _ => h l

theorem filterMap_map_of_some (h : ∀ l, line? (make l) = some l) :
    (ls.map make).filterMap line? = ls := by
  rw [List.filterMap_map, show line? ∘ make = some from funext h, List.filterMap_some]

end Made

namespace Parts

variable (p : Parts) (window : Nat)

/-- The changes between the parts, with some shared lines around them. -/
def patch : Patch where
  line := p.front.length - window + 1
  changes := (p.front.drop (p.front.length - window)).map .keep ++ (p.removed.map .remove ++
    (p.added.map .add ++ (p.back.take window).map .keep))

theorem removed_patch : (p.patch window).removed = p.removed := by
  rw [Patch.removed, patch, List.filterMap_append, List.filterMap_append, List.filterMap_append,
    filterMap_map_of_none fun _ => rfl, filterMap_map_of_some fun _ => rfl,
    filterMap_map_of_none fun _ => rfl, filterMap_map_of_none fun _ => rfl, List.nil_append,
    List.append_nil, List.append_nil]

theorem added_patch : (p.patch window).added = p.added := by
  rw [Patch.added, patch, List.filterMap_append, List.filterMap_append, List.filterMap_append,
    filterMap_map_of_none fun _ => rfl, filterMap_map_of_none fun _ => rfl,
    filterMap_map_of_some fun _ => rfl, filterMap_map_of_none fun _ => rfl, List.nil_append,
    List.nil_append, List.append_nil]

theorem tight_patch : (p.patch window).Tight := by
  rw [Patch.Tight, removed_patch, added_patch]
  exact p.tight

/-- **The changes between two lists turn one into the other.** -/
theorem applied?_patch : (p.patch window).applied? p.old = some p.new := by
  have hle : p.front.length - window ≤ p.front.length := Nat.sub_le _ _
  have hlength : p.front.length ≤ p.old.length := by
    rw [length_old]
    exact Nat.le_add_right _ _
  have hback : Change.applyAll? ((p.back.take window).map .keep) p.back = some p.back := by
    have hkeep := Change.applyAll?_keep [] (p.back.take window) (p.back.drop window)
    rw [List.append_nil, List.take_append_drop] at hkeep
    rw [hkeep, Change.applyAll?, Option.map_some, List.take_append_drop]
  rw [Patch.applied?, if_pos ⟨Nat.le_add_left 1 _, Nat.succ_le_succ (hle.trans hlength)⟩]
  show (Change.applyAll? (p.patch window).changes (p.old.drop (p.front.length - window))).map
    (p.old.take (p.front.length - window) ++ ·) = some p.new
  rw [old, List.drop_append_of_le_length hle, List.take_append_of_le_length hle, patch,
    Change.applyAll?_keep, Change.applyAll?_remove, Change.applyAll?_add, hback]
  simp only [Option.map_some, Option.some.injEq]
  rw [← List.append_assoc, List.take_append_drop, new]

end Parts

/-! ## 6. The difference -/

theorem between_append (front rest : List (List Char)) {n : Nat} (hn : n ≤ front.length) :
    between n front.length (front ++ rest) = front.drop n := by
  rw [between, List.drop_append_of_le_length hn, ← List.length_drop, List.take_left]

theorem between_length_append (front mid rest : List (List Char)) {n : Nat}
    (hn : n = front.length + mid.length) :
    between front.length n (front ++ (mid ++ rest)) = mid := by
  rw [between, List.drop_left, hn, Nat.add_sub_cancel_left, List.take_left]

/-- Lines behind a mark are the print of changes. -/
theorem marked_eq (make : List Char → Change) {mark : List Char}
    (hmake : ∀ l, (make l).print = mark ++ l) (ls : List (List Char)) :
    marked mark ls = ((ls.map make).map Change.print).flatMap (· ++ ['\n']) := by
  rw [marked, List.flatMap_map, List.flatMap_map]
  simp only [hmake]

theorem header_eq (n : Nat) : s!"@@ -{n} +{n}\n".toList = printHeader n ++ ['\n'] := by
  simp [printHeader, String.toList_append, toString]

namespace Parts

variable {p : Parts} {window : Nat}

/-- What is printed between the cuts is the patch of the parts. -/
theorem text_cuts (hhead : (cuts p.old p.new window).head = p.front.length)
    (htail : (cuts p.old p.new window).tail = p.back.length) :
    (cuts p.old p.new window).text p.old p.new = (p.patch window).print := by
  have hold := p.length_old
  have hnew := p.length_new
  have hbefore : between (p.front.length - window) p.front.length p.old =
      p.front.drop (p.front.length - window) := between_append _ _ (Nat.sub_le _ _)
  have hremoved : between p.front.length (p.old.length - p.back.length) p.old = p.removed :=
    between_length_append _ _ _ (by omega)
  have hadded : between p.front.length (p.new.length - p.back.length) p.new = p.added :=
    between_length_append _ _ _ (by omega)
  have hafter : between (p.old.length - p.back.length)
      (min (p.old.length - p.back.length + window) p.old.length) p.old = p.back.take window := by
    have hstop : p.old.length - p.back.length = (p.front ++ p.removed).length := by
      rw [List.length_append]
      omega
    have hcount : min (p.old.length - p.back.length + window) p.old.length -
        (p.old.length - p.back.length) = min window p.back.length := by omega
    rw [between, hcount, hstop, old, ← List.append_assoc, List.drop_left, ← List.take_take,
      List.take_length]
  rw [Cuts.text, cuts_first, cuts_last, hhead, htail, hbefore, hremoved, hadded, hafter, header_eq,
    marked_eq .keep fun _ => rfl, marked_eq .remove fun _ => rfl, marked_eq .add fun _ => rfl,
    marked_eq .keep fun _ => rfl]
  simp only [Patch.print, patch, List.map_append, List.flatMap_cons, List.flatMap_append,
    List.append_assoc]

theorem newline_notMem_print (hold : ∀ l ∈ p.old, '\n' ∉ l) (hnew : ∀ l ∈ p.new, '\n' ∉ l) :
    ∀ c ∈ (p.patch window).changes, '\n' ∉ c.print := by
  have hmark {a : Char} {l : List Char} (ha : a ≠ '\n') (hl : '\n' ∉ l) :
      '\n' ∉ a :: ' ' :: l := by
    simp [ha.symm, hl]
  intro c hc
  simp only [patch, List.mem_append, List.mem_map] at hc
  rcases hc with ⟨l, hl, rfl⟩ | ⟨l, hl, rfl⟩ | ⟨l, hl, rfl⟩ | ⟨l, hl, rfl⟩
  · exact hmark (by decide) (hold l (List.mem_append_left _ (List.mem_of_mem_drop hl)))
  · exact hmark (by decide) (hold l (List.mem_append_right _ (List.mem_append_left _ hl)))
  · exact hmark (by decide) (hnew l (List.mem_append_right _ (List.mem_append_left _ hl)))
  · exact hmark (by decide)
      (hold l (List.mem_append_right _ (List.mem_append_right _ (List.mem_of_mem_take hl))))

end Parts

/-- No line of a text has a line feed. -/
theorem newline_notMem_of_mem_linesFrom {line cs l : List Char} (hline : '\n' ∉ line)
    (h : l ∈ linesFrom line cs) : '\n' ∉ l := by
  induction cs generalizing line with
  | nil =>
    rw [linesFrom] at h
    split at h
    · cases h
    · rw [List.mem_singleton.mp h, List.mem_reverse]
      exact hline
  | cons c cs ih =>
    rw [linesFrom] at h
    split at h
    · rcases List.mem_cons.mp h with rfl | h
      · unfold endLine
        split
        · rw [List.mem_reverse]
          exact fun hmem => hline (List.mem_cons_of_mem _ hmem)
        · rw [List.mem_reverse]
          exact hline
      · exact ih List.not_mem_nil h
    · next hc =>
      refine ih (fun hmem => ?_) h
      rcases List.mem_cons.mp hmem with heq | hmem
      · exact hc heq.symm
      · exact hline hmem

/-- **The difference of two texts** is empty exactly if they have the same lines. Otherwise the cuts
    between which it is printed are in range, and what is printed is read back as a tight patch
    that turns the lines of one text into those of the other. -/
theorem lineDiff_patches (old new : List Char) (window : Nat) :
    (lineDiff old new window = [] ↔ lines old = lines new) ∧
    (lines old ≠ lines new →
      (cuts (lines old) (lines new) window).InRange (lines old) (lines new) window ∧
      lineDiff old new window = (cuts (lines old) (lines new) window).text (lines old) (lines new) ∧
      ∃ p, readPatch? (lineDiff old new window) = some p ∧
        p.applied? (lines old) = some (lines new) ∧ p.Tight) := by
  rw [lineDiff_eq]
  by_cases hlines : lines old = lines new
  · rw [if_pos hlines]
    exact ⟨iff_of_true rfl hlines, fun hne => absurd hlines hne⟩
  · rw [if_neg hlines]
    obtain ⟨p, hold, hnew, hhead, htail⟩ := exists_parts (lines old) (lines new) window
    have hfeedOld : ∀ l ∈ p.old, '\n' ∉ l := fun l hl =>
      newline_notMem_of_mem_linesFrom List.not_mem_nil (hold ▸ hl)
    have hfeedNew : ∀ l ∈ p.new, '\n' ∉ l := fun l hl =>
      newline_notMem_of_mem_linesFrom List.not_mem_nil (hnew ▸ hl)
    have hrange := cuts_inRange hlines window
    rw [← hold, ← hnew] at hhead htail hrange hlines ⊢
    rw [Parts.text_cuts hhead htail]
    exact ⟨iff_of_false (Patch.print_ne_nil _) hlines, fun _ => ⟨hrange, rfl, p.patch window,
      readPatch?_print _ (Parts.newline_notMem_print hfeedOld hfeedNew), p.applied?_patch window,
      p.tight_patch window⟩⟩

example : lineDiff ['a', '\n', 'b', '\n', 'c'] ['a', '\n', 'd', '\n', 'c'] 0 =
    "@@ -2 +2\n- b\n+ d\n".toList := by decide

end AndroidLint.Report
