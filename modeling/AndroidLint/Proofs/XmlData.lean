/-
  File:      AndroidLint/Proofs/XmlData.lean
  Subject:   Character data, replaced in a text.

  Markup ends where it ends, whatever stands behind it, and a run of character data ends at the next
  `<`. So the characters of a run, or of a section of character data, can be replaced by others that
  mean nothing to the reader, and all other events stay: those in front where they are, those behind
  moved by as much as the text has become longer.

  * `Piece.read_replace`:       the same piece with another rest of the text;
  * `exists_parts_of_event`:    a text taken apart at one of its events;
  * `scanFrom_shift`:           the same text at another offset;
  * `scan_replace`:             the events of a text with other characters in a run or a section.
-/
import AndroidLint.Proofs.DirectiveText
import AndroidLint.Proofs.XmlEvents

namespace AndroidLint.Xml

open Text

/-! ## 1. Markup and what stands behind it -/

/-- Cutting at a `>` finds the first one with an acceptable text before it. -/
theorem cutAt?_eq_some_iff {accept : List Char → Bool} {seen cs content rest : List Char} :
    cutAt? accept seen cs = some (content, rest) ↔
      ∃ inside, cs = inside ++ '>' :: rest ∧ content = seen.reverse ++ inside ∧
        accept (inside.reverse ++ seen) = true ∧
        ∀ x y, inside = x ++ '>' :: y → accept (x.reverse ++ seen) = false := by
  induction cs generalizing seen with
  | nil => simp [cutAt?]
  | cons c cs ih =>
    rw [cutAt?]
    by_cases hc : c = '>' ∧ accept seen = true
    · obtain ⟨rfl, haccept⟩ := hc
      rw [if_pos ⟨rfl, haccept⟩]
      constructor
      · intro h
        obtain ⟨rfl, rfl⟩ := Prod.mk.inj (Option.some.inj h)
        refine ⟨[], rfl, (List.append_nil _).symm, haccept, fun x y h => ?_⟩
        simp at h
      · rintro ⟨inside, hparts, hcontent, _, hfirst⟩
        -- a later `>` is not the first one
        cases inside with
        | nil =>
          rw [hcontent, List.append_nil, (List.cons.inj hparts).2]
        | cons d inside =>
          obtain ⟨rfl, _⟩ := List.cons.inj hparts
          have hnot := hfirst [] inside rfl
          rw [List.reverse_nil, List.nil_append, haccept] at hnot
          cases hnot
    · rw [if_neg hc, ih]
      constructor
      · rintro ⟨inside, rfl, hcontent, haccept, hfirst⟩
        refine ⟨c :: inside, rfl, ?_, ?_, ?_⟩
        · rw [hcontent, List.reverse_cons, List.append_assoc, List.singleton_append]
        · rw [List.reverse_cons, List.append_assoc, List.singleton_append]
          exact haccept
        · intro x y hxy
          cases x with
          | nil =>
            obtain ⟨rfl, _⟩ := List.cons.inj hxy
            exact Bool.eq_false_iff.mpr fun h => hc ⟨rfl, h⟩
          | cons d x =>
            obtain ⟨rfl, hrest⟩ := List.cons.inj hxy
            have hnot := hfirst x y hrest
            rw [List.reverse_cons, List.append_assoc, List.singleton_append]
            exact hnot
      · rintro ⟨inside, hparts, hcontent, haccept, hfirst⟩
        cases inside with
        | nil =>
          obtain ⟨rfl, _⟩ := List.cons.inj hparts
          exact absurd ⟨rfl, haccept⟩ hc
        | cons d inside =>
          obtain ⟨rfl, hrest⟩ := List.cons.inj hparts
          rw [List.reverse_cons, List.append_assoc, List.singleton_append] at haccept
          refine ⟨inside, hrest, ?_, haccept, fun x y hxy => ?_⟩
          · rw [hcontent, List.reverse_cons, List.append_assoc, List.singleton_append]
          · have hnot := hfirst (c :: x) y (by rw [hxy]; rfl)
            rw [List.reverse_cons, List.append_assoc, List.singleton_append] at hnot
            exact hnot

/-- What stands behind the `>` does not matter. -/
theorem cutAt?_replace {accept : List Char → Bool} {cs content rest : List Char}
    (h : cutAt? accept [] cs = some (content, rest)) (t : List Char) :
    cutAt? accept [] (content ++ '>' :: t) = some (content, t) := by
  obtain ⟨inside, _, hcontent, haccept, hfirst⟩ := cutAt?_eq_some_iff.mp h
  obtain rfl : content = inside := hcontent
  exact cutAt?_eq_some_iff.mpr ⟨content, rfl, rfl, haccept, hfirst⟩

theorem cutTag?_replace {quote : Option Char} {cs content rest : List Char}
    (h : cutTag? quote cs = some (content, rest)) (t : List Char) :
    cutTag? quote (content ++ '>' :: t) = some (content, t) := by
  induction cs generalizing quote content with
  | nil => simp [cutTag?] at h
  | cons c cs ih =>
    simp only [cutTag?] at h
    split at h
    · next q =>
      obtain ⟨⟨inside, _⟩, hcut, hparts⟩ := Option.map_eq_some_iff.mp h
      cases hparts
      simp [cutTag?, ih hcut]
    · split at h
      · next hc =>
        cases h
        simp [cutTag?]
      · next hc =>
        obtain ⟨⟨inside, _⟩, hcut, hparts⟩ := Option.map_eq_some_iff.mp h
        cases hparts
        simp [cutTag?, hc, ih hcut]

theorem Reading.upToClose_replace {begin : Char} {make : List Char → Piece}
    {cs used rest : List Char} {piece : Piece}
    (h : Reading.upToClose begin make cs = .piece piece used rest) (hrest : rest ≠ []) :
    ∃ inside, used = begin :: inside ∧
      ∀ t, Reading.upToClose begin make (inside ++ t) = .piece piece used t := by
  unfold Reading.upToClose at h
  split at h
  · next content rest' hcut =>
    cases h
    refine ⟨content ++ ['>'], rfl, fun t => ?_⟩
    rw [List.append_assoc, List.singleton_append, Reading.upToClose, cutAt?_replace hcut t]
  · cases h
    exact absurd rfl hrest

theorem Reading.bang_replace {construct : Construct} {make : List Char → Piece}
    {accept : List Char → Bool} {cs used rest : List Char} {piece : Piece}
    (h : Reading.bang construct make accept cs = .piece piece used rest) :
    ∃ content, used = content ++ ['>'] ∧
      ∀ t, Reading.bang construct make accept (used ++ t) = .piece piece used t := by
  unfold Reading.bang at h
  split at h
  · next content rest' hcut =>
    cases h
    refine ⟨content, rfl, fun t => ?_⟩
    rw [List.append_assoc, List.singleton_append, Reading.bang, cutAt?_replace hcut t]
  · cases h

/-- A piece that begins with `!` and another character has them both among what it takes. -/
theorem exists_of_bang_parts {kind : Char} {content rest more : List Char} (hkind : kind ≠ '>')
    (h : '!' :: kind :: more = content ++ ['>'] ++ rest) :
    ∃ inside, content ++ ['>'] = '!' :: kind :: inside := by
  rcases content with _ | ⟨a, _ | ⟨b, content⟩⟩
  · exact absurd (List.cons.inj h).1 (by decide)
  · obtain ⟨_, h⟩ := List.cons.inj h
    exact absurd (List.cons.inj h).1 hkind
  · obtain ⟨hbang, h⟩ := List.cons.inj h
    rw [hbang, (List.cons.inj h).1]
    exact ⟨content ++ ['>'], rfl⟩

/-- **A piece of markup is the same with another rest of the text behind it.** Only a piece that
    runs to the end of the text is not, and nothing is read behind that. -/
theorem Piece.read_replace {cs used rest : List Char} {piece : Piece}
    (h : Piece.read cs = .piece piece used rest) (hrest : rest ≠ []) (t : List Char) :
    Piece.read (used ++ t) = .piece piece used t := by
  have hparts := Piece.read_eq h
  unfold Piece.read at h
  split at h
  · cases h
  · obtain ⟨inside, rfl, hread⟩ := Reading.upToClose_replace h hrest
    exact hread t
  · obtain ⟨inside, rfl, hread⟩ := Reading.upToClose_replace h hrest
    exact hread t
  · split at h
    · cases h
    · obtain ⟨content, rfl, hread⟩ := Reading.bang_replace h
      obtain ⟨inside, hinside⟩ := exists_of_bang_parts (by decide) hparts
      rw [hinside] at hread ⊢
      exact hread t
    · obtain ⟨content, rfl, hread⟩ := Reading.bang_replace h
      obtain ⟨inside, hinside⟩ := exists_of_bang_parts (by decide) hparts
      rw [hinside] at hread ⊢
      exact hread t
    · obtain ⟨content, rfl, hread⟩ := Reading.bang_replace h
      obtain ⟨inside, hinside⟩ := exists_of_bang_parts (by decide) hparts
      rw [hinside] at hread ⊢
      exact hread t
    · obtain ⟨content, rfl, hread⟩ := Reading.bang_replace h
      obtain ⟨inside, hinside⟩ := exists_of_bang_parts (by decide) hparts
      rw [hinside] at hread ⊢
      exact hread t
    · cases h
  · next c cs hslash hquestion hbang =>
    split at h
    · next content rest' hcut =>
      cases h
      -- the first character is the same, so the text begins no other kind of piece
      have hfirst : ∃ more, content ++ '>' :: t = c :: more := by
        cases content with
        | nil => exact ⟨t, by rw [(List.cons.inj hparts).1]; rfl⟩
        | cons a content => exact ⟨content ++ '>' :: t, by rw [(List.cons.inj hparts).1]; rfl⟩
      obtain ⟨more, hmore⟩ := hfirst
      have hcut' := cutTag?_replace hcut t
      rw [hmore] at hcut'
      rw [List.append_assoc, List.singleton_append, hmore, Piece.read, hcut']
      · exact hslash
      · exact hquestion
      · exact hbang
    · cases h

/-! ## 2. One event after the other -/

theorem scanFrom_piece {cs used rest : List Char} {piece : Piece} {event : Event}
    {opened opened' : List (List Char)} (offset : Nat)
    (hread : Piece.read cs = .piece piece used rest)
    (hevent : piece.event opened = .ok (event, opened')) :
    scanFrom offset opened ('<' :: cs) =
      (scanFrom (offset + 1 + width used) opened' rest).cons
        ⟨event, ⟨offset, offset + 1 + width used⟩⟩ := by
  rw [scanFrom, if_pos rfl]
  split
  · next h => cases hread.symm.trans h
  · next h => cases hread.symm.trans h
  · next h =>
    cases hread.symm.trans h
    simp only [hevent]

/-- The text begins with markup or is at its end. -/
def AtMarkup (cs : List Char) : Prop := Format.StopsRun (· != '<') cs

/-- Character data without markup in it. -/
structure IsRun (run : List Char) : Prop where
  nonempty : run ≠ []
  plain : ∀ c ∈ run, (c != '<') = true

theorem isRun_takeWhile {c : Char} (hc : c ≠ '<') (cs : List Char) :
    IsRun (c :: cs.takeWhile (· != '<')) := by
  refine ⟨List.cons_ne_nil _ _, fun d hd => ?_⟩
  rcases List.mem_cons.mp hd with rfl | hd
  · exact bne_iff_ne.mpr hc
  · exact List.mem_takeWhile_imp (p := (· != '<')) hd

/-- No run begins where markup does. -/
theorem IsRun.not_atMarkup {run : List Char} (h : IsRun run) (behind : List Char) :
    ¬ AtMarkup (run ++ behind) := by
  intro hmarkup
  cases run with
  | nil => exact h.nonempty rfl
  | cons c run =>
    have hc : (c != '<') = false := hmarkup c rfl
    rw [h.plain c List.mem_cons_self] at hc
    cases hc

/-- A run is one event, and the scan goes on with the markup behind it. -/
theorem scanFrom_run {run behind : List Char} (hrun : IsRun run) (hbehind : AtMarkup behind)
    (offset : Nat) (opened : List (List Char)) :
    scanFrom offset opened (run ++ behind) =
      (scanFrom (offset + width run) opened behind).cons
        ⟨.text run, ⟨offset, offset + width run⟩⟩ := by
  cases run with
  | nil => exact absurd rfl hrun.nonempty
  | cons c run =>
    obtain ⟨hc, hall⟩ := List.forall_mem_cons.mp hrun.plain
    rw [List.cons_append, scanFrom, if_neg (bne_iff_ne.mp hc)]
    simp only [Format.takeWhile_append_of_stopsRun hall hbehind,
      Format.dropWhile_append_of_stopsRun hall hbehind]

/-- **The first event of a text**: a piece of markup or a run, and what the scan goes on with. -/
theorem first_event {offset : Nat} {opened : List (List Char)} {cs : List Char} {q : Placed}
    {later : List Placed} (h : (scanFrom offset opened cs).events = q :: later) :
    (∃ piece used rest event opened', cs = '<' :: (used ++ rest) ∧
      Piece.read (used ++ rest) = .piece piece used rest ∧
      piece.event opened = .ok (event, opened') ∧
      q = ⟨event, ⟨offset, offset + 1 + width used⟩⟩ ∧
      later = (scanFrom (offset + 1 + width used) opened' rest).events) ∨
    ∃ run behind, cs = run ++ behind ∧ IsRun run ∧ AtMarkup behind ∧
      q = ⟨.text run, ⟨offset, offset + width run⟩⟩ ∧
      later = (scanFrom (offset + width run) opened behind).events := by
  cases cs with
  | nil =>
    rw [scanFrom] at h
    cases h
  | cons c cs =>
    by_cases hc : c = '<'
    · subst hc
      left
      rw [scanFrom, if_pos rfl] at h
      split at h
      · cases h
      · cases h
      · next piece used rest hread =>
        dsimp only at h
        split at h
        · cases h
        · next event opened' hevent =>
          obtain ⟨rfl, rfl⟩ := List.cons.inj h
          obtain rfl := Piece.read_eq hread
          exact ⟨piece, used, rest, event, opened', rfl, hread, hevent, rfl, rfl⟩
    · right
      rw [scanFrom, if_neg hc] at h
      obtain ⟨rfl, rfl⟩ := List.cons.inj h
      refine ⟨c :: cs.takeWhile (· != '<'), cs.dropWhile (· != '<'), ?_, isRun_takeWhile hc cs,
        Format.stopsRun_dropWhile _ cs, rfl, rfl⟩
      rw [List.cons_append, List.takeWhile_append_dropWhile]

/-! ## 3. A text taken apart at an event -/

/-- The scan with more events in front. -/
def Scan.behind (events : List Placed) (scan : Scan) : Scan := ⟨events ++ scan.events, scan.fault⟩

/-- **A text is its characters before an event and those from it on.** What stands before the event
    gives the same events with another text behind it, if that does not go on with a run that ends
    there. -/
theorem exists_parts_of_event {offset : Nat} {opened : List (List Char)} {cs : List Char}
    {earlier later : List Placed} {p : Placed}
    (h : (scanFrom offset opened cs).events = earlier ++ p :: later) :
    ∃ before rest inside, cs = before ++ rest ∧
      (scanFrom (offset + width before) inside rest).events = p :: later ∧
      ∀ rest', (AtMarkup rest → AtMarkup rest') → scanFrom offset opened (before ++ rest') =
        (scanFrom (offset + width before) inside rest').behind earlier := by
  induction earlier generalizing offset opened cs with
  | nil => exact ⟨[], cs, opened, rfl, h, fun rest' _ => rfl⟩
  | cons q earlier ih =>
    rcases first_event h with ⟨piece, used, more, event, opened', rfl, hread, hevent, rfl, hlater⟩ |
      ⟨run, more, rfl, hrun, hmore, rfl, hlater⟩
    · obtain ⟨before, rest, inside, rfl, hevents, hscan⟩ := ih hlater.symm
      have hwidth : offset + width ('<' :: (used ++ before)) =
          offset + 1 + width used + width before := by
        rw [width_cons, width_append, show '<'.utf8Size = 1 from rfl]
        omega
      -- there is an event behind this piece, so the piece does not run to the end of the text
      have hne : before ++ rest ≠ [] := by
        intro hnil
        rw [hnil, scanFrom] at hlater
        exact List.append_ne_nil_of_right_ne_nil _ (List.cons_ne_nil _ _) hlater
      refine ⟨'<' :: (used ++ before), rest, inside, ?_, by rw [hwidth]; exact hevents, ?_⟩
      · rw [List.cons_append, List.append_assoc]
      · intro rest' hrest'
        have hread' := Piece.read_replace hread hne (before ++ rest')
        rw [List.cons_append, List.append_assoc, scanFrom_piece offset hread' hevent, hwidth,
          hscan rest' hrest']
        rfl
    · obtain ⟨before, rest, inside, rfl, hevents, hscan⟩ := ih hlater.symm
      refine ⟨run ++ before, rest, inside, (List.append_assoc _ _ _).symm, ?_, ?_⟩
      · rw [width_append, ← Nat.add_assoc]
        exact hevents
      · intro rest' hrest'
        have hmarkup : AtMarkup (before ++ rest') := by
          cases before with
          | nil => exact hrest' hmore
          | cons d before => exact Format.stopsRun_cons (hmore d rfl)
        rw [List.append_assoc, scanFrom_run hrun hmarkup, width_append, ← Nat.add_assoc,
          hscan rest' hrest']
        rfl

/-- An event in a text of which it is a part, behind other characters. -/
def Placed.shift (n : Nat) (p : Placed) : Placed := ⟨p.event, p.range.shift n⟩

/-- **The events of a text do not depend on where it begins**, up to their places. -/
theorem scanFrom_shift (n offset : Nat) (opened : List (List Char)) (cs : List Char) :
    (scanFrom (offset + n) opened cs).events =
        (scanFrom offset opened cs).events.map (Placed.shift n) ∧
      ((scanFrom (offset + n) opened cs).fault = none ↔
        (scanFrom offset opened cs).fault = none) := by
  fun_induction scanFrom offset opened cs with
  | case1 => simp [scanFrom]
  | case2 offset opened cs hread =>
    rw [scanFrom, if_pos rfl]
    split <;> simp_all
  | case3 offset opened cs fault hread =>
    rw [scanFrom, if_pos rfl]
    split <;> simp_all [Scan.stop]
  | case4 offset opened cs piece used rest hread stop back fault hevent =>
    rw [scanFrom, if_pos rfl]
    split <;> simp_all [Scan.stop]
  | case5 offset opened cs piece used rest hread stop event opened' hevent =>
    rename_i ih
    rw [scanFrom_piece _ hread hevent, show offset + n + 1 + width used = stop + n by omega]
    refine ⟨?_, ih.2⟩
    show _ :: _ = _ :: _
    rw [ih.1]
    rfl
  | case6 offset opened c cs hne run stop =>
    rename_i ih
    rw [scanFrom, if_neg hne]
    dsimp only
    rw [show offset + n + width (c :: cs.takeWhile (· != '<')) = stop + n from
      Nat.add_right_comm _ _ _]
    refine ⟨?_, ih.2⟩
    show _ :: _ = _ :: _
    rw [ih.1]
    rfl

/-! ## 4. Sections of character data -/

/-- What closes a section of character data. -/
def sectionEnd : List Char := [']', ']', '>']

theorem endsCData_reverse_iff {cs : List Char} :
    endsCData cs.reverse = true ↔ ∃ body, cs = body ++ [']', ']'] := by
  have hmarks : "]]".toList = [']', ']'] := String.toList_ofList
  unfold endsCData
  rw [hmarks, List.isPrefixOf_iff_prefix]
  constructor
  · rintro ⟨z, hz⟩
    refine ⟨z.reverse, ?_⟩
    rw [← List.reverse_reverse cs, ← hz, List.reverse_append]
    rfl
  · rintro ⟨body, rfl⟩
    exact ⟨body.reverse, by rw [List.reverse_append]; rfl⟩

/-- A section is followed to the first `]]>` in it. -/
theorem cutAt?_endsCData_iff {cs content rest : List Char} :
    cutAt? endsCData [] cs = some (content, rest) ↔
      cs = content ++ '>' :: rest ∧ (∃ body, content = body ++ [']', ']']) ∧
        ¬ sectionEnd <:+: content := by
  have hclose : ∀ body y, body ++ sectionEnd ++ y = body ++ [']', ']'] ++ '>' :: y := by
    intro body y
    simp [sectionEnd]
  rw [cutAt?_eq_some_iff]
  constructor
  · rintro ⟨inside, hparts, hcontent, haccept, hfirst⟩
    obtain rfl : content = inside := hcontent
    rw [List.append_nil] at haccept
    refine ⟨hparts, endsCData_reverse_iff.mp haccept, ?_⟩
    rintro ⟨x, y, hxy⟩
    have hnot := hfirst (x ++ [']', ']']) y (hxy ▸ hclose x y)
    rw [List.append_nil, endsCData_reverse_iff.mpr ⟨x, rfl⟩] at hnot
    cases hnot
  · rintro ⟨hparts, hbody, hnone⟩
    refine ⟨content, hparts, rfl, ?_, fun x y hxy => ?_⟩
    · rw [List.append_nil]
      exact endsCData_reverse_iff.mpr hbody
    · rw [List.append_nil]
      refine Bool.eq_false_iff.mpr fun haccept => hnone ?_
      obtain ⟨z, rfl⟩ := endsCData_reverse_iff.mp haccept
      exact ⟨z, y, (hclose z y).trans hxy.symm⟩

/-- What begins and ends beside some characters does not hold any of them. -/
theorem infix_or_of_avoids {before mid behind part : List Char} (hne : mid ≠ [])
    (havoid : ∀ c ∈ mid, c ∉ part) (h : part <:+: before ++ (mid ++ behind)) :
    part <:+: before ∨ part <:+: behind := by
  obtain ⟨x, y, hxy⟩ := h
  rw [List.append_assoc] at hxy
  rcases List.append_eq_append_iff.mp hxy with ⟨a, rfl, hrest⟩ | ⟨a, rfl, hrest⟩
  · -- it begins before the characters
    rcases List.append_eq_append_iff.mp hrest with ⟨b, rfl, _⟩ | ⟨b, rfl, hmid⟩
    · exact .inl ⟨x, b, by simp⟩
    · cases b with
      | nil => exact .inl ⟨x, [], by simp⟩
      | cons c b =>
        cases mid with
        | nil => exact absurd rfl hne
        | cons d mid =>
          obtain ⟨rfl, _⟩ := List.cons.inj hmid
          exact absurd (List.mem_append_right a List.mem_cons_self)
            (havoid d List.mem_cons_self)
  · -- it begins among them or behind them
    rcases List.append_eq_append_iff.mp hrest with ⟨b, rfl, hbehind⟩ | ⟨b, rfl, hmid⟩
    · exact .inr ⟨b, y, by rw [hbehind, List.append_assoc]⟩
    · cases part with
      | nil => exact .inl ⟨[], before, rfl⟩
      | cons c part =>
        cases b with
        | nil => exact .inr ⟨[], y, hmid⟩
        | cons d b =>
          obtain ⟨rfl, _⟩ := List.cons.inj hmid
          exact absurd List.mem_cons_self
            (havoid c (List.mem_append_right a List.mem_cons_self))

theorem utf8Size_toUpper (c : Char) : c.toUpper.utf8Size = c.utf8Size := by
  unfold Char.toUpper
  split
  · next h =>
    obtain ⟨hlow, hhigh⟩ := h
    have hlow' : 97 ≤ c.val.toNat := UInt32.le_iff_toNat_le.mp hlow
    have hhigh' : c.val.toNat ≤ 122 := UInt32.le_iff_toNat_le.mp hhigh
    have hshift : (c.val + ('A'.val - 'a'.val)).toNat = c.val.toNat - 32 := by
      rw [UInt32.toNat_add, show ('A'.val - 'a'.val).toNat = 4294967264 from rfl]
      omega
    simp only [Char.utf8Size]
    rw [if_pos (UInt32.le_iff_toNat_le.mpr ?_), if_pos (UInt32.le_iff_toNat_le.mpr ?_)]
    · show c.val.toNat ≤ 127
      omega
    · show (c.val + ('A'.val - 'a'.val)).toNat ≤ 127
      omega
  · rfl

/-- How a section begins, behind its `<`: the letters may be small. -/
structure IsSectionStart (word : List Char) : Prop where
  first : ∃ letters, word = '!' :: '[' :: letters
  upper : word.map Char.toUpper = "![CDATA[".toList

theorem IsSectionStart.length {word : List Char} (h : IsSectionStart word) : word.length = 8 := by
  rw [← List.length_map Char.toUpper, h.upper]
  rfl

theorem width_map_toUpper (cs : List Char) : width (cs.map Char.toUpper) = width cs := by
  induction cs with
  | nil => rfl
  | cons c cs ih => rw [List.map_cons, width_cons, width_cons, utf8Size_toUpper, ih]

theorem IsSectionStart.width {word : List Char} (h : IsSectionStart word) : width word = 8 := by
  rw [← width_map_toUpper, h.upper]
  rfl

/-- The characters that an event carries into an element, as they are written. -/
def Event.data? : Event → Option (List Char)
  | .text written | .cdata written => some written
  | _ => none

theorem Piece.cut_of_cdata {cs content used rest : List Char}
    (h : Piece.read cs = .piece (.cdata content) used rest) :
    (∃ more, cs = '!' :: '[' :: more) ∧ used = content ++ ['>'] ∧
      cutAt? endsCData [] cs = some (content, rest) := by
  unfold Piece.read at h
  split at h
  · cases h
  · obtain ⟨_, hmake⟩ := Reading.exists_of_upToClose h
    cases hmake
  · obtain ⟨_, hmake⟩ := Reading.exists_of_upToClose h
    cases hmake
  · split at h
    · cases h
    · next more =>
      unfold Reading.bang at h
      split at h
      · next hcut =>
        cases h
        exact ⟨⟨more, rfl⟩, rfl, hcut⟩
      · cases h
    · obtain ⟨_, hmake⟩ := Reading.exists_of_bang h
      cases hmake
    · obtain ⟨_, hmake⟩ := Reading.exists_of_bang h
      cases hmake
    · obtain ⟨_, hmake⟩ := Reading.exists_of_bang h
      cases hmake
    · cases h
  · split at h <;> cases h

/-- Of all markup only a section carries characters. -/
theorem Piece.eq_cdata_of_event {piece : Piece} {opened opened' : List (List Char)} {event : Event}
    {w : List Char} (h : piece.event opened = .ok (event, opened')) (hw : event.data? = some w) :
    event = .cdata w ∧ ∃ content, piece = .cdata content ∧ opened' = opened ∧
      beginsWithWord "![CDATA[" (content.take (content.length - 2)) = true ∧
      w = (content.take (content.length - 2)).drop 8 := by
  cases piece with
  | cdata content =>
    simp only [Piece.event] at h
    split at h
    · next hword =>
      cases h
      obtain rfl := Option.some.inj hw
      exact ⟨rfl, content, rfl, rfl, hword, rfl⟩
    · cases h
  | tag content | question content | comment content =>
    simp only [Piece.event] at h
    split at h <;> cases h <;> cases hw
  | ending content =>
    simp only [Piece.event] at h
    split at h
    · cases h
    · split at h <;> cases h
      cases hw
  | doctype content =>
    simp only [Piece.event] at h
    split at h
    · split at h <;> cases h
      cases hw
    · cases h

theorem take_section (body : List Char) :
    (body ++ [']', ']']).take ((body ++ [']', ']']).length - 2) = body := by
  rw [List.length_append, List.length_cons, List.length_singleton, Nat.add_sub_cancel,
    List.take_left]

/-- **A section is written as its start, its characters and `]]>`.** -/
theorem section_event {piece : Piece} {used rest w : List Char} {opened opened' : List (List Char)}
    {event : Event} (hread : Piece.read (used ++ rest) = .piece piece used rest)
    (hevent : piece.event opened = .ok (event, opened')) (hw : event.data? = some w) :
    ∃ word, used = word ++ (w ++ sectionEnd) ∧ IsSectionStart word ∧ event = .cdata w ∧
      opened' = opened ∧ ¬ sectionEnd <:+: word ++ (w ++ [']', ']']) := by
  obtain ⟨rfl, content, rfl, rfl, hword, rfl⟩ := Piece.eq_cdata_of_event hevent hw
  obtain ⟨⟨more, hfirst⟩, rfl, hcut⟩ := Piece.cut_of_cdata hread
  obtain ⟨_, ⟨body, rfl⟩, hclose⟩ := cutAt?_endsCData_iff.mp hcut
  rw [take_section] at hword ⊢
  have hsplit : body.take 8 ++ body.drop 8 = body := List.take_append_drop 8 body
  have hupper : (body.take 8).map Char.toUpper = "![CDATA[".toList := by
    have hbegins := List.isPrefixOf_iff_prefix.mp hword
    rw [List.map_take]
    exact (List.prefix_iff_eq_take.mp hbegins).symm
  refine ⟨body.take 8, ?_, ⟨?_, hupper⟩, rfl, rfl, ?_⟩
  · rw [← List.append_assoc, hsplit, sectionEnd]
    simp
  · -- the word has eight characters, and the first two are those that tell the piece
    have hlength : (body.take 8).length = 8 := by
      rw [← List.length_map Char.toUpper, hupper]
      rfl
    rw [← hsplit] at hfirst
    match hbody : body.take 8, hlength with
    | a :: b :: letters, _ =>
      rw [hbody] at hfirst
      obtain ⟨rfl, hsecond⟩ := List.cons.inj hfirst
      obtain ⟨rfl, _⟩ := List.cons.inj hsecond
      exact ⟨letters, rfl⟩
  · rw [← List.append_assoc, hsplit]
    exact hclose

/-- A section with characters that do not close it is read as one event. -/
theorem scanFrom_section {word w : List Char} (hword : IsSectionStart word)
    (hclose : ¬ sectionEnd <:+: word ++ (w ++ [']', ']'])) (behind : List Char) (offset : Nat)
    (opened : List (List Char)) :
    scanFrom offset opened ('<' :: (word ++ (w ++ sectionEnd)) ++ behind) =
      (scanFrom (offset + width ('<' :: (word ++ (w ++ sectionEnd)))) opened behind).cons
        ⟨.cdata w, ⟨offset, offset + width ('<' :: (word ++ (w ++ sectionEnd)))⟩⟩ := by
  have hparts : word ++ (w ++ sectionEnd) = word ++ w ++ [']', ']'] ++ ['>'] := by
    simp [sectionEnd]
  have hcut : cutAt? endsCData [] (word ++ w ++ [']', ']'] ++ '>' :: behind) =
      some (word ++ w ++ [']', ']'], behind) :=
    cutAt?_endsCData_iff.mpr ⟨rfl, ⟨word ++ w, rfl⟩, by rwa [List.append_assoc]⟩
  have hread : Piece.read (word ++ (w ++ sectionEnd) ++ behind) =
      .piece (.cdata (word ++ w ++ [']', ']'])) (word ++ (w ++ sectionEnd)) behind := by
    obtain ⟨letters, rfl⟩ := hword.first
    rw [hparts, List.append_assoc, List.singleton_append]
    show Reading.bang .cdata .cdata endsCData _ = _
    rw [Reading.bang, hcut]
  have hevent : (Piece.cdata (word ++ w ++ [']', ']'])).event opened = .ok (.cdata w, opened) := by
    have hbegins : beginsWithWord "![CDATA[" (word ++ w) = true := by
      unfold beginsWithWord
      rw [List.isPrefixOf_iff_prefix, List.map_append, hword.upper]
      exact List.prefix_append _ _
    rw [Piece.event, take_section, if_pos hbegins, ← hword.length, List.drop_left]
  have hwidth : offset + width ('<' :: (word ++ (w ++ sectionEnd))) =
      offset + 1 + width (word ++ (w ++ sectionEnd)) := by
    rw [width_cons, show '<'.utf8Size = 1 from rfl, Nat.add_assoc]
  rw [List.cons_append, scanFrom_piece offset hread hevent, hwidth]

/-! ## 5. Events that carry characters -/

/-- The event with other characters. -/
def Event.withData (written : List Char) : Event → Event
  | .text _ => .text written
  | .cdata _ => .cdata written
  | e => e

/-- Where the characters of an event stand. A section has nine characters before them and three
    behind them. -/
def Placed.dataRange (p : Placed) : ByteRange :=
  match p.event with
  | .cdata _ => ⟨p.range.start + 9, p.range.stop - 3⟩
  | _ => p.range

/-- The characters that end markup, begin or end a reference, quote, or mark the order of bytes. -/
def reserved : List Char := ['>', ']', '&', ';', '"', '\\', byteOrderMark]

/-- Characters that mean nothing to the readers of a text. With the percent sign they are no part of
    the name of an entity. -/
structure Inert (cs : List Char) : Prop where
  sign : '%' ∈ cs
  plain : ∀ c ∈ cs, c ∉ reserved

theorem Inert.ne_nil {cs : List Char} (h : Inert cs) : cs ≠ [] := List.ne_nil_of_mem h.sign

/-- A text is read as one event, and what is behind it is read next. -/
def ReadsAs (opened : List (List Char)) (behind written : List Char) (event : Event) : Prop :=
  ∀ offset, scanFrom offset opened (written ++ behind) =
    (scanFrom (offset + width written) opened behind).cons ⟨event, ⟨offset, offset + width written⟩⟩

/-- Characters that do not close a section can be put into it. -/
theorem not_infix_replace {before old new back : List Char} (hnew : Inert new)
    (h : ¬ sectionEnd <:+: before ++ (old ++ back)) : ¬ sectionEnd <:+: before ++ (new ++ back) := by
  intro hinfix
  have hreserved : sectionEnd ⊆ reserved := by simp [sectionEnd, reserved]
  have havoid : ∀ c ∈ new, c ∉ sectionEnd := fun c hc hend => hnew.plain c hc (hreserved hend)
  rcases infix_or_of_avoids hnew.ne_nil havoid hinfix with hbefore | hback
  · exact h (hbefore.trans ⟨[], old ++ back, rfl⟩)
  · exact h (hback.trans ⟨before ++ old, [], by simp⟩)

/-- Characters without markup can be put into a run. -/
theorem IsRun.replace {front old back new : List Char} (h : IsRun (front ++ (old ++ back)))
    (hnew : Inert new) (hopen : '<' ∉ new) : IsRun (front ++ (new ++ back)) := by
  refine ⟨by simp [hnew.ne_nil], fun c hc => ?_⟩
  rcases List.mem_append.mp hc with hc | hc
  · exact h.plain c (List.mem_append_left _ hc)
  · rcases List.mem_append.mp hc with hc | hc
    · exact bne_iff_ne.mpr fun heq => hopen (heq ▸ hc)
    · exact h.plain c (List.mem_append_right _ (List.mem_append_right _ hc))

/-- **Where the first event carries characters, others can be put among them.** -/
theorem data_event {offset : Nat} {opened : List (List Char)} {rest w : List Char} {p : Placed}
    {later : List Placed} (h : (scanFrom offset opened rest).events = p :: later)
    (hp : p.event.data? = some w) :
    ∃ opening closing behind, rest = opening ++ (w ++ closing) ++ behind ∧
      p.range = ⟨offset, offset + width (opening ++ (w ++ closing))⟩ ∧
      p.dataRange = ⟨offset + width opening, offset + width opening + width w⟩ ∧
      ReadsAs opened behind (opening ++ (w ++ closing)) p.event ∧
      ∀ front old back new, w = front ++ (old ++ back) → Inert new → '<' ∉ new →
        ReadsAs opened behind (opening ++ (front ++ (new ++ back) ++ closing))
          (p.event.withData (front ++ (new ++ back))) ∧
        (AtMarkup rest → AtMarkup (opening ++ (front ++ (new ++ back) ++ closing) ++ behind)) := by
  rcases first_event h with ⟨piece, used, more, event, opened', rfl, hread, hevent, rfl, _⟩ |
    ⟨run, more, rfl, hrun, hmore, rfl, _⟩
  · obtain ⟨word, rfl, hword, rfl, rfl, hclose⟩ := section_event hread hevent hp
    have hopening : width ('<' :: word) = 9 := by
      rw [width_cons, hword.width]
      rfl
    have hwidth : width (word ++ (w ++ sectionEnd)) = 8 + (width w + 3) := by
      rw [width_append, width_append, hword.width]
      rfl
    refine ⟨'<' :: word, sectionEnd, more, rfl, ?_, ?_, ?_, ?_⟩
    · rw [List.cons_append, width_cons, show '<'.utf8Size = 1 from rfl, Nat.add_assoc]
    · simp only [Placed.dataRange, hopening, hwidth, ByteRange.mk.injEq, true_and]
      omega
    · exact fun n => scanFrom_section hword hclose more n opened'
    · rintro front old back new rfl hnew _
      refine ⟨fun n => scanFrom_section hword ?_ more n opened', fun _ => ?_⟩
      · rw [List.append_assoc, List.append_assoc, ← List.append_assoc word] at hclose ⊢
        exact not_infix_replace hnew hclose
      · exact Format.stopsRun_cons rfl
  · obtain rfl : run = w := Option.some.inj hp
    refine ⟨[], [], more, by simp, by simp, by simp [Placed.dataRange], ?_, ?_⟩
    · intro n
      rw [List.nil_append, List.append_nil]
      exact scanFrom_run hrun hmore n opened
    · rintro front old back new rfl hnew hopen
      refine ⟨fun n => ?_, fun hmarkup => absurd hmarkup (hrun.not_atMarkup more)⟩
      rw [List.nil_append, List.append_nil]
      exact scanFrom_run (hrun.replace hnew hopen) hmore n opened

/-- A text without a byte order mark is read from its first character on. -/
theorem scan_eq_scanFrom {contents : List Char} (hmark : contents.head? ≠ some byteOrderMark) :
    scan contents = scanFrom 0 [] contents := by
  unfold scan
  split
  · next c cs =>
    rw [if_neg fun h => hmark (congrArg some h)]
  · rw [scanFrom]

theorem head?_replace {new : List Char} (hnew : Inert new) (before old behind : List Char)
    (h : (before ++ (old ++ behind)).head? ≠ some byteOrderMark) :
    (before ++ (new ++ behind)).head? ≠ some byteOrderMark := by
  intro hmark
  cases before with
  | cons c before => exact h hmark
  | nil =>
    cases new with
    | nil => exact hnew.ne_nil rfl
    | cons c new =>
      have hc : c = byteOrderMark := Option.some.inj hmark
      refine hnew.plain c List.mem_cons_self ?_
      rw [hc]
      simp [reserved]

/-- An event carries the characters `w`, which stand between an opening and a closing of its own. -/
structure Placed.Carries (contents : List Char) (p : Placed)
    (w before opening closing behind : List Char) : Prop where
  parts : contents = before ++ (opening ++ (w ++ closing)) ++ behind
  range : p.range = ⟨width before, width (before ++ (opening ++ (w ++ closing)))⟩
  dataRange : p.dataRange = ⟨width (before ++ opening), width (before ++ opening) + width w⟩

/-- **The events of a text with other characters in a run or a section.** -/
theorem scan_replace {contents w : List Char} {earlier later : List Placed} {p : Placed}
    (hmark : contents.head? ≠ some byteOrderMark) (hfault : (scan contents).fault = none)
    (h : (scan contents).events = earlier ++ p :: later) (hp : p.event.data? = some w) :
    ∃ (before opening closing behind : List Char) (events : List Placed),
      p.Carries contents w before opening closing behind ∧
      later = events.map (Placed.shift (width (before ++ (opening ++ (w ++ closing))))) ∧
      (∀ q ∈ events, q.LiesIn behind) ∧
      ∀ front old back new, w = front ++ (old ++ back) → Inert new → '<' ∉ new →
        ∀ written, written = before ++ (opening ++ (front ++ (new ++ back) ++ closing)) →
        scan (written ++ behind) =
          ⟨earlier ++ ⟨p.event.withData (front ++ (new ++ back)), ⟨width before, width written⟩⟩ ::
            events.map (Placed.shift (width written)), none⟩ := by
  rw [scan_eq_scanFrom hmark] at h hfault
  obtain ⟨before, rest, inside, rfl, hfirst, hscan⟩ := exists_parts_of_event h
  rw [Nat.zero_add] at hfirst hscan
  obtain ⟨opening, closing, behind, rfl, hrange, hdata, hown, hreplace⟩ := data_event hfirst hp
  -- an event in the place of `p`, and the events behind it
  have hread : ∀ written event, ReadsAs inside behind written event →
      scanFrom (width before) inside (written ++ behind) =
        ⟨⟨event, ⟨width before, width (before ++ written)⟩⟩ ::
          (scanFrom 0 inside behind).events.map (Placed.shift (width (before ++ written))),
          (scanFrom (0 + width (before ++ written)) inside behind).fault⟩ := by
    intro written event hreads
    rw [hreads, ← width_append, ← (scanFrom_shift (width (before ++ written)) 0 inside behind).1,
      Nat.zero_add]
    rfl
  have hself := hread _ _ hown
  have hlater : later = (scanFrom 0 inside behind).events.map
      (Placed.shift (width (before ++ (opening ++ (w ++ closing))))) := by
    rw [hself] at hfirst
    exact (List.cons.inj hfirst).2.symm
  have hnone : (scanFrom 0 inside behind).fault = none := by
    rw [hscan _ id, hself] at hfault
    exact (scanFrom_shift _ 0 inside behind).2.mp hfault
  refine ⟨before, opening, closing, behind, (scanFrom 0 inside behind).events, ⟨?_, ?_, ?_⟩, hlater,
    (scanFrom_covers inside (List.nil_append _).symm rfl).2, ?_⟩
  · rw [List.append_assoc before]
  · rw [hrange, width_append before]
  · rw [hdata, width_append before]
  · rintro front old back new rfl hnew hopen written rfl
    obtain ⟨hreads, hmarkup⟩ := hreplace front old back new rfl hnew hopen
    have hmark' : (before ++ (opening ++ (front ++ (new ++ back) ++ closing)) ++ behind).head? ≠
        some byteOrderMark := by
      have hhead := head?_replace hnew (before ++ (opening ++ front)) old
        (back ++ (closing ++ behind))
      simp only [List.append_assoc] at hhead hmark ⊢
      exact hhead hmark
    rw [scan_eq_scanFrom hmark', List.append_assoc before, hscan _ hmarkup, hread _ _ hreads,
      (scanFrom_shift _ 0 inside behind).2.mpr hnone]
    rfl

/-- Where an event ends and character data follows, the next event is a run that holds it. -/
theorem exists_run_behind {front data rest : List Char} {q : Placed} {earlier later : List Placed}
    (hmark : (front ++ (data ++ rest)).head? ≠ some byteOrderMark)
    (h : (scan (front ++ (data ++ rest))).events = earlier ++ q :: later)
    (hstop : q.range.stop = width front) (hdata : IsRun data) :
    ∃ more later', later = ⟨.text (data ++ more),
      ⟨width front, width front + width (data ++ more)⟩⟩ :: later' := by
  rw [scan_eq_scanFrom hmark] at h
  obtain ⟨before, tail, inside, hparts, hfirst, _⟩ := exists_parts_of_event h
  rw [Nat.zero_add] at hfirst
  -- the scan goes on where the event ends
  have hnext : ∃ opened, later = (scanFrom (width front) opened (data ++ rest)).events := by
    rcases first_event hfirst with ⟨_, used, more, _, opened', rfl, _, _, rfl, hlater⟩ |
      ⟨run, more, rfl, _, _, rfl, hlater⟩
    · have hwidth : width front = width (before ++ '<' :: used) := by
        rw [← hstop, width_append, width_cons, show '<'.utf8Size = 1 from rfl, Nat.add_assoc]
      have hsame : front ++ (data ++ rest) = before ++ '<' :: used ++ more := by
        rw [hparts, List.append_assoc, List.cons_append]
      rw [(append_inj_of_width hsame hwidth).2, ← hstop]
      exact ⟨opened', hlater⟩
    · have hwidth : width front = width (before ++ run) := by rw [← hstop, width_append]
      have hsame : front ++ (data ++ rest) = before ++ run ++ more := by
        rw [hparts, List.append_assoc]
      rw [(append_inj_of_width hsame hwidth).2, ← hstop]
      exact ⟨inside, hlater⟩
  obtain ⟨opened, hlater⟩ := hnext
  have hrun : IsRun (data ++ rest.takeWhile (· != '<')) := by
    refine ⟨by simp [hdata.nonempty], fun c hc => ?_⟩
    rcases List.mem_append.mp hc with hc | hc
    · exact hdata.plain c hc
    · exact List.mem_takeWhile_imp (p := (· != '<')) hc
  have hsplit : data ++ rest = data ++ rest.takeWhile (· != '<') ++ rest.dropWhile (· != '<') := by
    rw [List.append_assoc, List.takeWhile_append_dropWhile]
  rw [hsplit, scanFrom_run hrun (Format.stopsRun_dropWhile _ rest)] at hlater
  exact ⟨rest.takeWhile (· != '<'), _, hlater⟩

end AndroidLint.Xml
