/-
  File:      AndroidLint/Proofs/EscapeContents.lean
  Subject:   Escapes are looked for in character data, and how far markup is passed over.

  The content of an element is character data between tags, comments and CDATA sections. What is to
  be found there is told by the machine that reads the character data alone and keeps its state over
  markup (`findInData`). The scan for bad escapes looks for the first text that may end the piece of
  markup that it has come to:

  * `afterMarkup_written`:    markup is passed over whole, unless what ends it is in it before;
  * `follows_readPieces`:     over a whole content, the scan does what the machine does;
  * `find?_content`:          so it finds what the machine finds, and nothing inside markup;
  * `find?_misled`:           where it takes a part of the markup for character data.
-/
import AndroidLint.Proofs.CharacterData

namespace AndroidLint.Check.EscapeProblem

open Text (width)

/-! ## 1. Contents -/

/-- A part of the inside of a tag. -/
inductive TagPart where
  | plain (c : Char)
  | quoted (quote : Char) (value : List Char)

namespace TagPart

/-- How the part is written. -/
def written : TagPart → List Char
  | plain c => [c]
  | quoted quote value => quote :: value ++ [quote]

/-- Angle brackets and quotes stand in quoted values only; a value is without its own quote and
    without `<`. -/
def WellFormed : TagPart → Prop
  | plain c => c ∉ ['<', '>', '"', '\'']
  | quoted quote value => (quote = '"' ∨ quote = '\'') ∧ quote ∉ value ∧ '<' ∉ value

instance (p : TagPart) : Decidable p.WellFormed :=
  match p with
  | plain c => inferInstanceAs (Decidable (c ∉ ['<', '>', '"', '\'']))
  | quoted quote value =>
    inferInstanceAs (Decidable ((quote = '"' ∨ quote = '\'') ∧ quote ∉ value ∧ '<' ∉ value))

end TagPart

/-- A part of the content of an element. -/
inductive ContentPiece where
  | data (cs : List Char)
  | comment (body : List Char)
  | cdata (body : List Char)
  /-- A start tag, an end tag or an empty tag. -/
  | tag (first : Char) (parts : List TagPart)

namespace ContentPiece

/-- How the piece is written. -/
def written : ContentPiece → List Char
  | data cs => cs
  | comment body => "<!--".toList ++ body ++ "-->".toList
  | cdata body => "<![CDATA[".toList ++ body ++ "]]>".toList
  | tag first parts => '<' :: first :: parts.flatMap TagPart.written ++ ['>']

/-- Whether the piece is not character data. -/
def isMarkup : ContentPiece → Bool
  | data _ => false
  | _ => true

/-- What makes a piece well formed. A tag begins with a name or with the slash of an end tag, not as
    other markup does. -/
def WellFormed : ContentPiece → Prop
  | data cs => '<' ∉ cs
  | comment body => ¬ "--".toList <:+: body ++ ['-']
  | cdata body => ¬ "]]>".toList <:+: body
  | tag first parts => first ∉ ['<', '>', '"', '\'', '!', '?'] ∧ ∀ p ∈ parts, p.WellFormed

/-- Nothing in the piece looks like its end: no value in a tag holds a `>`, and no comment begins
    with `>` or `->`. -/
def EndsOnce : ContentPiece → Prop
  | comment body => ¬ ['>'] <+: body ∧ ¬ ['-', '>'] <+: body
  | tag _ parts => ∀ p ∈ parts, '>' ∉ p.written
  | _ => True

instance (p : ContentPiece) : Decidable p.WellFormed :=
  match p with
  | data cs => inferInstanceAs (Decidable ('<' ∉ cs))
  | comment body => inferInstanceAs (Decidable (¬ "--".toList <:+: body ++ ['-']))
  | cdata body => inferInstanceAs (Decidable (¬ "]]>".toList <:+: body))
  | tag first parts => inferInstanceAs
      (Decidable (first ∉ ['<', '>', '"', '\'', '!', '?'] ∧ ∀ p ∈ parts, p.WellFormed))

instance (p : ContentPiece) : Decidable p.EndsOnce :=
  match p with
  | data _ | cdata _ => inferInstanceAs (Decidable True)
  | comment body => inferInstanceAs (Decidable (¬ ['>'] <+: body ∧ ¬ ['-', '>'] <+: body))
  | tag _ parts => inferInstanceAs (Decidable (∀ p ∈ parts, '>' ∉ p.written))

end ContentPiece

/-- How a content is written. -/
def writtenPieces (ps : List ContentPiece) : List Char := ps.flatMap (·.written)

theorem writtenPieces_append (as bs : List ContentPiece) :
    writtenPieces (as ++ bs) = writtenPieces as ++ writtenPieces bs := List.flatMap_append

/-- The state of a reader after some pieces, of which it reads the character data. -/
def DataState.readPieces (s : DataState) (offset : Nat) :
    List ContentPiece → Except Finding DataState
  | [] => .ok s
  | .data cs :: ps => do (← s.read offset cs).readPieces (offset + width cs) ps
  | p :: ps => s.pastMarkup.readPieces (offset + width p.written) ps

/-- **The first problem in the character data of a content.** -/
def findInData (ps : List ContentPiece) : Option Finding :=
  match DataState.start.readPieces 0 ps with
  | .error found => some found
  | .ok s => s.atEnd

/-! ## 2. Markup -/

/-- A text of two equal letters and a third one begins at no place before it, if it is not there as a
    whole. -/
theorem not_begins_twice {x y : Char} (hxy : x ≠ y) {bs : List Char} (rest : List Char)
    (hne : bs ≠ []) (h : ¬ [x, x, y] <+: bs) : ¬ [x, x, y] <+: bs ++ ([x, x, y] ++ rest) := by
  intro hbegins
  match bs, hne with
  | [a], _ =>
    have := (List.cons_prefix_cons.mp hbegins).2
    have := (List.cons_prefix_cons.mp this).2
    exact hxy (List.cons_prefix_cons.mp this).1.symm
  | [a, b], _ =>
    have := (List.cons_prefix_cons.mp hbegins).2
    have := (List.cons_prefix_cons.mp this).2
    exact hxy (List.cons_prefix_cons.mp this).1.symm
  | a :: b :: c :: bs, _ =>
    refine h (List.prefix_of_prefix_length_le hbegins ⟨_, rfl⟩ ?_)
    simp

/-- A text does not begin where its first letter does not stand. -/
theorem not_begins_of_notMem {x : Char} {needle bs rest : List Char} (hne : bs ≠ [])
    (h : x ∉ bs) : ¬ x :: needle <+: bs ++ rest := by
  intro hbegins
  match bs, hne with
  | b :: bs, _ => exact h ((List.cons_prefix_cons.mp hbegins).1 ▸ List.mem_cons_self)

/-- Inside a comment its end does not begin, unless right at the beginning. -/
theorem not_ends_comment {body as bs : List Char} (hbody : ¬ "--".toList <:+: body ++ ['-'])
    (hends : (ContentPiece.comment body).EndsOnce) (hparts : "<!--".toList ++ body = as ++ bs) :
    ¬ ['-', '-', '>'] <+: bs := by
  have hlater : ∀ as bs : List Char, body = as ++ bs → ¬ ['-', '-', '>'] <+: bs := by
    rintro as _ rfl ⟨rest, rfl⟩
    exact hbody ⟨as, '>' :: rest ++ ['-'], by simp⟩
  rcases List.append_eq_append_iff.mp hparts with ⟨more, _, hbody⟩ | ⟨head, hopening, rfl⟩
  · exact hlater more bs hbody
  · -- what stands before the body may be part of the end
    have hhead : head = "<!--".toList.drop as.length := by rw [hopening, List.drop_left]
    subst hhead
    intro hbegins
    generalize as.length = n at hbegins
    match n with
    | 0 => exact absurd (List.cons_prefix_cons.mp hbegins).1 (by decide)
    | 1 => exact absurd (List.cons_prefix_cons.mp hbegins).1 (by decide)
    | 2 => exact hends.1 ((List.cons_prefix_cons.mp (List.cons_prefix_cons.mp hbegins).2).2)
    | 3 => exact hends.2 (List.cons_prefix_cons.mp hbegins).2
    | n + 4 =>
      rw [List.drop_of_length_le (Nat.le_add_left 4 n)] at hbegins
      exact hlater [] body rfl hbegins

/-- Inside a CDATA section its end does not begin. -/
theorem not_ends_cdata {body as bs : List Char} (hbody : ¬ "]]>".toList <:+: body)
    (hparts : "<![CDATA[".toList ++ body = as ++ bs) : ¬ [']', ']', '>'] <+: bs := by
  have hlater : ∀ as bs : List Char, body = as ++ bs → ¬ [']', ']', '>'] <+: bs := by
    rintro as _ rfl ⟨rest, rfl⟩
    exact hbody ⟨as, rest, by simp⟩
  rcases List.append_eq_append_iff.mp hparts with ⟨more, _, hbody⟩ | ⟨head, hopening, rfl⟩
  · exact hlater more bs hbody
  · cases head with
    | nil => exact hlater [] body rfl
    | cons c head =>
      refine not_begins_of_notMem (List.cons_ne_nil c head) fun hmem => ?_
      have hopened : ']' ∈ "<![CDATA[".toList := hopening ▸ List.mem_append_right as hmem
      exact absurd hopened (by decide)

theorem markupEnd_comment (t : List Char) : markupEnd ("<!--".toList ++ t) = "-->".toList := by
  rw [markupEnd, Text.dropHead?_append]
  rfl

theorem markupEnd_cdata (t : List Char) : markupEnd ("<![CDATA[".toList ++ t) = "]]>".toList := by
  have hcomment : Text.dropHead? "<!--".toList ("<![CDATA[".toList ++ t) = none := rfl
  rw [markupEnd, Text.dropHead?_append, hcomment]
  rfl

theorem markupEnd_tag {first : Char} (t : List Char) (h : first ≠ '!') :
    markupEnd ('<' :: first :: t) = ['>'] := by
  have hother : ∀ head : List Char,
      Text.dropHead? ('<' :: '!' :: head) ('<' :: first :: t) = none := by
    intro head
    rw [Text.dropHead?, if_pos rfl, Text.dropHead?, if_neg h.symm]
  have hcomment : Text.dropHead? "<!--".toList ('<' :: first :: t) = none := hother ['-', '-']
  have hcdata : Text.dropHead? "<![CDATA[".toList ('<' :: first :: t) = none :=
    hother "[CDATA[".toList
  rw [markupEnd, hcomment, hcdata]
  rfl

theorem afterMarkup_of_splitAt? {cs rest : List Char} (used : List Char)
    (h : Text.splitAt? (markupEnd cs) cs = some (used, rest)) : afterMarkup cs = rest := by
  rw [afterMarkup, h]

/-- **A piece of markup is passed over whole**, unless what ends it is in it before. -/
theorem afterMarkup_written {m : ContentPiece} (t : List Char) (hm : m.isMarkup = true)
    (hformed : m.WellFormed) (hends : m.EndsOnce) : afterMarkup (m.written ++ t) = t := by
  cases m with
  | data cs => cases hm
  | comment body =>
    have hwritten : (ContentPiece.comment body).written ++ t =
        ("<!--".toList ++ body) ++ ("-->".toList ++ t) := List.append_assoc _ _ _
    refine afterMarkup_of_splitAt? ("<!--".toList ++ body) ?_
    rw [hwritten, List.append_assoc "<!--".toList, markupEnd_comment, ← List.append_assoc]
    exact Text.splitAt?_of_first t fun as bs hparts hne =>
      not_begins_twice (by decide) t hne (not_ends_comment hformed hends hparts)
  | cdata body =>
    have hwritten : (ContentPiece.cdata body).written ++ t =
        ("<![CDATA[".toList ++ body) ++ ("]]>".toList ++ t) := List.append_assoc _ _ _
    refine afterMarkup_of_splitAt? ("<![CDATA[".toList ++ body) ?_
    rw [hwritten, List.append_assoc "<![CDATA[".toList, markupEnd_cdata, ← List.append_assoc]
    exact Text.splitAt?_of_first t fun as bs hparts hne =>
      not_begins_twice (by decide) t hne (not_ends_cdata hformed hparts)
  | tag first parts =>
    obtain ⟨hfirst, _⟩ := hformed
    have hinner : '>' ∉ '<' :: first :: parts.flatMap TagPart.written := by
      intro hmem
      rcases List.mem_cons.mp hmem with hmem | hmem
      · exact absurd hmem (by decide)
      · rcases List.mem_cons.mp hmem with rfl | hmem
        · exact hfirst (by decide)
        · obtain ⟨p, hp, hmem⟩ := List.mem_flatMap.mp hmem
          exact hends p hp hmem
    have hbang : first ≠ '!' := fun h => hfirst (by rw [h]; decide)
    have hwritten : (ContentPiece.tag first parts).written ++ t =
        ('<' :: first :: parts.flatMap TagPart.written) ++ (['>'] ++ t) := List.append_assoc _ _ _
    have hend : markupEnd (('<' :: first :: parts.flatMap TagPart.written) ++ (['>'] ++ t)) = ['>'] :=
      markupEnd_tag _ hbang
    refine afterMarkup_of_splitAt? ('<' :: first :: parts.flatMap TagPart.written) ?_
    rw [hwritten, hend]
    refine Text.splitAt?_of_first t fun as bs hparts hne => not_begins_of_notMem hne fun hmem => ?_
    exact hinner (hparts ▸ List.mem_append_right as hmem)

/-- Before markup the scan is in the middle of nothing, or of an escape. -/
theorem resume_pastMarkup {s : DataState} {offset : Nat} (t : List Char)
    (hs : s.mode.EndsAt offset) (hescape : s.inEscape = false) :
    s.pastMarkup = ⟨s.quoted, .text⟩ ∧
      s.resume offset ('<' :: t) = findFrom s.quoted offset ('<' :: t) := by
  obtain ⟨quoted, mode⟩ := s
  cases mode with
  | text => exact ⟨rfl, rfl⟩
  | escape start => cases hescape
  | unicode start stop digits => cases hescape
  | entity start name =>
    obtain ⟨rfl, hname⟩ := hs
    have hnone : ∀ whole : List Char, '<' ∉ whole → whole.length = 5 →
        Text.dropHead? whole (name ++ '<' :: t) = none := by
      intro whole hwhole hlength
      refine Text.dropHead?_eq_none_of_notMem hwhole (fun hbegins => ?_) t
      have hle := hbegins.length_le
      have hlt := hname.1
      omega
    exact ⟨rfl, findFrom_noEntity quoted start hname (hnone quoteName (by decide) rfl)
      (hnone apostropheName (by decide) rfl)⟩

/-- Each piece of markup begins with `<`. -/
theorem ContentPiece.exists_written {m : ContentPiece} (hm : m.isMarkup = true) :
    ∃ used, m.written = '<' :: used := by
  cases m with
  | data cs => cases hm
  | comment body => exact ⟨_, rfl⟩
  | cdata body => exact ⟨_, rfl⟩
  | tag first parts => exact ⟨_, rfl⟩

/-- **One piece of markup: the scan comes out behind it with the state of the reader.** -/
theorem resume_markup {s : DataState} {offset : Nat} {m : ContentPiece} (t : List Char)
    (hs : s.mode.EndsAt offset) (hescape : s.inEscape = false) (hm : m.isMarkup = true)
    (hformed : m.WellFormed) (hends : m.EndsOnce) :
    s.pastMarkup = ⟨s.quoted, .text⟩ ∧
      s.resume offset (m.written ++ t) = findFrom s.quoted (offset + width m.written) t := by
  have hafter := afterMarkup_written t hm hformed hends
  obtain ⟨used, hused⟩ := ContentPiece.exists_written hm
  rw [hused] at hafter ⊢
  obtain ⟨htext, hresume⟩ := resume_pastMarkup (used ++ t) hs hescape
  exact ⟨htext, hresume.trans (findFrom_markup s.quoted offset t hafter)⟩

/-! ## 3. The scan of a content -/

/-- Whether no escape is in the middle where markup begins: a reader who comes there with no problem
    found does not expect more characters of an escape. -/
def escapesComplete (s : DataState) (offset : Nat) : List ContentPiece → Bool
  | [] => true
  | .data cs :: ps =>
    match s.read offset cs with
    | .error _ => true
    | .ok s' => escapesComplete s' (offset + width cs) ps
  | p :: ps => !s.inEscape && escapesComplete s.pastMarkup (offset + width p.written) ps

theorem readPieces_markup {m : ContentPiece} (hm : m.isMarkup = true) (s : DataState) (offset : Nat)
    (ps : List ContentPiece) : s.readPieces offset (m :: ps) =
      s.pastMarkup.readPieces (offset + width m.written) ps := by
  cases m with
  | data cs => cases hm
  | comment body | cdata body | tag first parts => rw [DataState.readPieces]; simp

theorem escapesComplete_markup {m : ContentPiece} (hm : m.isMarkup = true) (s : DataState)
    (offset : Nat) (ps : List ContentPiece) : escapesComplete s offset (m :: ps) =
      (!s.inEscape && escapesComplete s.pastMarkup (offset + width m.written) ps) := by
  cases m with
  | data cs => cases hm
  | comment body | cdata body | tag first parts => rw [escapesComplete]; simp

/-- The condition on a whole content is one on its first pieces, and on the others from the state
    that the first ones lead to. -/
theorem escapesComplete_append {s : DataState} {offset : Nat} {as bs : List ContentPiece}
    (h : escapesComplete s offset (as ++ bs) = true) :
    escapesComplete s offset as = true ∧ ∀ s', s.readPieces offset as = .ok s' →
      escapesComplete s' (offset + width (writtenPieces as)) bs = true := by
  induction as generalizing s offset with
  | nil =>
    refine ⟨rfl, fun s' hs' => ?_⟩
    cases hs'
    exact h
  | cons p as ih =>
    rw [List.cons_append] at h
    rw [writtenPieces, List.flatMap_cons, Text.width_append, ← Nat.add_assoc]
    cases hmarkup : p.isMarkup with
    | true =>
      rw [escapesComplete_markup hmarkup, Bool.and_eq_true] at h ⊢
      rw [readPieces_markup hmarkup]
      obtain ⟨hfirst, hrest⟩ := ih h.2
      exact ⟨⟨h.1, hfirst⟩, hrest⟩
    | false =>
      cases p with
      | data cs =>
        rw [escapesComplete] at h ⊢
        rw [DataState.readPieces]
        cases hread : s.read offset cs with
        | error found => exact ⟨rfl, fun s' hs' => by cases hs'⟩
        | ok s₁ =>
          rw [hread] at h
          exact ih h
      | comment body => cases hmarkup
      | cdata body => cases hmarkup
      | tag first parts => cases hmarkup

/-- **The scan of a content does what the reader of its character data does.** -/
theorem follows_readPieces {s : DataState} {offset : Nat} {ps : List ContentPiece} (t : List Char)
    (hs : s.mode.EndsAt offset) (hformed : ∀ p ∈ ps, p.WellFormed)
    (hends : ∀ p ∈ ps, p.EndsOnce) (hescapes : escapesComplete s offset ps = true) :
    s.Follows offset (writtenPieces ps) t (s.readPieces offset ps) := by
  induction ps generalizing s offset with
  | nil => exact ⟨hs, rfl⟩
  | cons p ps ih =>
    obtain ⟨hp, hformedRest⟩ := List.forall_mem_cons.mp hformed
    obtain ⟨hpends, hendsRest⟩ := List.forall_mem_cons.mp hends
    rw [writtenPieces, List.flatMap_cons]
    cases hmarkup : p.isMarkup with
    | true =>
      rw [readPieces_markup hmarkup]
      rw [escapesComplete_markup hmarkup, Bool.and_eq_true, Bool.not_eq_true'] at hescapes
      obtain ⟨hpast, hresume⟩ :=
        resume_markup (writtenPieces ps ++ t) hs hescapes.1 hmarkup hp hpends
      have htext : (⟨s.quoted, .text⟩ : DataState).mode.EndsAt (offset + width p.written) := trivial
      rw [hpast] at hescapes ⊢
      exact (ih htext hformedRest hendsRest hescapes.2).behind hresume
    | false =>
      cases p with
      | data cs =>
        have hread := follows_read (writtenPieces ps ++ t) hs hp
        rw [DataState.readPieces]
        rw [escapesComplete] at hescapes
        cases hresult : s.read offset cs with
        | error found =>
          rw [hresult] at hread
          show s.resume offset (cs ++ writtenPieces ps ++ t) = some found
          rw [List.append_assoc]
          exact hread
        | ok s₁ =>
          rw [hresult] at hread hescapes
          exact (ih hread.1 hformedRest hendsRest hescapes).behind hread.2
      | comment body => cases hmarkup
      | cdata body => cases hmarkup
      | tag first parts => cases hmarkup

theorem find?_eq_resume (raw : List Char) : find? raw = DataState.start.resume 0 raw := rfl

theorem endsAt_start : DataState.start.mode.EndsAt 0 := trivial

/-- A content is scanned with the result of the reader. -/
theorem find?_eq_findInData {ps : List ContentPiece} (hformed : ∀ p ∈ ps, p.WellFormed)
    (hends : ∀ p ∈ ps, p.EndsOnce) (hescapes : escapesComplete .start 0 ps = true) :
    find? (writtenPieces ps) = findInData ps := by
  have hfollows := follows_readPieces [] endsAt_start hformed hends hescapes
  rw [find?_eq_resume, findInData]
  cases hread : DataState.start.readPieces 0 ps with
  | error found =>
    rw [hread, DataState.Follows, List.append_nil] at hfollows
    exact hfollows
  | ok s =>
    rw [hread, DataState.Follows, List.append_nil] at hfollows
    exact hfollows.2.trans (resume_nil hfollows.1)

/-- Behind a piece of markup the scan goes on with the quotes as they were before it. -/
theorem find?_behind_markup {as bs : List ContentPiece} {m : ContentPiece} {s : DataState}
    (hformed : ∀ p ∈ as ++ m :: bs, p.WellFormed) (hends : ∀ p ∈ as ++ m :: bs, p.EndsOnce)
    (hescapes : escapesComplete .start 0 (as ++ m :: bs) = true) (hm : m.isMarkup = true)
    (hread : DataState.start.readPieces 0 as = .ok s) :
    find? (writtenPieces (as ++ m :: bs)) =
      findFrom s.quoted (width (writtenPieces (as ++ [m]))) (writtenPieces bs) := by
  obtain ⟨hfirst, hrest⟩ := escapesComplete_append hescapes
  rw [List.forall_mem_append, List.forall_mem_cons] at hformed hends
  have hopen := hrest s hread
  rw [escapesComplete_markup hm, Bool.and_eq_true, Bool.not_eq_true'] at hopen
  have hbefore := follows_readPieces (writtenPieces (m :: bs)) endsAt_start hformed.1 hends.1 hfirst
  rw [hread] at hbefore
  obtain ⟨hat, hbefore⟩ := hbefore
  obtain ⟨_, hbehind⟩ := resume_markup (writtenPieces bs) hat hopen.1 hm hformed.2.1 hends.2.1
  have hwidth : width (writtenPieces (as ++ [m])) =
      0 + width (writtenPieces as) + width m.written := by
    simp [writtenPieces]
  rw [find?_eq_resume, hwidth, ← hbehind, writtenPieces_append]
  exact hbefore

/-- What is found has its place before or behind any piece of markup. -/
theorem find?_outside_markup {as bs : List ContentPiece} {m : ContentPiece} {found : Finding}
    (hformed : ∀ p ∈ as ++ m :: bs, p.WellFormed) (hends : ∀ p ∈ as ++ m :: bs, p.EndsOnce)
    (hescapes : escapesComplete .start 0 (as ++ m :: bs) = true) (hm : m.isMarkup = true)
    (hfound : find? (writtenPieces (as ++ m :: bs)) = some found) :
    found.1.stop ≤ width (writtenPieces as) ∨
      width (writtenPieces (as ++ [m])) ≤ found.1.start := by
  cases hread : DataState.start.readPieces 0 as with
  | ok s =>
    rw [find?_behind_markup hformed hends hescapes hm hread] at hfound
    obtain ⟨r, _, hr⟩ := findFrom_lies hfound
    rw [hr]
    exact Or.inr (Nat.le_add_left _ _)
  | error early =>
    -- the reader stops before the markup, so the scan has no need of it
    have hfirst := (escapesComplete_append hescapes).1
    rw [List.forall_mem_append] at hformed hends
    have hearly : ∀ t, find? (writtenPieces as ++ t) = some early := by
      intro t
      have hfollows := follows_readPieces t endsAt_start hformed.1 hends.1 hfirst
      rw [hread] at hfollows
      exact hfollows
    have hsame : found = early := by
      rw [writtenPieces_append] at hfound
      exact Option.some.inj (hfound.symm.trans (hearly _))
    have hlies := findFrom_lies (hearly [])
    rw [List.append_nil] at hlies
    obtain ⟨r, hfits, hr⟩ := hlies
    rw [hsame, hr]
    exact Or.inl hfits.bounded

/-- **The scan for bad escapes looks at character data only.** In a content whose markup does not
    hold what looks like its end, and where no escape is in the middle when markup begins, it finds
    what a reader of the character data alone finds, who keeps quotes and escapes in mind over the
    markup. What it finds is not inside markup, and behind a piece of markup it goes on with the
    quotes as they were before it. -/
theorem find?_content {ps : List ContentPiece} (hformed : ∀ p ∈ ps, p.WellFormed)
    (hends : ∀ p ∈ ps, p.EndsOnce) (hescapes : escapesComplete .start 0 ps = true) :
    find? (writtenPieces ps) = findInData ps ∧
      ∀ as m bs, ps = as ++ m :: bs → m.isMarkup = true →
        (∀ found, find? (writtenPieces ps) = some found →
          found.1.stop ≤ width (writtenPieces as) ∨
            width (writtenPieces (as ++ [m])) ≤ found.1.start) ∧
        ∀ s, DataState.start.readPieces 0 as = .ok s → find? (writtenPieces ps) =
          findFrom s.quoted (width (writtenPieces (as ++ [m]))) (writtenPieces bs) := by
  refine ⟨find?_eq_findInData hformed hends hescapes, fun as m bs hps hm => ?_⟩
  subst hps
  exact ⟨fun found hfound => find?_outside_markup hformed hends hescapes hm hfound,
    fun s hread => find?_behind_markup hformed hends hescapes hm hread⟩

/-- A content with apostrophes in a value, in a comment, behind a backslash and between quotes, and
    one that is not escaped. -/
def mixedContent : List ContentPiece :=
  [.data "a".toList, .tag 'b' [.plain ' ', .plain 't', .plain '=', .quoted '"' "'".toList],
   .data "\\'\"'".toList, .comment " ' ".toList, .data "\"".toList, .tag '/' [.plain 'b'],
   .data "'".toList]

theorem find?_content_mixed : writtenPieces mixedContent =
      "a<b t=\"'\">\\'\"'<!-- ' -->\"</b>'".toList ∧
    find? (writtenPieces mixedContent) = some (⟨29, 30⟩, .apostrophe) := by
  refine ⟨by decide, ?_⟩
  rw [(find?_content (by decide) (by decide) (by decide)).1]
  decide

/-- A tag with a `>` and an apostrophe in a value. -/
def misleadingValue : List ContentPiece :=
  [.tag 'b' [.plain ' ', .plain 't', .plain '=', .quoted '"' ">'".toList], .data "z".toList]

/-- A tag with a `>` in a value, and an apostrophe behind it. -/
def unbalancedValue : List ContentPiece :=
  [.tag 'b' [.plain ' ', .plain 't', .plain '=', .quoted '"' ">".toList], .data "'".toList]

/-- A comment that begins with `>` and holds an apostrophe. -/
def misleadingComment : List ContentPiece := [.comment ">'".toList, .data "z".toList]

/-- A backslash before a tag with apostrophes around a value. -/
def misleadingEscape : List ContentPiece :=
  [.data "\\".toList, .tag 'b' [.plain ' ', .plain 't', .plain '=', .quoted '\'' "x".toList],
   .data "z".toList]

theorem findFrom_apostrophe_behind (offset : Nat) {front : List Char} (t : List Char)
    (h : ∀ c ∈ front, isPlain c = true) :
    findFrom false offset (front ++ '\'' :: t) =
      some (⟨offset + width front, offset + width front + 1⟩, .apostrophe) := by
  rw [findFrom_plain_append false offset _ h, findFrom, if_neg (by decide)]

/-- **Markup can be taken for character data**, in a tag and in a comment that hold what looks like
    their end, and behind a backslash: an apostrophe inside the markup is reported, although there is
    none in the character data. And a quote that is left of a tag hides an apostrophe behind it. -/
theorem find?_misled :
    (∀ ps ∈ [misleadingValue, unbalancedValue, misleadingComment, misleadingEscape],
      ∀ p ∈ ps, p.WellFormed) ∧
    (findInData misleadingValue = none ∧
      find? (writtenPieces misleadingValue) = some (⟨7, 8⟩, .apostrophe) ∧
      8 < width (writtenPieces (misleadingValue.take 1))) ∧
    (findInData unbalancedValue = some (⟨9, 10⟩, .apostrophe) ∧
      find? (writtenPieces unbalancedValue) = none) ∧
    (findInData misleadingComment = none ∧
      find? (writtenPieces misleadingComment) = some (⟨5, 6⟩, .apostrophe) ∧
      6 < width (writtenPieces (misleadingComment.take 1))) ∧
    (findInData misleadingEscape = none ∧
      find? (writtenPieces misleadingEscape) = some (⟨6, 7⟩, .apostrophe) ∧
      7 < width (writtenPieces (misleadingEscape.take 2))) := by
  refine ⟨by decide, ⟨by decide, ?_, by decide⟩, ⟨by decide, ?_⟩, ⟨by decide, ?_, by decide⟩,
    ⟨by decide, ?_, by decide⟩⟩
  · have hafter : afterMarkup ('<' :: "b t=\">".toList ++ "'\">z".toList) = "'\">z".toList := rfl
    have hpass : find? (writtenPieces misleadingValue) = findFrom false 7 "'\">z".toList :=
      findFrom_markup false 0 _ hafter
    exact hpass.trans (findFrom_apostrophe_behind 7 "\">z".toList (List.forall_mem_nil _))
  · have hafter : afterMarkup ('<' :: "b t=\">".toList ++ "\">'".toList) = "\">'".toList := rfl
    have hpass : find? (writtenPieces unbalancedValue) = findFrom false 7 "\">'".toList :=
      findFrom_markup false 0 _ hafter
    have hquote : findFrom false 7 "\">'".toList = findFrom true 9 ['\''] :=
      (findFrom_quote false 7 _).trans (findFrom_plain true 8 _ rfl)
    rw [hpass, hquote, findFrom, if_pos rfl, findFrom]
  · have hafter : afterMarkup ('<' :: "!-->".toList ++ "'-->z".toList) = "'-->z".toList := rfl
    have hpass : find? (writtenPieces misleadingComment) = findFrom false 5 "'-->z".toList :=
      findFrom_markup false 0 _ hafter
    exact hpass.trans (findFrom_apostrophe_behind 5 "-->z".toList (List.forall_mem_nil _))
  · have hpass : find? (writtenPieces misleadingEscape) =
        findFrom false 2 ("b t=".toList ++ '\'' :: "x'>z".toList) :=
      findFrom_escape false 0 _ (by decide)
    exact hpass.trans (findFrom_apostrophe_behind 2 "x'>z".toList (List.all_eq_true.mp (by decide)))

end AndroidLint.Check.EscapeProblem
