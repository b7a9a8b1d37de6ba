/-
  File:      AndroidLint/Proofs/CharacterData.lean
  Subject:   A machine that looks for bad escapes in character data, one character at a time.

  The scan for bad escapes looks ahead: at a backslash for the characters behind it, at an `&` for the
  name of an entity. The machine has a state instead (`DataState`), which says what it is in the middle
  of, so it can stop after any character and go on elsewhere:

  * `follows_next`:   one character takes the machine and the scan to the same place;
  * `follows_read`:   so do any number of them;
  * `resume_nil`:     and at the end of the text they find the same.
-/
import AndroidLint.Proofs.EscapeFixes

namespace AndroidLint.Check.EscapeProblem

open Text (width)

/-! ## 1. A machine that reads character data -/

/-- A problem and where it is. -/
abbrev Finding := ByteRange × EscapeProblem

/-- What a reader of character data is in the middle of. -/
inductive Mode where
  | text
  /-- Behind a backslash. -/
  | escape (start : Nat)
  /-- Behind `\u` and less than four characters, the last of which ends at `stop`. -/
  | unicode (start stop : Nat) (digits : List Char)
  /-- Behind `&` and the beginning of a name. -/
  | entity (start : Nat) (name : List Char)

/-- The state of a reader of character data. -/
structure DataState where
  /-- Whether it is between double quotes. -/
  quoted : Bool
  mode : Mode

/-- The names of entities that stand for quotes, with the semicolon. -/
def quoteName : List Char := "quot;".toList

/-- The names of entities that stand for apostrophes, with the semicolon. -/
def apostropheName : List Char := "apos;".toList

namespace DataState

/-- The state at the beginning of a content. -/
def start : DataState := ⟨false, .text⟩

/-- One character in the middle of nothing. -/
def nextText (quoted : Bool) (offset : Nat) (c : Char) : Except Finding DataState :=
  if c = '\\' then .ok ⟨quoted, .escape offset⟩
  else if c = '"' then .ok ⟨!quoted, .text⟩
  else if c = '&' then .ok ⟨quoted, .entity offset []⟩
  else if c = '\'' ∧ quoted = false then .error (⟨offset, offset + 1⟩, .apostrophe)
  else .ok ⟨quoted, .text⟩

/-- The state after one more character, which begins at an offset, or the problem that it
    completes. -/
def next (s : DataState) (offset : Nat) (c : Char) : Except Finding DataState :=
  match s.mode with
  | .text => nextText s.quoted offset c
  | .escape start =>
    .ok ⟨s.quoted, if c = 'u' then .unicode start (offset + c.utf8Size) [] else .text⟩
  | .unicode start _ digits =>
    let digits := digits ++ [c]
    if digits.length < 4 then .ok ⟨s.quoted, .unicode start (offset + c.utf8Size) digits⟩
    else if fourHexDigits digits then .ok ⟨s.quoted, .text⟩
    else .error (⟨start, offset + c.utf8Size⟩, .unicodeEscape)
  | .entity start name =>
    let name := name ++ [c]
    if name = quoteName then .ok ⟨!s.quoted, .text⟩
    else if name = apostropheName then
      if s.quoted then .ok ⟨s.quoted, .text⟩ else .error (⟨start, offset + 1⟩, .apostrophe)
    else if name <+: quoteName ∨ name <+: apostropheName then .ok ⟨s.quoted, .entity start name⟩
    else nextText s.quoted offset c

/-- The state behind a piece of markup. An entity does not go on there, an escape does. -/
def pastMarkup (s : DataState) : DataState :=
  match s.mode with
  | .entity .. => ⟨s.quoted, .text⟩
  | _ => s

/-- The problem that is there when nothing follows: an escape with too few digits. -/
def atEnd (s : DataState) : Option Finding :=
  match s.mode with
  | .unicode start stop _ => some (⟨start, stop⟩, .unicodeEscape)
  | _ => none

/-- Whether an escape has begun and is not complete. -/
def inEscape (s : DataState) : Bool :=
  match s.mode with
  | .escape _ | .unicode .. => true
  | _ => false

/-- The state after some characters that begin at an offset. -/
def read (s : DataState) (offset : Nat) : List Char → Except Finding DataState
  | [] => .ok s
  | c :: cs => do (← s.next offset c).read (offset + c.utf8Size) cs

end DataState

/-! ## 2. The scan on character data -/

/-- Characters at which the scan does nothing but go on. -/
def isPlain (c : Char) : Bool := !(['<', '\\', '"', '&', '\''].contains c)

theorem findFrom_plain (quoted : Bool) (offset : Nat) {c : Char} (t : List Char)
    (hc : isPlain c = true) :
    findFrom quoted offset (c :: t) = findFrom quoted (offset + c.utf8Size) t := by
  have hne : c ≠ '<' ∧ c ≠ '\\' ∧ c ≠ '"' ∧ c ≠ '&' ∧ c ≠ '\'' := by simpa [isPlain] using hc
  rw [findFrom]
  · exact hne.1
  · exact hne.2.1
  · exact hne.2.2.1
  · exact hne.2.2.2.1
  · exact hne.2.2.2.2

theorem findFrom_plain_append (quoted : Bool) (offset : Nat) {cs : List Char} (t : List Char)
    (hcs : ∀ c ∈ cs, isPlain c = true) :
    findFrom quoted offset (cs ++ t) = findFrom quoted (offset + width cs) t := by
  induction cs generalizing offset with
  | nil => rfl
  | cons c cs ih =>
    obtain ⟨hc, hcs⟩ := List.forall_mem_cons.mp hcs
    rw [List.cons_append, findFrom_plain quoted offset _ hc, ih _ hcs, Text.width_cons,
      Nat.add_assoc]

theorem findFrom_badUnicode (quoted : Bool) (offset : Nat) {cs : List Char}
    (h : fourHexDigits cs = false) :
    findFrom quoted offset ('\\' :: 'u' :: cs) =
      some (⟨offset, offset + 2 + width (cs.take 4)⟩, .unicodeEscape) := by
  rw [findFrom, if_pos rfl, if_neg (Bool.eq_false_iff.mp h)]

namespace Mode

/-- The characters that have been read since the mode was entered. -/
def held : Mode → List Char
  | text => []
  | escape _ => ['\\']
  | unicode _ _ digits => '\\' :: 'u' :: digits
  | entity _ name => '&' :: name

/-- Where the characters begin that have been read since the mode was entered; here, if there are
    none. -/
def origin (here : Nat) : Mode → Nat
  | text => here
  | escape start | unicode start _ _ | entity start _ => start

/-- The beginning of a name of an entity for a quote or an apostrophe, and not the whole name. -/
def IsNameStart (name : List Char) : Prop :=
  name.length < 5 ∧ (name <+: quoteName ∨ name <+: apostropheName)

/-- The characters that have been read since the mode was entered stand right before an offset, and
    they are not enough to leave it. -/
def EndsAt (here : Nat) : Mode → Prop
  | text => True
  | escape start => start + 1 = here
  | unicode start stop digits => start + 2 + width digits = here ∧ stop = here ∧ digits.length < 4
  | entity start name => start + 1 + width name = here ∧ IsNameStart name

end Mode

namespace DataState

/-- What the scan finds that has come to an offset with a state of the reader. -/
def resume (s : DataState) (offset : Nat) (t : List Char) : Option Finding :=
  findFrom s.quoted (s.mode.origin offset) (s.mode.held ++ t)

/-- What the reader says of the next characters is what the scan does there: it reports the problem,
    or goes on with the new state. -/
def Follows (s : DataState) (offset : Nat) (cs t : List Char) :
    Except Finding DataState → Prop
  | .error found => s.resume offset (cs ++ t) = some found
  | .ok s' => s'.mode.EndsAt (offset + width cs) ∧
      s.resume offset (cs ++ t) = s'.resume (offset + width cs) t

theorem Follows.of_resume_eq {s s₀ : DataState} {offset : Nat} {cs t : List Char}
    {result : Except Finding DataState} (h : s₀.Follows offset cs t result)
    (hresume : s.resume offset (cs ++ t) = s₀.resume offset (cs ++ t)) :
    s.Follows offset cs t result := by
  cases result with
  | error found => exact hresume.trans h
  | ok s' => exact ⟨h.1, hresume.trans h.2⟩

/-- More characters in front, which lead to another state. -/
theorem Follows.behind {s s₁ : DataState} {offset : Nat} {used cs t : List Char}
    {result : Except Finding DataState} (h : s₁.Follows (offset + width used) cs t result)
    (hresume : s.resume offset (used ++ (cs ++ t)) = s₁.resume (offset + width used) (cs ++ t)) :
    s.Follows offset (used ++ cs) t result := by
  cases result with
  | error found =>
    rw [Follows, List.append_assoc]
    exact hresume.trans h
  | ok s' =>
    rw [Follows, Nat.add_assoc, ← Text.width_append] at h
    rw [Follows, List.append_assoc]
    exact ⟨h.1, hresume.trans h.2⟩

end DataState

/-- One character in the middle of nothing. -/
theorem follows_nextText (quoted : Bool) (offset : Nat) {c : Char} (t : List Char) (hc : c ≠ '<') :
    DataState.Follows ⟨quoted, .text⟩ offset [c] t (DataState.nextText quoted offset c) := by
  unfold DataState.nextText
  split
  · next hback =>
    subst hback
    exact ⟨rfl, rfl⟩
  · next hback =>
    split
    · next hquote =>
      subst hquote
      exact ⟨trivial, findFrom_quote quoted offset t⟩
    · next hquote =>
      split
      · next hamp =>
        subst hamp
        exact ⟨⟨rfl, by decide, Or.inl (List.nil_prefix)⟩, rfl⟩
      · next hamp =>
        split
        · next hapostrophe =>
          obtain ⟨rfl, rfl⟩ := hapostrophe
          show findFrom false offset ('\'' :: t) = _
          rw [findFrom, if_neg (by decide)]
        · next hapostrophe =>
          refine ⟨trivial, ?_⟩
          show findFrom quoted offset (c :: t) = findFrom quoted (offset + (c.utf8Size + 0)) t
          by_cases hquoted : c = '\''
          · subst hquoted
            have hquoted : quoted = true := by simpa using hapostrophe
            rw [findFrom, if_pos hquoted]
            rfl
          · refine findFrom_plain quoted offset t ?_
            simp [isPlain, hc, hback, hquote, hamp, hquoted]

/-- One character behind a backslash. -/
theorem follows_escape (quoted : Bool) {start offset : Nat} (c : Char) (t : List Char)
    (h : start + 1 = offset) :
    DataState.Follows ⟨quoted, .escape start⟩ offset [c] t
      (DataState.next ⟨quoted, .escape start⟩ offset c) := by
  subst h
  show Mode.EndsAt _ (if c = 'u' then _ else _) ∧ _ = DataState.resume ⟨_, if c = 'u' then _ else _⟩ _ _
  split
  · next hu =>
    subst hu
    exact ⟨⟨rfl, rfl, by decide⟩, rfl⟩
  · next hu => exact ⟨trivial, findFrom_escape quoted start t hu⟩

/-- One of the four characters behind `\u`. -/
theorem follows_unicode (quoted : Bool) {start stop offset : Nat} {digits : List Char} (c : Char)
    (t : List Char) (hoffset : start + 2 + width digits = offset) (hlength : digits.length < 4) :
    DataState.Follows ⟨quoted, .unicode start stop digits⟩ offset [c] t
      (DataState.next ⟨quoted, .unicode start stop digits⟩ offset c) := by
  have hresume : DataState.resume ⟨quoted, .unicode start stop digits⟩ offset ([c] ++ t) =
      findFrom quoted start ('\\' :: 'u' :: (digits ++ [c] ++ t)) :=
    congrArg (findFrom quoted start) (by simp [Mode.held])
  have hstop : offset + c.utf8Size = start + 2 + width (digits ++ [c]) := by
    rw [Text.width_append, ← hoffset, Nat.add_assoc]
    rfl
  show DataState.Follows _ _ _ _
    (if (digits ++ [c]).length < 4 then _ else if fourHexDigits (digits ++ [c]) then _ else _)
  split
  · next hmore => exact ⟨⟨hstop.symm, rfl, hmore⟩, hresume⟩
  · next hfull =>
    have hfour : (digits ++ [c]).length = 4 := by
      rw [List.length_append] at hfull ⊢
      simp only [List.length_singleton] at hfull ⊢
      omega
    have htake : (digits ++ [c]).take 4 = digits ++ [c] := List.take_of_length_le (Nat.le_of_eq hfour)
    split
    · next hgood =>
      have hwidth := width_of_fourHexDigits hgood
      have hscan := findFrom_unicode quoted start t hgood
      rw [htake] at hwidth hscan
      refine ⟨trivial, hresume.trans ?_⟩
      show _ = findFrom quoted (offset + c.utf8Size) t
      rw [hscan, hstop, hwidth]
    · next hbad =>
      have hfront : (digits ++ [c] ++ t).take 4 = digits ++ [c] := List.take_left' hfour
      have hbad : fourHexDigits (digits ++ [c] ++ t) = false := by
        rw [← Bool.not_eq_true, fourHexDigits, hfront, ← htake]
        exact hbad
      refine hresume.trans ?_
      rw [findFrom_badUnicode quoted start hbad, hfront, hstop]

/-- The names of the entities are made of letters and a semicolon. -/
theorem plain_of_isNameStart {name : List Char} (h : Mode.IsNameStart name) :
    ∀ c ∈ name, isPlain c = true := by
  have hquote : quoteName.all isPlain = true := by decide
  have hapostrophe : apostropheName.all isPlain = true := by decide
  intro c hc
  rcases h.2 with h | h
  · exact List.all_eq_true.mp hquote c (h.subset hc)
  · exact List.all_eq_true.mp hapostrophe c (h.subset hc)

/-- What begins with an incomplete name and goes on otherwise is no entity. -/
theorem dropHead?_of_not_begins {whole name : List Char} {c : Char} {t : List Char}
    (hlength : name.length < whole.length) (h : ¬ name ++ [c] <+: whole) :
    Text.dropHead? whole (name ++ c :: t) = none := by
  rw [← Option.not_isSome_iff_eq_none, Text.dropHead?_isSome_iff]
  intro hwhole
  refine h (List.prefix_of_prefix_length_le ⟨t, by simp⟩ hwhole ?_)
  rw [List.length_append]
  exact hlength

/-- The beginning of a name that does not become one is passed over. -/
theorem findFrom_noEntity (quoted : Bool) (start : Nat) {name t : List Char}
    (hname : Mode.IsNameStart name) (hquote : Text.dropHead? quoteName (name ++ t) = none)
    (hapostrophe : Text.dropHead? apostropheName (name ++ t) = none) :
    findFrom quoted start ('&' :: name ++ t) = findFrom quoted (start + 1 + width name) t := by
  rw [List.cons_append, findFrom_ampersand quoted start _ hquote hapostrophe,
    findFrom_plain_append quoted _ t (plain_of_isNameStart hname)]

/-- One character of the name of an entity. -/
theorem follows_entity (quoted : Bool) {start offset : Nat} {name : List Char} {c : Char}
    (t : List Char) (hc : c ≠ '<') (hoffset : start + 1 + width name = offset)
    (hname : Mode.IsNameStart name) :
    DataState.Follows ⟨quoted, .entity start name⟩ offset [c] t
      (DataState.next ⟨quoted, .entity start name⟩ offset c) := by
  have hresume : DataState.resume ⟨quoted, .entity start name⟩ offset ([c] ++ t) =
      findFrom quoted start ('&' :: (name ++ [c] ++ t)) :=
    congrArg (findFrom quoted start) (by simp [Mode.held])
  have hstop : offset + c.utf8Size = start + 1 + width (name ++ [c]) := by
    rw [Text.width_append, ← hoffset, Nat.add_assoc]
    rfl
  show DataState.Follows _ _ _ _
    (if name ++ [c] = quoteName then _ else if name ++ [c] = apostropheName then _
      else if name ++ [c] <+: quoteName ∨ name ++ [c] <+: apostropheName then _ else _)
  split
  · next hquote =>
    refine ⟨trivial, hresume.trans ?_⟩
    show _ = findFrom (!quoted) (offset + c.utf8Size) t
    rw [hstop, hquote]
    exact findFrom_quoteEntity quoted start t
  · next hquote =>
    split
    · next hapostrophe =>
      rw [hapostrophe] at hresume hstop
      have hscan := hresume.trans (findFrom_apostropheEntity quoted start t)
      have hsize : c.utf8Size = 1 := by
        have hlast := congrArg List.getLast? hapostrophe
        rw [List.getLast?_append] at hlast
        rw [show c = ';' from Option.some.inj hlast]
        rfl
      have hsix : offset + 1 = start + 6 := hsize ▸ hstop
      show DataState.Follows _ _ _ _ (if quoted = true then _ else _)
      split
      · next hquoted =>
        rw [if_pos hquoted, ← hsix, ← hsize] at hscan
        exact ⟨trivial, hscan⟩
      · next hquoted =>
        rw [if_neg hquoted, ← hsix] at hscan
        exact hscan
    · next hapostrophe =>
      split
      · next hbegins =>
        refine ⟨⟨hstop.symm, ?_, hbegins⟩, hresume⟩
        rcases hbegins with hbegins | hbegins
        · exact Nat.lt_of_le_of_ne hbegins.length_le fun h => hquote (hbegins.eq_of_length h)
        · exact Nat.lt_of_le_of_ne hbegins.length_le fun h => hapostrophe (hbegins.eq_of_length h)
      · next hbegins =>
        obtain ⟨hquote, hapostrophe⟩ := not_or.mp hbegins
        refine (follows_nextText quoted offset t hc).of_resume_eq ?_
        show findFrom quoted start ('&' :: name ++ c :: t) = findFrom quoted offset (c :: t)
        rw [← hoffset]
        exact findFrom_noEntity quoted start hname (dropHead?_of_not_begins hname.1 hquote)
          (dropHead?_of_not_begins hname.1 hapostrophe)

/-- **One character of character data: the scan does what the reader does.** -/
theorem follows_next {s : DataState} {offset : Nat} {c : Char} (t : List Char)
    (hs : s.mode.EndsAt offset) (hc : c ≠ '<') : s.Follows offset [c] t (s.next offset c) := by
  obtain ⟨quoted, mode⟩ := s
  cases mode with
  | text => exact follows_nextText quoted offset t hc
  | escape start => exact follows_escape quoted c t hs
  | unicode start stop digits => exact follows_unicode quoted c t hs.1 hs.2.2
  | entity start name => exact follows_entity quoted t hc hs.1 hs.2

/-- **Any number of them.** -/
theorem follows_read {s : DataState} {offset : Nat} {cs : List Char} (t : List Char)
    (hs : s.mode.EndsAt offset) (hcs : '<' ∉ cs) : s.Follows offset cs t (s.read offset cs) := by
  induction cs generalizing s offset with
  | nil => exact ⟨hs, rfl⟩
  | cons c cs ih =>
    have hc : c ≠ '<' := (List.ne_of_not_mem_cons hcs).symm
    have hfirst := follows_next (cs ++ t) hs hc
    rw [DataState.read]
    cases hnext : s.next offset c with
    | error found =>
      rw [hnext] at hfirst
      exact hfirst
    | ok s' =>
      rw [hnext] at hfirst
      obtain ⟨hends, hresume⟩ := hfirst
      exact (ih hends (List.not_mem_of_not_mem_cons hcs)).behind hresume

/-- What is in the middle of something when nothing follows is a problem for the scan as for the
    reader. -/
theorem resume_nil {s : DataState} {offset : Nat} (hs : s.mode.EndsAt offset) :
    s.resume offset [] = s.atEnd := by
  obtain ⟨quoted, mode⟩ := s
  cases mode with
  | text =>
    show findFrom quoted offset [] = none
    rw [findFrom]
  | escape start =>
    show findFrom quoted start ['\\'] = none
    rw [findFrom]
  | unicode start stop digits =>
    obtain ⟨hoffset, hstop, hlength⟩ := hs
    have hbad : fourHexDigits (digits ++ []) = false := by
      rw [List.append_nil, fourHexDigits, List.take_of_length_le (Nat.le_of_lt hlength)]
      simp [Nat.ne_of_lt hlength]
    show findFrom quoted start ('\\' :: 'u' :: (digits ++ [])) = some (⟨start, stop⟩, .unicodeEscape)
    rw [findFrom_badUnicode quoted start hbad, List.append_nil,
      List.take_of_length_le (Nat.le_of_lt hlength), hoffset, hstop]
  | entity start name =>
    obtain ⟨_, hname⟩ := hs
    have hnone : ∀ whole : List Char, whole.length = 5 →
        Text.dropHead? whole (name ++ []) = none := by
      intro whole hwhole
      rw [← Option.not_isSome_iff_eq_none, Text.dropHead?_isSome_iff, List.append_nil]
      intro hbegins
      have hle := hbegins.length_le
      have hlt := hname.1
      omega
    show findFrom quoted start ('&' :: name ++ []) = none
    rw [findFrom_noEntity quoted start hname (hnone quoteName rfl) (hnone apostropheName rfl),
      findFrom]

end AndroidLint.Check.EscapeProblem
