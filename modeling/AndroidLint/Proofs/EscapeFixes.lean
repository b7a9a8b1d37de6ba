/-
  File:      AndroidLint/Proofs/EscapeFixes.lean
  Subject:   Escaping the apostrophes of a content, one after the other.

  The scan for bad escapes keeps in mind whether it is between double quotes, and at markup, entities
  and escapes it looks ahead. A correction puts a backslash and an apostrophe in place of the
  apostrophe that is found. No look-ahead before this place reaches up to it, and the scan leaves it as
  it came there, outside of quotes:

  * `exists_apostropheAt`:    up to the apostrophe the scan does not depend on what follows;
  * `transparent_escaped`:    what follows the correction is scanned as if it stood alone;
  * `find?_escapeFirst`:      one correction, and any number of them.
-/
import Mathlib.Logic.Function.Iterate
import AndroidLint.Proofs.FixRanges

namespace AndroidLint.Check.EscapeProblem

open Text (width)

/-! ## 1. Markup -/

theorem close_mem_markupEnd (cs : List Char) : '>' ∈ markupEnd cs := by
  unfold markupEnd
  split
  · decide
  · split <;> decide

/-- How a piece of markup ends does not depend on what follows its first `>`. -/
theorem markupEnd_behind {used : List Char} (h : '>' ∈ used) (rest rest' : List Char) :
    markupEnd (used ++ rest) = markupEnd (used ++ rest') := by
  have hbegins : ∀ head : List Char, '>' ∉ head →
      (Text.dropHead? head (used ++ rest)).isSome =
        (Text.dropHead? head (used ++ rest')).isSome := by
    intro head hhead
    obtain ⟨front, back, rfl⟩ := List.append_of_mem h
    have hfront : ∀ t, head <+: front ++ '>' :: back ++ t ↔ head <+: front := by
      intro t
      rw [List.append_assoc, List.cons_append]
      exact ⟨Text.begins_of_begins_cons hhead, List.prefix_append_of_prefix⟩
    rw [Bool.eq_iff_iff, Text.dropHead?_isSome_iff, Text.dropHead?_isSome_iff, hfront, hfront]
  unfold markupEnd
  rw [hbegins "<!--".toList (by decide), hbegins "<![CDATA[".toList (by decide)]

/-- A piece of markup that does not run up to the end of the text is the same before any text. -/
theorem exists_markup {cs : List Char} (h : afterMarkup ('<' :: cs) ≠ []) :
    ∃ used, '<' :: cs = '<' :: used ++ afterMarkup ('<' :: cs) ∧
      ∀ t, afterMarkup ('<' :: used ++ t) = t := by
  obtain ⟨used, hcs, hused⟩ : ∃ used, '<' :: cs = used ++ afterMarkup ('<' :: cs) ∧
      ∀ t, afterMarkup (used ++ t) = t := by
    cases hsplit : Text.splitAt? (markupEnd ('<' :: cs)) ('<' :: cs) with
    | none =>
      rw [afterMarkup, hsplit] at h
      exact absurd rfl h
    | some found =>
      obtain ⟨front, rest⟩ := found
      have hrest : afterMarkup ('<' :: cs) = rest := by rw [afterMarkup, hsplit]
      have hparts := Text.eq_append_of_splitAt? hsplit
      refine ⟨front ++ markupEnd ('<' :: cs), by rw [hrest]; exact hparts, fun t => ?_⟩
      have hclose : '>' ∈ front ++ markupEnd ('<' :: cs) :=
        List.mem_append_right front (close_mem_markupEnd _)
      have hend : markupEnd (front ++ markupEnd ('<' :: cs) ++ t) = markupEnd ('<' :: cs) := by
        rw [markupEnd_behind hclose t rest, ← hparts]
      rw [afterMarkup, hend, Text.splitAt?_behind hsplit]
  cases used with
  | nil =>
    have hshort := afterMarkup_length_lt (List.cons_ne_nil '<' cs)
    rw [← List.nil_append (afterMarkup ('<' :: cs)), ← hcs] at hshort
    exact absurd hshort (Nat.lt_irrefl _)
  | cons c used =>
    cases (List.cons.inj hcs).1
    exact ⟨used, hcs, hused⟩

/-! ## 2. Steps of the scan -/

section Steps

variable (quoted : Bool) (offset : Nat) (t : List Char)

theorem findFrom_markup {used : List Char} (h : afterMarkup ('<' :: used ++ t) = t) :
    findFrom quoted offset ('<' :: used ++ t) = findFrom quoted (offset + width ('<' :: used)) t := by
  rw [List.cons_append] at h ⊢
  rw [findFrom, h, ← List.cons_append, Text.width_append, Nat.add_sub_cancel]

theorem findFrom_unicode {cs : List Char} (h : fourHexDigits cs = true) :
    findFrom quoted offset ('\\' :: 'u' :: (cs.take 4 ++ t)) = findFrom quoted (offset + 6) t := by
  have hlength : (cs.take 4).length = 4 := beq_iff_eq.mp (Bool.and_eq_true_iff.mp h).1
  have hdigits : fourHexDigits (cs.take 4 ++ t) = true := by
    rw [fourHexDigits, List.take_left' hlength]
    exact h
  rw [findFrom, if_pos rfl, if_pos hdigits, List.drop_left' hlength]

theorem findFrom_escape {c : Char} (h : c ≠ 'u') :
    findFrom quoted offset ('\\' :: c :: t) = findFrom quoted (offset + 1 + c.utf8Size) t := by
  rw [findFrom, if_neg h]

theorem findFrom_quote : findFrom quoted offset ('"' :: t) = findFrom (!quoted) (offset + 1) t := by
  rw [findFrom]

theorem findFrom_quoteEntity :
    findFrom quoted offset ('&' :: ("quot;".toList ++ t)) = findFrom (!quoted) (offset + 6) t := by
  rw [findFrom]
  split
  · next rest hquote =>
    rw [Text.dropHead?_append] at hquote
    cases hquote
    rfl
  · next hquote =>
    rw [Text.dropHead?_append] at hquote
    cases hquote

theorem findFrom_apostropheEntity :
    findFrom quoted offset ('&' :: ("apos;".toList ++ t)) =
      if quoted then findFrom quoted (offset + 6) t
      else some (⟨offset, offset + 6⟩, .apostrophe) := by
  have hother : Text.dropHead? "quot;".toList ([] ++ 'a' :: ("pos;".toList ++ t)) = none :=
    Text.dropHead?_eq_none_of_notMem (by decide) (by decide) _
  have hother : Text.dropHead? "quot;".toList ("apos;".toList ++ t) = none := hother
  rw [findFrom]
  split
  · next rest hquote =>
    rw [hother] at hquote
    cases hquote
  · split
    · next rest hapostrophe =>
      rw [Text.dropHead?_append] at hapostrophe
      cases hapostrophe
      rfl
    · next hapostrophe =>
      rw [Text.dropHead?_append] at hapostrophe
      cases hapostrophe

theorem findFrom_ampersand (hquote : Text.dropHead? "quot;".toList t = none)
    (hapostrophe : Text.dropHead? "apos;".toList t = none) :
    findFrom quoted offset ('&' :: t) = findFrom quoted (offset + 1) t := by
  rw [findFrom]
  split
  · next h =>
    rw [hquote] at h
    cases h
  · split
    · next h =>
      rw [hapostrophe] at h
      cases h
    · rfl

end Steps

/-! ## 3. The apostrophe that is found -/

/-- A text in which the scan finds an apostrophe, in three parts. The scan comes to the apostrophe
    outside of quotes, and comes there too with a backslash and any text behind it in its place. -/
structure ApostropheAt (quoted : Bool) (offset : Nat) (cs : List Char) (r : ByteRange)
    (front apostrophe rest : List Char) : Prop where
  text : cs = front ++ (apostrophe ++ rest)
  written : apostrophe = ['\''] ∨ apostrophe = "&apos;".toList
  range : r = ⟨offset + width front, offset + width front + width apostrophe⟩
  passes : ∀ t, findFrom quoted offset (front ++ '\\' :: t) =
    findFrom false (offset + width front) ('\\' :: t)

/-- More text in front, which the scan gets over. -/
theorem ApostropheAt.behind {quoted quoted' : Bool} {offset n : Nat}
    {cs front apostrophe rest : List Char} {r : ByteRange}
    (h : ApostropheAt quoted' (offset + n) cs r front apostrophe rest) (used : List Char)
    (hn : width used = n)
    (hstep : ∀ t, findFrom quoted offset (used ++ (front ++ '\\' :: t)) =
      findFrom quoted' (offset + n) (front ++ '\\' :: t)) :
    ApostropheAt quoted offset (used ++ cs) r (used ++ front) apostrophe rest where
  text := by rw [h.text, List.append_assoc]
  written := h.written
  range := by rw [h.range, Text.width_append, hn, Nat.add_assoc offset]
  passes t := by rw [List.append_assoc, hstep, h.passes, Text.width_append, hn, Nat.add_assoc]

/-- **Up to the apostrophe that is found the scan does not depend on what follows.** -/
theorem exists_apostropheAt {quoted : Bool} {offset : Nat} {cs : List Char} {r : ByteRange}
    (h : findFrom quoted offset cs = some (r, .apostrophe)) :
    ∃ front apostrophe rest, ApostropheAt quoted offset cs r front apostrophe rest := by
  fun_induction findFrom quoted offset cs with
  | case1 => cases h
  | case2 quoted offset cs rest ih =>
    have hrest : afterMarkup ('<' :: cs) ≠ [] := by
      intro hnil
      rw [show rest = [] from hnil, findFrom] at h
      cases h
    obtain ⟨used, hcs, hused⟩ := exists_markup hrest
    obtain ⟨front, apostrophe, tail, hparts⟩ := ih h
    have hwidth : width ('<' :: used) = width ('<' :: cs) - width rest := by
      have hsum := congrArg width hcs
      rw [Text.width_append] at hsum
      show _ = _ - width (afterMarkup _)
      omega
    rw [hcs]
    refine ⟨_, apostrophe, tail, hparts.behind ('<' :: used) hwidth fun t => ?_⟩
    rw [← hwidth]
    exact findFrom_markup quoted offset _ (hused _)
  | case3 => cases h
  | case4 quoted offset cs hdigits ih =>
    obtain ⟨front, apostrophe, tail, hparts⟩ := ih h
    have hwidth : width ('\\' :: 'u' :: cs.take 4) = 6 := by
      rw [Text.width_cons, Text.width_cons, width_of_fourHexDigits hdigits]
      rfl
    have hcs : '\\' :: 'u' :: cs = ('\\' :: 'u' :: cs.take 4) ++ cs.drop 4 := by
      rw [List.cons_append, List.cons_append, List.take_append_drop]
    rw [hcs]
    exact ⟨_, apostrophe, tail, hparts.behind _ hwidth fun t =>
      findFrom_unicode quoted offset _ hdigits⟩
  | case5 => cases h
  | case6 quoted offset c cs hu ih =>
    obtain ⟨front, apostrophe, tail, hparts⟩ := ih h
    rw [Nat.add_assoc] at hparts
    refine ⟨_, apostrophe, tail, hparts.behind ['\\', c] rfl fun t => ?_⟩
    rw [← Nat.add_assoc]
    exact findFrom_escape quoted offset _ hu
  | case7 quoted offset cs ih =>
    obtain ⟨front, apostrophe, tail, hparts⟩ := ih h
    exact ⟨_, apostrophe, tail, hparts.behind ['"'] rfl fun t => findFrom_quote quoted offset _⟩
  | case8 quoted offset cs rest hquote ih =>
    obtain ⟨front, apostrophe, tail, hparts⟩ := ih h
    rw [Text.eq_append_of_dropHead? hquote]
    exact ⟨_, apostrophe, tail, hparts.behind ('&' :: "quot;".toList) rfl fun t =>
      findFrom_quoteEntity quoted offset _⟩
  | case9 offset cs hquote rest hapostrophe ih =>
    obtain ⟨front, apostrophe, tail, hparts⟩ := ih h
    rw [Text.eq_append_of_dropHead? hapostrophe]
    exact ⟨_, apostrophe, tail, hparts.behind ('&' :: "apos;".toList) rfl fun t =>
      findFrom_apostropheEntity true offset _⟩
  | case10 quoted offset cs hquote rest hapostrophe hopen =>
    cases h
    rw [Text.eq_append_of_dropHead? hapostrophe]
    rw [Bool.eq_false_iff.mpr hopen]
    exact ⟨[], "&apos;".toList, rest, rfl, Or.inr rfl, rfl, fun t => rfl⟩
  | case11 quoted offset cs hquote hapostrophe ih =>
    obtain ⟨front, apostrophe, tail, hparts⟩ := ih h
    -- neither entity stands there, and a backslash cannot complete one
    have hnone : ∀ head : List Char, '\\' ∉ head → Text.dropHead? head cs = none →
        ∀ t, Text.dropHead? head (front ++ '\\' :: t) = none := by
      intro head hhead hmissing t
      refine Text.dropHead?_eq_none_of_notMem hhead (fun hbegins => ?_) t
      have hsome : (Text.dropHead? head cs).isSome = true := by
        rw [Text.dropHead?_isSome_iff, hparts.text]
        exact List.prefix_append_of_prefix hbegins
      rw [hmissing] at hsome
      cases hsome
    exact ⟨_, apostrophe, tail, hparts.behind ['&'] rfl fun t =>
      findFrom_ampersand quoted offset _ (hnone _ (by decide) hquote t)
        (hnone _ (by decide) hapostrophe t)⟩
  | case12 offset cs ih =>
    obtain ⟨front, apostrophe, tail, hparts⟩ := ih h
    refine ⟨_, apostrophe, tail, hparts.behind ['\''] rfl fun t => ?_⟩
    rw [List.singleton_append, findFrom, if_pos rfl]
  | case13 quoted offset cs hopen =>
    cases h
    rw [Bool.eq_false_iff.mpr hopen]
    exact ⟨[], ['\''], cs, rfl, Or.inl rfl, rfl, fun t => rfl⟩
  | case14 quoted offset c cs hmarkup hback hquote hamp hapostrophe ih =>
    obtain ⟨front, apostrophe, tail, hparts⟩ := ih h
    refine ⟨_, apostrophe, tail, hparts.behind [c] rfl fun t => ?_⟩
    rw [List.singleton_append, findFrom]
    · exact hmarkup
    · exact hback
    · exact hquote
    · exact hamp
    · exact hapostrophe

/-! ## 4. What follows a correction -/

/-- A problem that is found as far behind. -/
def shifted (n : Nat) (found : ByteRange × EscapeProblem) : ByteRange × EscapeProblem :=
  (found.1.shift n, found.2)

/-- Scanning a text that begins elsewhere finds the same problem, as far away. -/
theorem findFrom_add (quoted : Bool) (offset n : Nat) (cs : List Char) :
    findFrom quoted (offset + n) cs = (findFrom quoted offset cs).map (shifted n) := by
  fun_induction findFrom quoted offset cs with
  | case1 => rw [findFrom]; rfl
  | case2 quoted offset cs rest ih =>
    rw [findFrom, Nat.add_right_comm]
    exact ih
  | case3 => rw [findFrom]; rfl
  | case4 quoted offset cs hdigits ih =>
    rw [findFrom, if_pos rfl, if_pos hdigits, Nat.add_right_comm]
    exact ih
  | case5 quoted offset cs hdigits =>
    rw [findFrom, if_pos rfl, if_neg hdigits, Nat.add_right_comm offset,
      Nat.add_right_comm (offset + 2)]
    rfl
  | case6 quoted offset c cs hu ih =>
    rw [findFrom, if_neg hu, Nat.add_right_comm offset, Nat.add_right_comm]
    exact ih
  | case7 quoted offset cs ih =>
    rw [findFrom, Nat.add_right_comm]
    exact ih
  | case8 quoted offset cs rest hquote ih =>
    rw [Text.eq_append_of_dropHead? hquote, findFrom_quoteEntity, Nat.add_right_comm]
    exact ih
  | case9 offset cs hquote rest hapostrophe ih =>
    rw [Text.eq_append_of_dropHead? hapostrophe, findFrom_apostropheEntity, if_pos rfl,
      Nat.add_right_comm]
    exact ih
  | case10 quoted offset cs hquote rest hapostrophe hopen =>
    rw [Text.eq_append_of_dropHead? hapostrophe, findFrom_apostropheEntity, if_neg hopen,
      Nat.add_right_comm]
    rfl
  | case11 quoted offset cs hquote hapostrophe ih =>
    rw [findFrom_ampersand _ _ _ hquote hapostrophe, Nat.add_right_comm]
    exact ih
  | case12 offset cs ih =>
    rw [findFrom, if_pos rfl, Nat.add_right_comm]
    exact ih
  | case13 quoted offset cs hopen =>
    rw [findFrom, if_neg hopen, Nat.add_right_comm]
    rfl
  | case14 quoted offset c cs hmarkup hback hquote hamp hapostrophe ih =>
    rw [findFrom, Nat.add_right_comm]
    · exact ih
    · exact hmarkup
    · exact hback
    · exact hquote
    · exact hamp
    · exact hapostrophe

/-- What stands in place of an apostrophe once it is corrected. -/
def escapedApostrophe : List Char := "\\'".toList

/-- Whatever follows `done` is scanned as if it stood alone. -/
def Transparent (done : List Char) : Prop :=
  ∀ cs, find? (done ++ cs) = (find? cs).map (shifted (width done))

/-- **What follows a correction is scanned as if it stood alone.** -/
theorem transparent_escaped {raw front apostrophe rest : List Char} {r : ByteRange}
    (h : ApostropheAt false 0 raw r front apostrophe rest) :
    Transparent (front ++ escapedApostrophe) := by
  intro cs
  have hreach := h.passes ('\'' :: cs)
  rw [findFrom_escape false _ _ (by decide), Nat.zero_add] at hreach
  have hwidth : width (front ++ escapedApostrophe) = width front + 1 + '\''.utf8Size := by
    rw [Text.width_append]
    rfl
  have hshift := findFrom_add false 0 (width (front ++ escapedApostrophe)) cs
  rw [Nat.zero_add] at hshift
  rw [List.append_assoc, find?, find?, ← hshift, hwidth]
  exact hreach

/-- The content with its first problem corrected, when that is an apostrophe. -/
def escapeFirst (raw : List Char) : List Char :=
  match find? raw with
  | some (r, .apostrophe) => Text.splice raw r escapedApostrophe
  | _ => raw

theorem escapeFirst_of_apostrophe {raw : List Char} {r : ByteRange}
    (h : find? raw = some (r, .apostrophe)) :
    escapeFirst raw = Text.splice raw r escapedApostrophe := by
  rw [escapeFirst, h]

theorem Transparent.escapeFirst {done : List Char} (h : Transparent done) (cs : List Char) :
    escapeFirst (done ++ cs) = done ++ escapeFirst cs := by
  unfold EscapeProblem.escapeFirst
  rw [h cs]
  cases find? cs with
  | none => rfl
  | some found =>
    obtain ⟨r, problem⟩ := found
    cases problem with
    | apostrophe => exact Text.splice_behind done cs escapedApostrophe r
    | unicodeEscape => rfl

theorem Transparent.iterate {done : List Char} (h : Transparent done) (n : Nat) (cs : List Char) :
    EscapeProblem.escapeFirst^[n] (done ++ cs) = done ++ EscapeProblem.escapeFirst^[n] cs := by
  induction n generalizing cs with
  | zero => rfl
  | succ n ih => rw [Function.iterate_succ_apply, Function.iterate_succ_apply, h.escapeFirst, ih]

/-- The text after one correction: what stands before and behind is as it was. -/
theorem ApostropheAt.splice_eq {raw front apostrophe rest : List Char} {r : ByteRange}
    (h : ApostropheAt false 0 raw r front apostrophe rest) :
    Text.splice raw r escapedApostrophe = front ++ escapedApostrophe ++ rest ∧
      Text.after r.stop raw = rest := by
  rw [h.text, h.range, Nat.zero_add]
  constructor
  · rw [Text.splice_width, List.append_assoc]
  · rw [Text.after_width_add, Text.after_width]

/-! ## 5. All corrections -/

/-- Whether an apostrophe is at the head of a text, as itself or as an entity. -/
def startsApostrophe (cs : List Char) : Bool :=
  (Text.dropHead? ['\''] cs).isSome || (Text.dropHead? "&apos;".toList cs).isSome

/-- The apostrophes of a text, as themselves or as entities. -/
def apostropheCount : List Char → Nat
  | [] => 0
  | c :: cs => apostropheCount cs + (startsApostrophe (c :: cs)).toNat

theorem apostropheCount_le_append (as bs : List Char) :
    apostropheCount bs ≤ apostropheCount (as ++ bs) := by
  induction as with
  | nil => exact Nat.le_refl _
  | cons c as ih => exact Nat.le_trans ih (Nat.le_add_right _ _)

theorem ApostropheAt.apostropheCount_lt {quoted : Bool} {offset : Nat}
    {cs front apostrophe rest : List Char} {r : ByteRange}
    (h : ApostropheAt quoted offset cs r front apostrophe rest) :
    apostropheCount rest < apostropheCount cs := by
  have hstarts : startsApostrophe (apostrophe ++ rest) = true := by
    rw [startsApostrophe, Bool.or_eq_true, Text.dropHead?_isSome_iff, Text.dropHead?_isSome_iff]
    rcases h.written with rfl | rfl
    · exact Or.inl (List.prefix_append _ _)
    · exact Or.inr (List.prefix_append _ _)
  obtain ⟨c, more, hmore⟩ : ∃ c more, apostrophe = c :: more := by
    rcases h.written with rfl | rfl
    · exact ⟨_, _, rfl⟩
    · exact ⟨_, _, String.toList_ofList⟩
  have hfront := apostropheCount_le_append front (apostrophe ++ rest)
  have hbehind := apostropheCount_le_append more rest
  rw [hmore, List.cons_append] at hstarts
  rw [hmore, List.cons_append, apostropheCount, hstarts, Bool.toNat_true] at hfront
  rw [h.text, hmore, List.cons_append]
  omega

/-- **Corrections come to an end**, after no more of them than there are apostrophes. -/
theorem exists_iterate (raw : List Char) : ∃ n ≤ apostropheCount raw,
    ∀ r, find? (escapeFirst^[n] raw) ≠ some (r, .apostrophe) := by
  induction hcount : apostropheCount raw using Nat.strongRecOn generalizing raw with
  | ind count ih =>
    by_cases hfound : ∃ r, find? raw = some (r, .apostrophe)
    · obtain ⟨r, hr⟩ := hfound
      obtain ⟨front, apostrophe, rest, hparts⟩ := exists_apostropheAt hr
      have hless : apostropheCount rest < count := hcount ▸ hparts.apostropheCount_lt
      obtain ⟨n, hn, hdone⟩ := ih _ hless rest rfl
      have htransparent := transparent_escaped hparts
      refine ⟨n + 1, by omega, fun r' hr' => ?_⟩
      rw [Function.iterate_succ_apply, escapeFirst_of_apostrophe hr, hparts.splice_eq.1,
        htransparent.iterate, htransparent] at hr'
      obtain ⟨⟨r'', problem⟩, hrest, hsame⟩ := Option.map_eq_some_iff.mp hr'
      cases hsame
      exact hdone r'' hrest
    · exact ⟨0, Nat.zero_le _, fun r hr => hfound ⟨r, hr⟩⟩

/-- The correction that is offered puts the escaped apostrophe in place of the one that is found. -/
theorem fix_badEscape? {file : File} {e : Xml.Element} {r : ByteRange}
    (hreference : isReference (rawContent file e) = false)
    (hfound : find? (rawContent file e) = some (r, .apostrophe)) :
    ∃ i, badEscape? file e = some i ∧ i.fix = some (.replacing "Escape Apostrophe" file.path
      (r.shift e.contentRange.start) (String.ofList escapedApostrophe)) := by
  have hopen : ¬ isReference (rawContent file e) = true := Bool.eq_false_iff.mp hreference
  unfold badEscape?
  dsimp only
  rw [if_neg hopen, hfound]
  exact ⟨_, rfl, rfl⟩

/-- **Apostrophes are escaped one after the other, in no more steps than there are apostrophes.** The
    range that is found is a part of the content and not empty, and the offered correction is to put
    a backslash and an apostrophe there. Then the first problem is the one that the scan of what
    follows finds, outside of quotes, so it stands behind the correction. In the end there is no
    problem, or the first one is a bad unicode escape. -/
theorem find?_escapeFirst (raw : List Char) :
    (∀ r, find? raw = some (r, .apostrophe) →
      r.FitsIn raw ∧ r.start < r.stop ∧
      (∀ file e, rawContent file e = raw → isReference raw = false →
        ∃ i, badEscape? file e = some i ∧ i.fix = some (.replacing "Escape Apostrophe" file.path
          (r.shift e.contentRange.start) (String.ofList escapedApostrophe))) ∧
      find? (Text.splice raw r escapedApostrophe) =
        findFrom false (r.start + 2) (Text.after r.stop raw) ∧
      ∀ found, find? (Text.splice raw r escapedApostrophe) = some found →
        r.start + 2 ≤ found.1.start) ∧
    ∃ n ≤ apostropheCount raw, find? (escapeFirst^[n] raw) = none ∨
      ∃ r, find? (escapeFirst^[n] raw) = some (r, .unicodeEscape) := by
  constructor
  · intro r hr
    obtain ⟨front, apostrophe, rest, hparts⟩ := exists_apostropheAt hr
    obtain ⟨hsplice, hafter⟩ := hparts.splice_eq
    have hstart : r.start = width front := by rw [hparts.range, Nat.zero_add]
    have hscan : find? (Text.splice raw r escapedApostrophe) =
        findFrom false (r.start + 2) (Text.after r.stop raw) := by
      have hshift := findFrom_add false 0 (r.start + 2) rest
      have hwidth : width (front ++ escapedApostrophe) = r.start + 2 := by
        rw [Text.width_append, hstart]
        rfl
      rw [Nat.zero_add] at hshift
      rw [hsplice, hafter, transparent_escaped hparts, hshift, hwidth]
      rfl
    refine ⟨?_, ?_, fun file e hraw hreference => ?_, hscan, fun found hfound => ?_⟩
    · rw [hparts.text, hparts.range, Nat.zero_add, ← List.append_assoc]
      exact ByteRange.fitsIn_width front apostrophe rest
    · have hpos : 0 < width apostrophe := by
        rcases hparts.written with hwritten | hwritten <;> rw [hwritten] <;> decide
      rw [hparts.range]
      exact Nat.lt_add_of_pos_right hpos
    · subst hraw
      exact fix_badEscape? hreference hr
    · rw [hscan, ← Nat.zero_add (r.start + 2), findFrom_add] at hfound
      obtain ⟨found', _, rfl⟩ := Option.map_eq_some_iff.mp hfound
      exact Nat.le_add_left _ _
  · obtain ⟨n, hn, hdone⟩ := exists_iterate raw
    refine ⟨n, hn, ?_⟩
    cases hfound : find? (escapeFirst^[n] raw) with
    | none => exact Or.inl rfl
    | some found =>
      obtain ⟨r, problem⟩ := found
      cases problem with
      | apostrophe => exact absurd hfound (hdone r)
      | unicodeEscape => exact Or.inr ⟨r, rfl⟩

-- The apostrophe between quotes needs no correction, and a bad unicode escape gets none.
example :
    [0, 1, 2].map (fun n => find? (escapeFirst^[n] "it's \"Bob's\" o'clock, \\u12".toList)) =
      [some (⟨2, 3⟩, .apostrophe), some (⟨15, 16⟩, .apostrophe),
        some (⟨24, 28⟩, .unicodeEscape)] := by
  cbv

end AndroidLint.Check.EscapeProblem
