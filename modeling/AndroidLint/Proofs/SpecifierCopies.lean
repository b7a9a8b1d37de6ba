/-
  File:      AndroidLint/Proofs/SpecifierCopies.lean
  Subject:   The copies of a format specifier in a text.

  A specifier is looked for by the number of copies before it. Its percent sign stands once in it,
  so copies do not overlap and their number determines the place. No character of a specifier means
  anything to a reader of quotes or references, so a copy is read as it is written:

  * `Text.exists_parts_of_occurrence`:  an occurrence is a place with so many others before it;
  * `Text.eq_of_occurrences_length`:    places with as many occurrences before them are one place;
  * `Text.eq_of_replaced`:              a replacement tells where it was made;
  * `Format.stripQuotesFrom_inert`:     quotes are left out on both sides of a copy;
  * `Format.exists_parts_of_specifier`: a specifier with the text on both sides of it.
-/
import AndroidLint.Proofs.Beginnings
import AndroidLint.Proofs.FormatFixes
import AndroidLint.Proofs.XmlData

namespace AndroidLint

/-! ## 1. Occurrences -/

namespace Text

/-- The first character of the text is nowhere else in it, so no two copies of it overlap. -/
def HeadOnce (needle : List Char) : Prop := ∃ x tail, needle = x :: tail ∧ x ∉ tail

theorem HeadOnce.ne_nil {needle : List Char} (h : HeadOnce needle) : needle ≠ [] := by
  obtain ⟨x, tail, rfl, _⟩ := h
  exact List.cons_ne_nil x tail

theorem not_begins_of_splitAt?_eq_none {needle cs : List Char} (h : splitAt? needle cs = none)
    {as bs : List Char} (hparts : cs = as ++ bs) : ¬ needle <+: bs := by
  induction cs generalizing as bs with
  | nil =>
    obtain ⟨rfl, rfl⟩ := List.append_eq_nil_iff.mp hparts.symm
    intro hbegins
    rw [List.prefix_nil.mp hbegins] at h
    cases h
  | cons c cs ih =>
    rw [splitAt?] at h
    split at h
    · cases h
    · next hnone =>
      have hrest : splitAt? needle cs = none := Option.map_eq_none_iff.mp h
      cases as with
      | nil =>
        intro hbegins
        obtain rfl : c :: cs = bs := hparts
        rw [← dropHead?_isSome_iff, hnone] at hbegins
        cases hbegins
      | cons a as => exact ih hrest (List.cons.inj hparts).2

theorem splitAt?_eq_none_of_first {needle cs front rest : List Char} (hne : needle ≠ [])
    (h : splitAt? needle cs = some (front, rest)) : splitAt? needle front = none := by
  cases hfront : splitAt? needle front with
  | none => rfl
  | some found =>
    -- an occurrence in front of the first one
    have hparts := eq_append_of_splitAt? hfront
    have hagain := splitAt?_behind hfront (found.2 ++ needle ++ rest)
    have hcs : cs = found.1 ++ needle ++ (found.2 ++ needle ++ rest) := by
      rw [eq_append_of_splitAt? h, hparts]
      simp only [List.append_assoc]
    rw [← hcs, h] at hagain
    have hlength := congrArg List.length hparts
    rw [(Prod.mk.inj (Option.some.inj hagain)).1] at hlength
    have hpos := List.length_pos_iff.mpr hne
    simp only [List.length_append] at hlength
    omega

/-- Behind a text in which it is not, a copy is the first one. -/
theorem splitAt?_of_none {needle front : List Char} (hneedle : HeadOnce needle)
    (h : splitAt? needle front = none) (rest : List Char) :
    splitAt? needle (front ++ (needle ++ rest)) = some (front, rest) := by
  refine splitAt?_of_first rest ?_
  intro as bs hparts hne hbegins
  have hwhole := not_begins_of_splitAt?_eq_none h hparts
  rcases List.prefix_or_prefix_of_prefix hbegins (List.prefix_append bs (needle ++ rest)) with
    hin | ⟨more, hmore⟩
  · exact hwhole hin
  · -- the copy that begins in `bs` would go on over the beginning of this one
    obtain ⟨x, tail, rfl, hx⟩ := hneedle
    rw [← hmore, List.prefix_append_right_inj] at hbegins
    cases more with
    | nil =>
      rw [List.append_nil] at hmore
      exact hwhole (hmore ▸ List.prefix_rfl)
    | cons y more =>
      have hy : y = x := by
        rw [hmore, List.cons_append] at hbegins
        exact (List.cons_prefix_cons.mp hbegins).1
      cases bs with
      | nil => exact hne rfl
      | cons b bs =>
        have htail : bs ++ y :: more = tail := (List.cons.inj hmore).2
        exact hx (htail ▸ hy ▸ List.mem_append_right bs List.mem_cons_self)

theorem occurrencesFrom_of_none {needle cs : List Char} (h : splitAt? needle cs = none)
    (offset : Nat) : occurrencesFrom needle offset cs = [] := by
  rw [occurrencesFrom]
  split
  · rfl
  · split
    · rfl
    · next hsome => rw [h] at hsome; cases hsome

theorem occurrencesFrom_of_some {needle cs front rest : List Char} (hne : needle ≠ [])
    (h : splitAt? needle cs = some (front, rest)) (offset : Nat) :
    occurrencesFrom needle offset cs = (offset + width front) ::
      occurrencesFrom needle (offset + width front + width needle) rest := by
  rw [occurrencesFrom, dif_neg hne]
  split
  · next hnone => rw [h] at hnone; cases hnone
  · next front' rest' hsome =>
    rw [h] at hsome
    obtain ⟨rfl, rfl⟩ := Prod.mk.inj (Option.some.inj hsome)
    rfl

/-- **The occurrences in a text, taken apart at a copy of what is looked for.** -/
theorem occurrencesFrom_append {needle : List Char} (hneedle : HeadOnce needle)
    (offset : Nat) (front back : List Char) :
    occurrencesFrom needle offset (front ++ (needle ++ back)) =
      occurrencesFrom needle offset front ++ (offset + width front) ::
        occurrencesFrom needle (offset + width front + width needle) back := by
  have hne := hneedle.ne_nil
  fun_induction occurrencesFrom needle offset front with
  | case1 => exact absurd ‹needle = []› hne
  | case2 offset front _ hnone =>
    exact occurrencesFrom_of_some hne (splitAt?_of_none hneedle hnone back) offset
  | case3 offset cs _ first rest hfound start ih =>
    have hparts := eq_append_of_splitAt? hfound
    have hfirst := splitAt?_behind hfound (rest ++ (needle ++ back))
    have hcs : cs ++ (needle ++ back) = first ++ needle ++ (rest ++ (needle ++ back)) := by
      rw [hparts]
      simp only [List.append_assoc]
    have hwidth : offset + width cs = start + width needle + width rest := by
      rw [hparts, width_append, width_append]
      omega
    rw [hcs, occurrencesFrom_of_some hne hfirst, ih, hwidth]
    rfl

/-- **The occurrence with a number** has as many others before it. -/
theorem exists_parts_of_occurrence {needle cs : List Char} {offset k start : Nat}
    (h : (occurrencesFrom needle offset cs)[k]? = some start) :
    ∃ front back, cs = front ++ (needle ++ back) ∧ start = offset + width front ∧
      (occurrencesFrom needle offset front).length = k := by
  fun_induction occurrencesFrom needle offset cs generalizing k with
  | case1 => cases h
  | case2 => cases h
  | case3 offset cs hne first rest hfound found =>
    rename_i ih
    cases k with
    | zero =>
      obtain rfl : found = start := Option.some.inj h
      refine ⟨first, rest, ?_, rfl, ?_⟩
      · rw [eq_append_of_splitAt? hfound, List.append_assoc]
      · rw [occurrencesFrom_of_none (splitAt?_eq_none_of_first hne hfound)]
        rfl
    | succ k =>
      obtain ⟨front, back, rfl, rfl, hlength⟩ := ih h
      refine ⟨first ++ needle ++ front, back, ?_, ?_, ?_⟩
      · rw [eq_append_of_splitAt? hfound]
        simp only [List.append_assoc]
      · rw [width_append, width_append]
        show offset + width first + width needle + width front = _
        omega
      · rw [occurrencesFrom_of_some hne (splitAt?_behind hfound front), List.length_cons]
        exact congrArg (· + 1) hlength

/-- Copies with as many others before them are one. -/
theorem eq_of_occurrences_length {needle front back front' back' : List Char}
    (hneedle : HeadOnce needle) (h : front ++ (needle ++ back) = front' ++ (needle ++ back'))
    (hlength : (occurrences needle front).length = (occurrences needle front').length) :
    front = front' ∧ back = back' := by
  have hnth : ∀ f b, (occurrences needle (f ++ (needle ++ b)))[(occurrences needle f).length]? =
      some (width f) := by
    intro f b
    unfold occurrences
    rw [occurrencesFrom_append hneedle, List.getElem?_append_right (Nat.le_refl _), Nat.sub_self,
      Nat.zero_add]
    rfl
  have hwidth : width front = width front' := by
    have hfirst := hnth front back
    rw [h, hlength, hnth front' back'] at hfirst
    exact (Option.some.inj hfirst).symm
  obtain ⟨rfl, hrest⟩ := append_inj_of_width h hwidth
  exact ⟨rfl, List.append_cancel_left hrest⟩

/-- A copy that stands some characters behind another one stands behind the whole of it. -/
theorem begins_of_moved {needle shift back back' : List Char} (hneedle : HeadOnce needle)
    (hne : shift ≠ []) (h : needle ++ back = shift ++ (needle ++ back')) : needle <+: shift := by
  rcases List.append_eq_append_iff.mp h with ⟨more, hmore, _⟩ | ⟨more, hmore, hrest⟩
  · exact ⟨more, hmore.symm⟩
  · obtain ⟨x, tail, rfl, hx⟩ := hneedle
    cases more with
    | nil =>
      rw [List.append_nil] at hmore
      exact hmore ▸ List.prefix_rfl
    | cons y more =>
      cases shift with
      | nil => exact absurd rfl hne
      | cons s shift =>
        have htail : tail = shift ++ y :: more := (List.cons.inj hmore).2
        have hy : x = y := (List.cons.inj hrest).1
        exact absurd (htail ▸ hy ▸ List.mem_append_right shift List.mem_cons_self) hx

/-- Two texts that are replaced for each other at one place and at another one: the places are one,
    unless one text begins with the other. -/
theorem eq_of_replaced {old new front back front' back' : List Char} (hold : HeadOnce old)
    (hnew : HeadOnce new) (hdiffer : ¬ old <+: new ∧ ¬ new <+: old)
    (h : front ++ (old ++ back) = front' ++ (old ++ back'))
    (h' : front ++ (new ++ back) = front' ++ (new ++ back')) : front = front' := by
  have hnone : ∀ {shift b b' : List Char}, old ++ b = shift ++ (old ++ b') →
      new ++ b = shift ++ (new ++ b') → shift = [] := by
    intro shift b b' ho hn
    by_contra hne
    rcases List.prefix_or_prefix_of_prefix (begins_of_moved hold hne ho)
      (begins_of_moved hnew hne hn) with hbegins | hbegins
    · exact hdiffer.1 hbegins
    · exact hdiffer.2 hbegins
  rcases List.append_eq_append_iff.mp h with ⟨shift, rfl, hshift⟩ | ⟨shift, rfl, hshift⟩
  · rw [List.append_assoc] at h'
    rw [hnone hshift (List.append_cancel_left h'), List.append_nil]
  · rw [List.append_assoc] at h'
    rw [hnone hshift (List.append_cancel_left h').symm, List.append_nil]

end Text

/-! ## 2. Quotes around specifiers -/

namespace Format

open Xml (Inert reserved)

/-- Inert characters stay, and behind them nothing is escaped. -/
theorem stripQuotesFrom_inert {mid : List Char} (hmid : Inert mid) (escaped : Bool)
    (front back : List Char) : stripQuotesFrom escaped (front ++ (mid ++ back)) =
      stripQuotesFrom escaped front ++ (mid ++ stripQuotesFrom false back) := by
  have hkeep : ∀ cs : List Char, (∀ c ∈ cs, c ∉ reserved) →
      ∀ escaped, (cs = [] → escaped = false) →
      stripQuotesFrom escaped (cs ++ back) = cs ++ stripQuotesFrom false back := by
    intro cs hcs
    induction cs with
    | nil =>
      intro escaped hescaped
      rw [hescaped rfl]
      rfl
    | cons c cs ih =>
      intro escaped _
      obtain ⟨hc, hcs⟩ := List.forall_mem_cons.mp hcs
      have hslash : c ≠ '\\' := fun h => hc (h ▸ by simp [reserved])
      have hquote : c ≠ '"' := fun h => hc (h ▸ by simp [reserved])
      rw [List.cons_append, List.cons_append, stripQuotesFrom, if_neg hslash, if_neg hquote,
        ite_self, ih hcs false fun _ => rfl]
  induction front generalizing escaped with
  | nil => exact hkeep mid hmid.plain escaped fun h => absurd h hmid.ne_nil
  | cons c front ih =>
    rw [List.cons_append, stripQuotesFrom, stripQuotesFrom]
    split
    · rw [ih, List.cons_append]
    · split
      · rw [ih, List.cons_append]
      · split
        · exact ih false
        · rw [ih, List.cons_append]

theorem stripQuotesFrom_plain {cs : List Char} (h : '"' ∉ cs) (escaped : Bool) :
    stripQuotesFrom escaped cs = cs := by
  induction cs generalizing escaped with
  | nil => rfl
  | cons c cs ih =>
    have hc : c ≠ '"' := fun heq => h (heq ▸ List.mem_cons_self)
    have hcs : '"' ∉ cs := fun hmem => h (List.mem_cons_of_mem c hmem)
    rw [stripQuotesFrom, if_neg hc, ih hcs, ih hcs]
    split
    · rfl
    · split <;> rfl

/-! ## 3. Specifiers as they are written -/

theorem Directive.inert_written {cs rest : List Char} {d : Directive}
    (h : Directive.read cs = some (d, rest)) : Inert d.written := by
  have hnone : reserved.all (fun c => !directivePattern.uses c) = true := by decide
  refine ⟨List.mem_cons_self, fun c hc hreserved => ?_⟩
  have huses := Pattern.uses_of_mem_taken (Directive.way_mem_ways h) hc
  have hnot := List.all_eq_true.mp hnone c hreserved
  rw [huses] at hnot
  cases hnot

/-- In a directive that formats an argument the percent sign stands once. -/
theorem Directive.headOnce_written {d : Directive} (h : d.Readable)
    (hliteral : d.isLiteral = false) : Text.HeadOnce d.written := by
  have hdigit : ∀ cs : List Char, (∀ c ∈ cs, Text.isDigit c = true) → '%' ∉ cs := fun cs hcs hmem =>
    absurd (hcs '%' hmem) (by decide)
  have hflags : '%' ∉ d.flags := fun hmem => absurd (h.flags '%' hmem) (by decide)
  have hconversion : d.conversion ≠ '%' := by
    intro heq
    rw [Directive.isLiteral, heq] at hliteral
    cases hliteral
  refine ⟨'%', _, rfl, ?_⟩
  simp only [List.mem_append, not_or, List.mem_singleton]
  refine ⟨⟨⟨⟨⟨?_, hflags⟩, hdigit _ h.fieldWidth⟩, ?_⟩, ?_⟩, Ne.symm hconversion⟩
  · cases hnumber : d.number with
    | none => exact List.not_mem_nil
    | some ds =>
      intro hmem
      rcases List.mem_append.mp hmem with hmem | hmem
      · exact hdigit ds (h.number ds hnumber).2 hmem
      · exact absurd (List.mem_singleton.mp hmem) (by decide)
  · split
    · exact List.not_mem_nil
    · intro hmem
      rcases List.mem_cons.mp hmem with hmem | hmem
      · exact absurd hmem (by decide)
      · exact hdigit _ h.precision hmem
  · cases hdate : d.date with
    | none => exact List.not_mem_nil
    | some t =>
      intro hmem
      rcases h.date t hdate with rfl | rfl <;> exact absurd (List.mem_singleton.mp hmem) (by decide)

/-- A specifier that formats an argument, with the text on both sides of it. -/
theorem exists_parts_of_specifier {text : String} {spec : Specifier} (h : spec ∈ specifiers text)
    (hliteral : spec.isLiteral = false) :
    ∃ front needle back, text.toList = front ++ (needle ++ back) ∧
      spec.range = ⟨Text.width front, Text.width front + Text.width needle⟩ ∧
      Inert needle ∧ Text.HeadOnce needle ∧ 2 ≤ needle.length := by
  obtain ⟨d, range, index, explicit, hmem, rfl⟩ := exists_directive_of_mem_number h
  obtain ⟨front, rest, hparts, rfl, hread⟩ :=
    exists_read_of_mem_visitsFrom (mem_visitsFrom_of_mem_locate hmem)
  have honce := Directive.headOnce_written (Directive.readable_of_read hread).1 hliteral
  have hlength : 2 ≤ d.written.length := by
    simp only [Directive.written, List.length_cons, List.length_append, List.length_nil]
    omega
  refine ⟨front, d.written, rest, hparts, ?_, Directive.inert_written hread, honce, hlength⟩
  show (⟨0 + Text.width front, 0 + Text.width front + Text.width d.written⟩ : ByteRange) = _
  rw [Nat.zero_add]

theorem differs_of_second {x y x' y' : Char} {cs ds : List Char} (h : y ≠ y') :
    ¬ x :: y :: cs <+: x' :: y' :: ds ∧ ¬ x' :: y' :: ds <+: x :: y :: cs := by
  constructor
  · intro hbegins
    obtain ⟨_, hsecond⟩ := List.cons_prefix_cons.mp hbegins
    exact h (List.cons_prefix_cons.mp hsecond).1
  · intro hbegins
    obtain ⟨_, hsecond⟩ := List.cons_prefix_cons.mp hbegins
    exact h (List.cons_prefix_cons.mp hsecond).1.symm

/-- For every text of two characters or more there is a numbered specifier that is told from it. -/
theorem exists_numberedText_differs {needle : List Char} (h : 2 ≤ needle.length) :
    ∃ k, Text.HeadOnce (numberedText k 's').toList ∧ ¬ needle <+: (numberedText k 's').toList ∧
      ¬ (numberedText k 's').toList <+: needle := by
  have hone : (numberedText 1 's').toList = ['%', '1', '$', 's'] := by decide
  have htwo : (numberedText 2 's').toList = ['%', '2', '$', 's'] := by decide
  match needle, h with
  | x :: y :: rest, _ =>
    by_cases hy : y = '1'
    · refine ⟨2, htwo ▸ ⟨'%', _, rfl, by decide⟩, ?_⟩
      rw [htwo, hy]
      exact differs_of_second (by decide)
    · refine ⟨1, hone ▸ ⟨'%', _, rfl, by decide⟩, ?_⟩
      rw [hone]
      exact differs_of_second hy

/-- What a correction writes means nothing to the readers of the file. -/
theorem inert_numberedText (k : Nat) {c : Char} (hc : c.isAlpha = true) :
    Inert (numberedText k c).toList ∧ '<' ∉ (numberedText k c).toList := by
  have hnone : ('<' :: reserved).all (fun x => !(x == '%' || x.isDigit || x == '$' || x.isAlpha)) =
      true := by decide
  have hclass : ∀ x ∈ (numberedText k c).toList,
      (x == '%' || x.isDigit || x == '$' || x.isAlpha) = true := by
    rw [← written_numbered]
    intro x hx
    have hparts : (numbered k c).written = '%' :: (Nat.toDigits 10 k ++ ['$', c]) := by
      simp [numbered, Directive.written]
    rw [hparts] at hx
    rcases List.mem_cons.mp hx with rfl | hx
    · rfl
    rcases List.mem_append.mp hx with hx | hx
    · rw [isDigit_of_mem_toDigits hx]
      simp
    · rcases List.mem_cons.mp hx with rfl | hx
      · rfl
      · rw [List.mem_singleton.mp hx, hc]
        simp
  have hfree : ∀ x ∈ (numberedText k c).toList, x ∉ '<' :: reserved := by
    intro x hx hmem
    have hnot := List.all_eq_true.mp hnone x hmem
    rw [hclass x hx] at hnot
    cases hnot
  refine ⟨⟨?_, fun x hx hmem => hfree x hx (List.mem_cons_of_mem _ hmem)⟩, fun hmem => ?_⟩
  · rw [← written_numbered]
    exact List.mem_cons_self
  · exact hfree '<' hmem List.mem_cons_self

end Format

end AndroidLint
