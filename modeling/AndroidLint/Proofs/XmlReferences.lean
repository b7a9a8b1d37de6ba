/-
  File:      AndroidLint/Proofs/XmlReferences.lean
  Subject:   References around characters that mean nothing to them.

  A text with a bad reference is kept as it is written, so one character can decide about all the
  others. Characters without `&` and `;` and with a percent sign decide nothing: they are in no name
  of an entity, and what stands on both sides of them is read as if they were others.

  * `unescape?_inert`:  the references on both sides are replaced for themselves;
  * `decode_inert`:     what is read around such characters does not depend on them.
-/
import AndroidLint.Proofs.XmlData
import AndroidLint.Xml.Entity

namespace AndroidLint.Xml

open Text

/-! ## 1. One reference -/

theorem valueFrom?_eq_none {base value : Nat} {cs : List Char} {c : Char} (hc : c ∈ cs)
    (hdigit : digitValue? base c = none) : valueFrom? base value cs = none := by
  induction cs generalizing value with
  | nil => cases hc
  | cons d cs ih =>
    rw [valueFrom?]
    rcases List.mem_cons.mp hc with rfl | hc
    · rw [hdigit]
    · cases digitValue? base d with
      | none => rfl
      | some n => exact ih hc

/-- A percent sign is in no reference. -/
theorem entity?_eq_none {name : List Char} (h : '%' ∈ name) : entity? name = none := by
  have hnumber : ∀ digits : List Char, '%' ∈ digits → numericEntity? digits = none := by
    intro digits hmem
    unfold numericEntity?
    split
    · next rest =>
      have hrest : '%' ∈ rest := (List.mem_cons.mp hmem).resolve_left (by decide)
      rw [valueFrom?_eq_none hrest (by decide)]
      exact ite_self none
    · rw [valueFrom?_eq_none hmem (by decide)]
      exact ite_self none
  have hnamed : ∀ word : String, '%' ∉ word.toList → name ≠ word.toList := by
    intro word hword heq
    exact hword (heq ▸ h)
  unfold entity?
  split
  · exact hnumber _ ((List.mem_cons.mp h).resolve_left (by decide))
  · unfold namedEntity?
    rw [if_neg (hnamed "lt" (by decide)), if_neg (hnamed "gt" (by decide)),
      if_neg (hnamed "amp" (by decide)), if_neg (hnamed "apos" (by decide)),
      if_neg (hnamed "quot" (by decide))]

/-- A reference up to its semicolon. -/
theorem unescape?_reference {name : List Char} (hname : ∀ c ∈ name, (!endsReference c) = true)
    (rest : List Char) : unescape? ('&' :: (name ++ ';' :: rest)) =
      (entity? name).bind fun denoted => (unescape? rest).map (denoted :: ·) := by
  have hstop : Format.StopsRun (fun c => !endsReference c) (';' :: rest) :=
    Format.stopsRun_cons rfl
  have htake := Format.takeWhile_append_of_stopsRun hname hstop
  have hdrop := Format.dropWhile_append_of_stopsRun hname hstop
  rw [unescape?, if_pos rfl]
  split
  · next rest' hfound =>
    rw [hdrop] at hfound
    cases hfound
    rw [htake]
    cases entity? name <;> rfl
  · next hother => exact absurd hdrop (hother rest)

/-- A reference without a semicolon. -/
theorem unescape?_unclosed {cs : List Char}
    (h : ∀ rest, cs.dropWhile (fun c => !endsReference c) ≠ ';' :: rest) :
    unescape? ('&' :: cs) = none := by
  rw [unescape?, if_pos rfl]
  split
  · next rest hfound => exact absurd hfound (h rest)
  · rfl

theorem unescape?_cons {c : Char} (hc : c ≠ '&') (cs : List Char) :
    unescape? (c :: cs) = (unescape? cs).map (c :: ·) := by
  rw [unescape?, if_neg hc]

theorem unescape?_plain {mid : List Char} (h : ∀ c ∈ mid, c ≠ '&') (back : List Char) :
    unescape? (mid ++ back) = (unescape? back).map (mid ++ ·) := by
  induction mid with
  | nil => exact Option.map_id'.symm
  | cons c mid ih =>
    obtain ⟨hc, hmid⟩ := List.forall_mem_cons.mp h
    rw [List.cons_append, unescape?_cons hc, ih hmid, Option.map_map]
    rfl

/-! ## 2. Characters among references -/

theorem Inert.not_endsReference {mid : List Char} (h : Inert mid) :
    ∀ c ∈ mid, (!endsReference c) = true := by
  intro c hc
  have hne : ∀ d ∈ reserved, c ≠ d := fun d hd heq => h.plain c hc (heq ▸ hd)
  have hand : c ≠ '&' := hne '&' (by simp [reserved])
  have hsemicolon : c ≠ ';' := hne ';' (by simp [reserved])
  simp [endsReference, hand, hsemicolon]

theorem exists_of_dropWhile {p : Char → Bool} {cs rest : List Char} {c : Char}
    (h : cs.dropWhile p = c :: rest) :
    ∃ name, cs = name ++ c :: rest ∧ cs.takeWhile p = name ∧ ∀ d ∈ name, p d = true := by
  refine ⟨cs.takeWhile p, ?_, rfl, fun d hd => List.mem_takeWhile_imp hd⟩
  rw [← h, List.takeWhile_append_dropWhile]

/-- A reference that has not ended before inert characters is a bad one: its name would go on over
    them. -/
theorem unescape?_open {cs mid : List Char} (hmid : Inert mid)
    (h : ∀ rest, cs.dropWhile (fun c => !endsReference c) ≠ ';' :: rest) (back : List Char) :
    unescape? ('&' :: (cs ++ (mid ++ back))) = none := by
  cases hdrop : cs.dropWhile (fun c => !endsReference c) with
  | cons c rest =>
    -- another reference begins before this one has ended
    obtain ⟨name, rfl, _, hname⟩ := exists_of_dropWhile hdrop
    have hc : (!endsReference c) = false := Format.stopsRun_dropWhile _ _ c (by rw [hdrop]; rfl)
    refine unescape?_unclosed fun rest' hfound => h rest ?_
    rw [List.append_assoc, List.cons_append,
      Format.dropWhile_append_of_stopsRun hname (Format.stopsRun_cons hc)] at hfound
    rw [hdrop, (List.cons.inj hfound).1]
  | nil =>
    have hall : ∀ c ∈ cs ++ mid, (!endsReference c) = true := by
      intro c hc
      rcases List.mem_append.mp hc with hc | hc
      · exact List.dropWhile_eq_nil_iff.mp hdrop c hc
      · exact hmid.not_endsReference c hc
    rw [← List.append_assoc]
    cases hback : back.dropWhile (fun c => !endsReference c) with
    | nil =>
      refine unescape?_unclosed fun rest' hfound => ?_
      rw [List.dropWhile_append_of_pos hall, hback] at hfound
      cases hfound
    | cons c rest =>
      obtain ⟨name, rfl, _, hname⟩ := exists_of_dropWhile hback
      by_cases hc : c = ';'
      · have hlong : ∀ d ∈ cs ++ mid ++ name, (!endsReference d) = true := by
          intro d hd
          rcases List.mem_append.mp hd with hd | hd
          · exact hall d hd
          · exact hname d hd
        have hsign : '%' ∈ cs ++ mid ++ name :=
          List.mem_append_left _ (List.mem_append_right _ hmid.sign)
        rw [hc, ← List.append_assoc, unescape?_reference hlong, entity?_eq_none hsign]
        rfl
      · refine unescape?_unclosed fun rest' hfound => ?_
        rw [List.dropWhile_append_of_pos hall, hback] at hfound
        exact hc (List.cons.inj hfound).1

/-- **Inert characters stay as they are, and the references on both sides are replaced for
    themselves.** -/
theorem unescape?_inert {mid : List Char} (hmid : Inert mid) (front back : List Char) :
    unescape? (front ++ (mid ++ back)) =
      (unescape? front).bind fun f => (unescape? back).map fun b => f ++ (mid ++ b) := by
  fun_induction unescape? front with
  | case1 =>
    have hand : ∀ c ∈ mid, c ≠ '&' := fun c hc heq =>
      hmid.plain c hc (heq ▸ by simp [reserved])
    exact unescape?_plain hand back
  | case2 cs rest hfound denoted hentity ih =>
    obtain ⟨name, rfl, htake, hname⟩ := exists_of_dropWhile hfound
    rw [htake] at hentity
    rw [List.cons_append, List.append_assoc, List.cons_append, unescape?_reference hname, hentity]
    dsimp only [Option.bind_some]
    rw [ih]
    cases unescape? rest <;> cases unescape? back <;> rfl
  | case3 cs rest hfound hentity =>
    obtain ⟨name, rfl, htake, hname⟩ := exists_of_dropWhile hfound
    rw [htake] at hentity
    rw [List.cons_append, List.append_assoc, List.cons_append, unescape?_reference hname, hentity]
    rfl
  | case4 cs hother => exact unescape?_open hmid hother back
  | case5 c cs hc ih =>
    rw [List.cons_append, unescape?_cons hc, ih]
    cases unescape? cs <;> cases unescape? back <;> rfl

/-- Around inert characters the rest is read in one way, whatever they are; before them it stays as
    it is if no reference begins there. -/
theorem decode_inert (front back : List Char) :
    ∃ f b, ('&' ∉ front → f = front) ∧
      ∀ mid, Inert mid → decode (front ++ (mid ++ back)) = f ++ (mid ++ b) := by
  have hplain : '&' ∉ front → unescape? front = some front := by
    intro hnone
    have hread := unescape?_plain (fun c hc heq => hnone (heq ▸ hc)) []
    rw [List.append_nil] at hread
    rw [hread, unescape?]
    simp
  cases hf : unescape? front with
  | none =>
    refine ⟨front, back, fun _ => rfl, fun mid hmid => ?_⟩
    rw [decode, unescape?_inert hmid, hf]
    rfl
  | some f =>
    cases hb : unescape? back with
    | none =>
      refine ⟨front, back, fun _ => rfl, fun mid hmid => ?_⟩
      rw [decode, unescape?_inert hmid, hf, hb]
      rfl
    | some b =>
      refine ⟨f, b, fun hnone => ?_, fun mid hmid => ?_⟩
      · exact Option.some.inj (hf.symm.trans (hplain hnone))
      · rw [decode, unescape?_inert hmid, hf, hb]
        rfl

/-! ## 3. What events add to a text -/

/-- The characters that an event adds to the text of an element. -/
def Event.characters : Event → List Char
  | .text written => decode written
  | .cdata written => written
  | _ => []

theorem Event.withData_self {e : Event} {w : List Char} (h : e.data? = some w) :
    e.withData w = e := by
  cases e with
  | text | cdata => exact congrArg _ (Option.some.inj h).symm
  | start | empty | close | other => rfl

theorem Event.data?_withData {e : Event} {w : List Char} (h : e.data? = some w) (w' : List Char) :
    (e.withData w').data? = some w' := by
  cases e with
  | text | cdata => rfl
  | start | empty | close | other => cases h

/-- Around inert characters an event adds the same text, whatever they are. -/
theorem Event.characters_inert {e : Event} {w : List Char} (h : e.data? = some w)
    (front back : List Char) : ∃ f b, ('&' ∉ front → f = front) ∧ ∀ mid, Inert mid →
      (e.withData (front ++ (mid ++ back))).characters = f ++ (mid ++ b) := by
  cases e with
  | text => exact decode_inert front back
  | cdata => exact ⟨front, back, fun _ => rfl, fun _ _ => rfl⟩
  | start | empty | close | other => cases h

end AndroidLint.Xml
