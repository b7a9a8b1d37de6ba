/-
  File:      AndroidLint/Proofs/XmlAttributes.lean
  Subject:   Where the attributes of a tag stand in the text.

  Reading goes through the tag from left to right, and every offset it notes is that of a place it
  has come to. So the attributes lie in the tag one behind the other, each with its value in it:

  * `Attribute.read_spans`:     one attribute, between the places before and after it;
  * `attributesFrom_spread`:    all attributes from a place on;
  * `attributesOf_writtenTag`:  the attributes of a tag of the text.
-/
import AndroidLint.Proofs.XmlEvents
import AndroidLint.Xml.Attribute

namespace AndroidLint.Xml

open Text

/-! ## 1. Answers of a reading that may fail -/

theorem exists_of_map_eq_ok {ε α β : Type} {x : Except ε α} {f : α → β} {b : β}
    (h : x.map f = .ok b) : ∃ a, x = .ok a ∧ f a = b := by
  cases x with
  | error e => cases h
  | ok a => exact ⟨a, rfl, Except.ok.inj h⟩

theorem exists_of_bind_eq_ok {ε α β : Type} {x : Except ε α} {f : α → Except ε β} {b : β}
    (h : (x >>= f) = .ok b) : ∃ a, x = .ok a ∧ f a = .ok b := by
  cases x with
  | error e => cases h
  | ok a => exact ⟨a, rfl, h⟩

/-! ## 2. Places in a tag -/

namespace TagRest

/-- The place is reached from another one by going over some characters. -/
def Leads (r s : TagRest) : Prop :=
  ∃ front, r.text = front ++ s.text ∧ s.offset = r.offset + width front ∧ s.torn = r.torn

theorem Leads.refl (r : TagRest) : r.Leads r := ⟨[], rfl, rfl, rfl⟩

theorem Leads.trans {r s t : TagRest} (hrs : r.Leads s) (hst : s.Leads t) : r.Leads t := by
  obtain ⟨front, htext, hoffset, htorn⟩ := hrs
  obtain ⟨more, htext', hoffset', htorn'⟩ := hst
  refine ⟨front ++ more, ?_, ?_, htorn'.trans htorn⟩
  · rw [htext, htext', List.append_assoc]
  · rw [hoffset', hoffset, width_append, Nat.add_assoc]

theorem Leads.le {r s : TagRest} (h : r.Leads s) : r.offset ≤ s.offset := by
  obtain ⟨front, _, hoffset, _⟩ := h
  rw [hoffset]
  exact Nat.le_add_right _ _

/-- The end of the tag stays where it is. -/
theorem Leads.stop {r s : TagRest} (h : r.Leads s) :
    s.offset + width s.text = r.offset + width r.text := by
  obtain ⟨front, htext, hoffset, _⟩ := h
  rw [htext, hoffset, width_append, Nat.add_assoc]

theorem leads_take (p : Char → Bool) (r : TagRest) : r.Leads (r.take p).2 :=
  ⟨r.text.takeWhile p, List.takeWhile_append_dropWhile.symm, rfl, rfl⟩

theorem leads_skipBlanks (r : TagRest) : r.Leads r.skipBlanks := leads_take isTagBlank r

theorem takeWhole_eq {p : Char → Bool} {r s : TagRest} {front : List Char}
    (h : r.takeWhole p = .ok (front, s)) : s = (r.take p).2 := by
  simp only [takeWhole] at h
  split at h
  · cases h
  · exact (Prod.mk.inj (Except.ok.inj h)).2.symm

/-- A run that goes on to a character ends there, or with the tag. -/
theorem eq_of_takeWhole {c d : Char} {r s : TagRest} {front text : List Char}
    (h : r.takeWhole (· != c) = .ok (front, s)) (hs : s.text = d :: text) : d = c := by
  have hstop := List.head?_dropWhile_not (· != c) r.text
  have hhead : (r.text.dropWhile (· != c)).head? = some d := by
    show (r.take (· != c)).2.text.head? = some d
    rw [← takeWhole_eq h, hs]
    rfl
  rw [hhead] at hstop
  simpa using hstop

/-- A character of one byte leads to the place behind it. -/
theorem leads_next {r : TagRest} {c : Char} {text : List Char} (hr : r.text = c :: text)
    (hc : c.utf8Size = 1) : r.Leads { r with offset := r.offset + 1, text } :=
  ⟨[c], hr, by rw [width_cons, hc, width_nil], rfl⟩

/-- The places of a text in which a place stands are boundaries of the text. -/
theorem Leads.isBoundary {contents before behind : List Char} {r s : TagRest}
    (hc : contents = before ++ r.text ++ behind) (ho : r.offset = width before) (h : r.Leads s) :
    isBoundary contents s.offset = true := by
  obtain ⟨front, htext, hoffset, _⟩ := h
  have hparts : contents = (before ++ front) ++ (s.text ++ behind) := by
    rw [hc, htext]
    simp only [List.append_assoc]
  rw [hparts, hoffset, ho, ← width_append]
  exact isBoundary_width _ _

end TagRest

/-! ## 3. One attribute -/

/-- The attribute takes the characters between two places, and its value some between those. -/
structure Attribute.Spans (a : Attribute) (r s : TagRest) : Prop where
  range : a.range = ⟨r.offset, s.offset⟩
  nonempty : r.offset < s.offset
  value : ∃ v w, r.Leads v ∧ v.Leads w ∧ w.Leads s ∧ a.valueRange = ⟨v.offset, w.offset⟩

theorem Attribute.Spans.leads {a : Attribute} {r s : TagRest} (h : a.Spans r s) : r.Leads s := by
  obtain ⟨v, w, hrv, hvw, hws, _⟩ := h.value
  exact hrv.trans (hvw.trans hws)

/-- What stands in quotes, and the place behind the closing one. -/
theorem Attribute.readValue_spans {name : String} {begin r s : TagRest} {a : Attribute}
    (hbegin : begin.Leads r) (h : Attribute.readValue name begin.offset r = .ok (a, s)) :
    a.Spans begin s := by
  unfold Attribute.readValue at h
  split at h
  · cases h
  · next quote text hr =>
    split at h
    · next hquote =>
      have hsize : quote.utf8Size = 1 := by rcases hquote with rfl | rfl <;> rfl
      have hinside := TagRest.leads_next hr hsize
      dsimp only at h
      split at h
      · cases h
      · next written rest hwhole =>
        have hrest := TagRest.leads_take (· != quote) { r with offset := r.offset + 1, text }
        rw [← TagRest.takeWhole_eq hwhole] at hrest
        obtain ⟨hattribute, hafter⟩ := Prod.mk.inj (Except.ok.inj h)
        -- the closing quote is the one that the run stopped at, if the tag has one
        have hclose : rest.Leads s := by
          rw [← hafter]
          split
          · exact TagRest.Leads.refl rest
          · next c text' hc =>
            rw [TagRest.eq_of_takeWhole hwhole hc] at hc
            exact TagRest.leads_next hc hsize
        refine ⟨by rw [← hattribute, ← hafter], ?_, ?_⟩
        · have hlt : r.offset < r.offset + 1 := Nat.lt_succ_self _
          have hle := hbegin.le
          have hle' := hrest.le
          have hle'' := hclose.le
          dsimp only at hle'
          omega
        · exact ⟨_, rest, hbegin.trans hinside, hrest, hclose, by rw [← hattribute]⟩
    · cases h

/-- **An attribute takes the characters between the places before and after it.** -/
theorem Attribute.read_spans {r s : TagRest} {a : Attribute} (h : Attribute.read r = .ok (a, s)) :
    a.Spans r s := by
  unfold Attribute.read at h
  split at h
  · cases h
  · next written rest hwhole =>
    have hrest := TagRest.leads_take isNameChar r
    rw [← TagRest.takeWhole_eq hwhole] at hrest
    dsimp only at h
    split at h
    · next text hsign =>
      have hvalue := TagRest.leads_next hsign rfl
      refine Attribute.readValue_spans ?_ h
      exact (hrest.trans (rest.leads_skipBlanks.trans hvalue)).trans (TagRest.leads_skipBlanks _)
    · cases h

/-! ## 4. All attributes of a tag -/

/-- **The attributes from a place on follow each other up to the end of the tag**, each between two
    places that are reached from there. -/
theorem attributesFrom_spread {r : TagRest} {as : List Attribute}
    (h : attributesFrom r = .ok as) :
    ByteRange.InOrder r.offset (r.offset + width r.text) (as.map (·.range)) ∧
      ∀ a ∈ as, ∃ s t, r.Leads s ∧ a.Spans s t := by
  fun_induction attributesFrom r generalizing as with
  | case1 r next =>
    cases h
    exact ⟨Nat.le_add_right _ _, fun _ h => nomatch h⟩
  | case2 r next =>
    cases h
    exact ⟨Nat.le_add_right _ _, fun _ h => nomatch h⟩
  | case3 => cases h
  | case4 r next hmore hopen a rest hread =>
    rename_i ih
    obtain ⟨others, hrest, rfl⟩ := exists_of_map_eq_ok h
    obtain ⟨horder, hspans⟩ := ih hrest
    have hnext : r.Leads next := r.leads_skipBlanks
    have ha : a.Spans next rest := Attribute.read_spans hread
    have hlead : r.Leads rest := hnext.trans ha.leads
    rw [hlead.stop] at horder
    refine ⟨?_, fun b hb => ?_⟩
    · rw [List.map_cons, ByteRange.InOrder, ha.range]
      exact ⟨hnext.le, ha.nonempty, horder⟩
    · rcases List.mem_cons.mp hb with rfl | hb
      · exact ⟨next, rest, hnext, ha⟩
      · obtain ⟨s, t, hs, ht⟩ := hspans b hb
        exact ⟨s, t, hlead.trans hs, ht⟩

/-- What is said of the attributes of a tag: they follow each other between two offsets, and each
    fits in the text together with its value, which lies inside it. -/
structure AttributesIn (contents : List Char) (low high : Nat) (as : List Attribute) : Prop where
  order : ByteRange.InOrder low high (as.map (·.range))
  fits : ∀ a ∈ as, a.range.FitsIn contents ∧ a.valueRange.FitsIn contents ∧
    a.valueRange.Inside a.range

/-- The attributes from a place in the text on lie in the text. -/
theorem attributesFrom_in {r : TagRest} {as : List Attribute} (h : attributesFrom r = .ok as)
    (before behind : List Char) (ho : r.offset = width before) :
    AttributesIn (before ++ r.text ++ behind) r.offset (r.offset + width r.text) as := by
  obtain ⟨horder, hspans⟩ := attributesFrom_spread h
  have hfits : ∀ {s t : TagRest}, r.Leads s → s.Leads t →
      ByteRange.FitsIn (before ++ r.text ++ behind) ⟨s.offset, t.offset⟩ := by
    intro s t hs ht
    refine ⟨ht.le, ?_, hs.isBoundary rfl ho, (hs.trans ht).isBoundary rfl ho⟩
    have hstop := (hs.trans ht).stop
    rw [width_append, width_append, ← ho]
    show t.offset ≤ _
    omega
  refine ⟨horder, fun a ha => ?_⟩
  obtain ⟨s, t, hs, hspan⟩ := hspans a ha
  obtain ⟨v, w, hsv, hvw, hwt, hvalue⟩ := hspan.value
  rw [hspan.range, hvalue]
  exact ⟨hfits hs hspan.leads, hfits (hs.trans hsv) hvw, hsv.le, hwt.le⟩

/-- The attributes of a tag are read from what stands behind its name. -/
theorem attributesOf_eq_attributesFrom (before name inner behind : List Char) :
    attributesOf (before ++ writtenTag name inner ++ behind)
      ⟨width before, width before + width (writtenTag name inner)⟩ (width name) =
      attributesFrom ⟨width (before ++ '<' :: name), inner ++ ['>'], false⟩ := by
  have hparts : before ++ writtenTag name inner ++ behind =
      (before ++ '<' :: name) ++ ((inner ++ ['>']) ++ behind) := by
    simp only [writtenTag, List.append_assoc, List.cons_append]
  have hstart : width before + 1 + width name = width (before ++ '<' :: name) := by
    simp only [width_append, width_cons, show '<'.utf8Size = 1 from rfl, Nat.add_assoc]
  have hstop : width before + width (writtenTag name inner) =
      width (before ++ '<' :: name) + width (inner ++ ['>']) := by
    rw [← width_append, ← width_append]
    simp only [writtenTag, List.append_assoc, List.cons_append]
  have hpos : 0 < width (inner ++ ['>']) := width_pos (by simp)
  have hbound : width before + width (writtenTag name inner) ≤
      width (before ++ writtenTag name inner ++ behind) := by
    simp only [width_append]
    omega
  have hlen : width before + width (writtenTag name inner) - width (before ++ '<' :: name) =
      width (inner ++ ['>']) := by omega
  unfold attributesOf
  dsimp only
  rw [Nat.min_eq_left hbound, if_neg (by omega), hstart, hparts, cut?_width_append]
  dsimp only
  rw [hlen, before_width, decide_eq_false (Nat.lt_irrefl _)]

/-- **The attributes of a tag of the text lie between its name and its end.** -/
theorem attributesOf_writtenTag {before name inner behind : List Char} {as : List Attribute}
    (h : attributesOf (before ++ writtenTag name inner ++ behind)
      ⟨width before, width before + width (writtenTag name inner)⟩ (width name) = .ok as) :
    AttributesIn (before ++ writtenTag name inner ++ behind) (width before + 1 + width name)
      (width before + width (writtenTag name inner)) as := by
  rw [attributesOf_eq_attributesFrom] at h
  have hin := attributesFrom_in h (before ++ '<' :: name) behind rfl
  simp only [writtenTag, width_append, width_cons, show '<'.utf8Size = 1 from rfl,
    List.append_assoc, List.cons_append, ← Nat.add_assoc] at hin ⊢
  exact hin

end AndroidLint.Xml
