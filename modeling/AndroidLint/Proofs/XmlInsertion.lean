/-
  File:      AndroidLint/Proofs/XmlInsertion.lean
  Subject:   The tree of a text in which a tag was given one more attribute.

  An attribute that is put in behind the name of a tag changes nothing but that tag, as long as its
  own quotes are paired and it binds no namespace. All other events stay, those behind the tag moved
  by the width of the attribute, and the tree gains the attribute where the tag begins:

  * `cutTag?_insert`:       the tag ends at the same `>`;
  * `Piece.event_insert`:   it begins the same element;
  * `attributesOf_insert`:  the attribute is read in front of the others;
  * `Builder.Gained.step`:  what one event behind the tag keeps;
  * `parse_insert`:         the tree of the text with the attribute.
-/
import AndroidLint.Proofs.AttributeRendering
import AndroidLint.Proofs.XmlReplacement

namespace AndroidLint.Xml

open Text

/-! ## 1. Where the tag ends -/

/-- Characters of a tag that begin no quoted text and do not end the tag. -/
def PlainInTag (cs : List Char) : Prop := ∀ c ∈ cs, c ≠ '>' ∧ c ≠ '\'' ∧ c ≠ '"'

theorem cutTag?_plain {plain : List Char} (h : PlainInTag plain) (cs : List Char) :
    cutTag? none (plain ++ cs) = (cutTag? none cs).map fun p => (plain ++ p.1, p.2) := by
  induction plain with
  | nil => simp
  | cons c plain ih =>
    obtain ⟨⟨hclose, happ, hquote⟩, hplain⟩ := List.forall_mem_cons.mp h
    rw [List.cons_append, cutTag?]
    dsimp only
    rw [if_neg hclose, if_neg (not_or.mpr ⟨happ, hquote⟩), ih hplain, Option.map_map]
    rfl

theorem cutTag?_quoted {quote : Char} {value : List Char} (h : quote ∉ value) (cs : List Char) :
    cutTag? (some quote) (value ++ quote :: cs) =
      (cutTag? none cs).map fun p => (value ++ quote :: p.1, p.2) := by
  induction value with
  | nil =>
    rw [List.nil_append, cutTag?]
    dsimp only
    rw [if_pos rfl]
    rfl
  | cons c value ih =>
    have hc : c ≠ quote := fun heq => h (heq ▸ List.mem_cons_self)
    rw [List.cons_append, cutTag?]
    dsimp only
    rw [if_neg hc, ih (fun hmem => h (List.mem_cons_of_mem c hmem)), Option.map_map]
    rfl

/-- The attribute can stand behind the name of a tag: a blank is between them, and the name of the
    attribute has no quotes. -/
structure WrittenAttribute.Fits (w : WrittenAttribute) : Prop where
  gap : ∃ c cs, w.gap.val = c :: cs ∧ isNameBlank c = true
  name : ∀ c ∈ w.name, c ≠ '\'' ∧ c ≠ '"'

namespace WrittenAttribute

variable {w : WrittenAttribute}

theorem plainInTag_blanks (blanks : Blanks) : PlainInTag blanks.val := by
  intro c hc
  have hblank := blanks.property c hc
  refine ⟨?_, ?_, ?_⟩ <;> rintro rfl <;> exact absurd hblank (by decide)

/-- What stands before the opening quote is plain. -/
theorem Fits.cutTag? (h : w.Fits) (cs : List Char) :
    cutTag? none (w.text ++ cs) = (cutTag? none cs).map fun p => (w.text ++ p.1, p.2) := by
  have hplain : PlainInTag
      (w.gap.val ++ (w.name ++ (w.beforeSign.val ++ '=' :: w.behindSign.val))) := by
    intro c hc
    simp only [List.mem_append, List.mem_cons] at hc
    rcases hc with hc | hc | hc | rfl | hc
    · exact plainInTag_blanks w.gap c hc
    · exact ⟨(w.name_plain c hc).2.1, h.name c hc⟩
    · exact plainInTag_blanks w.beforeSign c hc
    · decide
    · exact plainInTag_blanks w.behindSign c hc
  have hquote : ∀ rest, Xml.cutTag? none (w.quote :: rest) =
      (Xml.cutTag? (some w.quote) rest).map fun p => (w.quote :: p.1, p.2) := by
    intro rest
    have hclose : w.quote ≠ '>' := by rcases w.isQuote with h | h <;> rw [h] <;> decide
    rw [Xml.cutTag?]
    dsimp only
    rw [if_neg hclose, if_pos w.isQuote.symm]
  have hparts : w.text ++ cs =
      (w.gap.val ++ (w.name ++ (w.beforeSign.val ++ '=' :: w.behindSign.val))) ++
        w.quote :: (w.value ++ w.quote :: cs) := by
    simp [text, body, opening]
  rw [hparts, cutTag?_plain hplain, hquote, cutTag?_quoted w.value_open, Option.map_map,
    Option.map_map]
  congr 1
  funext p
  simp [text, body, opening]

end WrittenAttribute

/-- **The tag with the attribute ends at the same `>`.** -/
theorem cutTag?_insert {w : WrittenAttribute} (hw : w.Fits) {name inner cs rest : List Char}
    (hname : PlainInTag name) (h : cutTag? none (name ++ cs) = some (name ++ inner, rest)) :
    cutTag? none (name ++ (w.text ++ cs)) = some (name ++ (w.text ++ inner), rest) := by
  rw [cutTag?_plain hname] at h ⊢
  obtain ⟨⟨inside, more⟩, hcut, hparts⟩ := Option.map_eq_some_iff.mp h
  obtain ⟨hinside, rfl⟩ := Prod.mk.inj hparts
  obtain rfl := List.append_cancel_left hinside
  rw [hw.cutTag?, hcut]
  rfl

/-- No other markup begins like the text. -/
def BeginsTag (cs : List Char) : Prop := ∀ c, cs.head? = some c → c ≠ '/' ∧ c ≠ '?' ∧ c ≠ '!'

theorem Piece.read_eq_tag_iff {cs content used rest : List Char} :
    Piece.read cs = .piece (.tag content) used rest ↔
      BeginsTag cs ∧ cutTag? none cs = some (content, rest) ∧ used = content ++ ['>'] := by
  constructor
  · intro h
    have hused := Piece.used_of_tag h
    unfold Piece.read at h
    split at h
    · cases h
    · obtain ⟨_, hmake⟩ := Reading.exists_of_upToClose h
      cases hmake
    · obtain ⟨_, hmake⟩ := Reading.exists_of_upToClose h
      cases hmake
    · split at h
      · cases h
      · obtain ⟨_, hmake⟩ := Reading.exists_of_bang h
        cases hmake
      · obtain ⟨_, hmake⟩ := Reading.exists_of_bang h
        cases hmake
      · obtain ⟨_, hmake⟩ := Reading.exists_of_bang h
        cases hmake
      · obtain ⟨_, hmake⟩ := Reading.exists_of_bang h
        cases hmake
      · cases h
    · next c cs hslash hquestion hbang =>
      split at h
      · next hcut =>
        cases h
        refine ⟨fun d hd => ?_, hcut, hused⟩
        obtain rfl := Option.some.inj hd
        exact ⟨hslash, hquestion, hbang⟩
      · cases h
  · rintro ⟨hbegins, hcut, rfl⟩
    cases cs with
    | nil => cases hcut
    | cons c cs =>
      obtain ⟨hslash, hquestion, hbang⟩ := hbegins c rfl
      rw [Piece.read, hcut]
      · exact hslash
      · exact hquestion
      · exact hbang

/-- The tag with the attribute is one piece of markup again. -/
theorem Piece.read_insert {w : WrittenAttribute} (hw : w.Fits) {name inner used rest : List Char}
    (hne : name ≠ []) (hname : PlainInTag name)
    (h : Piece.read (used ++ rest) = .piece (.tag (name ++ inner)) used rest) :
    Piece.read (name ++ (w.text ++ inner) ++ ['>'] ++ rest) =
      .piece (.tag (name ++ (w.text ++ inner))) (name ++ (w.text ++ inner) ++ ['>']) rest := by
  obtain ⟨hbegins, hcut, rfl⟩ := Piece.read_eq_tag_iff.mp h
  simp only [List.append_assoc] at hcut hbegins ⊢
  refine Piece.read_eq_tag_iff.mpr ⟨?_, cutTag?_insert hw hname hcut, by simp⟩
  obtain ⟨c, cs, rfl⟩ := List.exists_cons_of_ne_nil hne
  exact hbegins

/-! ## 2. What the tag begins -/

theorem WrittenAttribute.Fits.takeWhile {w : WrittenAttribute} (hw : w.Fits) {name : List Char}
    (hname : ∀ c ∈ name, (!isNameBlank c) = true) (inner : List Char) :
    (name ++ (w.text ++ inner)).takeWhile (fun c => !isNameBlank c) = name := by
  obtain ⟨c, cs, hgap, hblank⟩ := hw.gap
  have hstop : Format.StopsRun (fun c => !isNameBlank c) (w.text ++ inner) := by
    rw [WrittenAttribute.text, hgap]
    exact Format.stopsRun_cons (by rw [hblank]; rfl)
  exact Format.takeWhile_append_of_stopsRun hname hstop

/-- The last character of the tag is its own, or the closing quote of the attribute. -/
theorem WrittenAttribute.getLast?_text_append (w : WrittenAttribute) (name inner : List Char) :
    (name ++ (w.text ++ inner)).getLast? = some (inner.getLast?.getD w.quote) := by
  have htext : w.text = w.gap.val ++ w.opening ++ w.value ++ [w.quote] := by
    simp [text, body]
  rw [htext]
  cases hlast : inner.getLast? with
  | none => simp [List.getLast?_eq_none_iff.mp hlast]
  | some c =>
    rw [← List.append_assoc, List.getLast?_append, hlast, Option.some_or, Option.getD_some]

/-- A name that a tag begins with has no blanks, and a tag that is a whole element has more than
    its name. -/
theorem Piece.name_of_event {name inner : List Char} {event : Event}
    {opened opened' : List (List Char)}
    (h : (Piece.tag (name ++ inner)).event opened = .ok (event, opened'))
    (hbegins : event.Begins name) :
    (∀ c ∈ name, (!isNameBlank c) = true) ∧
      (event = .start name ∧ opened' = name :: opened ∧ inner.getLast? ≠ some '/' ∨
        event = .empty name ∧ opened' = opened ∧ inner.getLast? = some '/') := by
  have hall : ∀ c ∈ (name ++ inner).takeWhile (fun c => !isNameBlank c), (!isNameBlank c) = true :=
    fun c hc => List.mem_takeWhile_imp (p := fun c => !isNameBlank c) hc
  simp only [Piece.event] at h
  split at h
  · next hlast =>
    obtain ⟨hevent, rfl⟩ := Prod.mk.inj (Except.ok.inj h)
    rcases hbegins with rfl | rfl
    · cases hevent
    have hname := Event.empty.inj hevent
    have hinner : inner ≠ [] := by
      rintro rfl
      rw [List.append_nil] at hname hlast
      split at hname
      · next hlt =>
        rw [hname] at hlt
        exact Nat.lt_irrefl _ hlt
      · have hlength := congrArg List.length hname
        have hpos := List.length_pos_of_ne_nil (List.ne_nil_of_mem (List.mem_of_getLast? hlast))
        rw [List.length_dropLast] at hlength
        omega
    refine ⟨?_, .inr ⟨rfl, rfl, ?_⟩⟩
    · split at hname
      · rwa [hname] at hall
      · next hlt =>
        -- all of the tag is in the run that ends at a blank
        have hwhole := (List.takeWhile_prefix (l := name ++ inner)
          fun c => !isNameBlank c).eq_of_length_le (Nat.le_of_not_lt hlt)
        rw [hwhole] at hall
        exact fun c hc => hall c (List.mem_append_left _ hc)
    · rwa [List.getLast?_append_of_ne_nil _ hinner] at hlast
  · next hlast =>
    obtain ⟨hevent, rfl⟩ := Prod.mk.inj (Except.ok.inj h)
    rcases hbegins with rfl | rfl
    · have hname := Event.start.inj hevent
      rw [hname] at hall ⊢
      refine ⟨hall, .inl ⟨rfl, rfl, fun hinner => hlast ?_⟩⟩
      rw [List.getLast?_append, hinner]
      rfl
    · cases hevent

/-- **The tag with the attribute begins the same element.** -/
theorem Piece.event_insert {w : WrittenAttribute} (hw : w.Fits) {name inner : List Char}
    {event : Event} {opened opened' : List (List Char)}
    (h : (Piece.tag (name ++ inner)).event opened = .ok (event, opened'))
    (hbegins : event.Begins name) :
    (Piece.tag (name ++ (w.text ++ inner))).event opened = .ok (event, opened') := by
  obtain ⟨hname, hkind⟩ := Piece.name_of_event h hbegins
  simp only [Piece.event, hw.takeWhile hname, w.getLast?_text_append, Option.some.injEq]
  rcases hkind with ⟨rfl, rfl, hlast⟩ | ⟨rfl, rfl, hlast⟩
  · rw [if_neg]
    cases hinner : inner.getLast? with
    | none =>
      rcases w.isQuote with hquote | hquote <;> rw [Option.getD_none, hquote] <;> decide
    | some c =>
      rw [hinner] at hlast
      exact fun heq => hlast (congrArg some heq)
  · have hlonger : name.length < (name ++ (w.text ++ inner)).length := by
      have hinner := List.length_pos_of_ne_nil (List.ne_nil_of_mem (List.mem_of_getLast? hlast))
      simp only [List.length_append]
      omega
    rw [hlast, Option.getD_some, if_pos rfl, if_pos hlonger]

/-! ## 3. The attributes of the tag -/

/-- **The attribute is read in front of the others**, which stay as they are, up to their places. -/
theorem attributesOf_insert {before before' behind behind' name inner : List Char}
    {as : List Attribute} (w : WrittenAttribute)
    (h : attributesOf (before ++ writtenTag name inner ++ behind)
      ⟨width before, width before + width (writtenTag name inner)⟩ (width name) = .ok as) :
    ∃ as', attributesOf (before' ++ writtenTag name (w.text ++ inner) ++ behind')
        ⟨width before', width before' + width (writtenTag name (w.text ++ inner))⟩ (width name) =
          .ok as' ∧
      as'.map Attribute.unplaced = (w.placedAt 0).unplaced :: as.map Attribute.unplaced := by
  rw [attributesOf_eq_attributesFrom] at h ⊢
  generalize width (before' ++ '<' :: name) = offset
  obtain ⟨c, cs, hbody, hends, hblank⟩ := w.exists_head (inner ++ ['>'])
  have hskip : TagRest.skipBlanks ⟨offset, w.text ++ inner ++ ['>'], false⟩ =
      ⟨offset + width w.gap.val, w.body ++ (inner ++ ['>']), false⟩ := by
    rw [WrittenAttribute.text, List.append_assoc, List.append_assoc]
    refine TagRest.skipBlanks_run w.gap ?_ offset false
    rw [hbody]
    exact Format.stopsRun_cons hblank
  have hround := attributesFrom_round (by rw [hskip]; exact hbody) hends
    (by rw [hskip]; exact w.read (offset + width w.gap.val) (inner ++ ['>']))
  have hrest : TagRest.SameText ⟨width (before ++ '<' :: name), inner ++ ['>'], false⟩
      ⟨offset + width w.gap.val + width w.body, inner ++ ['>'], false⟩ := ⟨rfl, rfl⟩
  obtain ⟨others, hothers, hsame⟩ := attributesFrom_sameText hrest h
  refine ⟨w.placedAt (offset + width w.gap.val) :: others, ?_, ?_⟩
  · rw [hround, hothers]
    rfl
  · rw [List.map_cons, hsame]
    rfl

/-- The characters of a run pass its test. -/
theorem TagRest.of_mem_takeWhole {p : Char → Bool} {r s : TagRest} {front : List Char}
    (h : r.takeWhole p = .ok (front, s)) : ∀ c ∈ front, p c = true := by
  simp only [takeWhole] at h
  split at h
  · cases h
  · obtain ⟨rfl, _⟩ := Prod.mk.inj (Except.ok.inj h)
    exact fun c hc => List.mem_takeWhile_imp hc

theorem Attribute.readValue_name {name : String} {start : Nat} {r s : TagRest} {a : Attribute}
    (h : Attribute.readValue name start r = .ok (a, s)) : a.name = name := by
  unfold Attribute.readValue at h
  split at h
  · cases h
  · split at h
    · dsimp only at h
      split at h
      · cases h
      · cases h
        rfl
    · cases h

theorem Attribute.read_name {r s : TagRest} {a : Attribute} (h : Attribute.read r = .ok (a, s)) :
    ∀ c ∈ a.name.toList, isNameChar c = true := by
  unfold Attribute.read at h
  split at h
  · cases h
  · next written inner htake =>
    dsimp only at h
    split at h
    · rw [Attribute.readValue_name h, String.toList_ofList]
      exact TagRest.of_mem_takeWhole htake
    · cases h

theorem attributesFrom_names {r : TagRest} {as : List Attribute} (h : attributesFrom r = .ok as) :
    ∀ a ∈ as, ∀ c ∈ a.name.toList, isNameChar c = true := by
  fun_induction attributesFrom r generalizing as with
  | case1 | case2 =>
    cases h
    exact List.forall_mem_nil _
  | case3 => cases h
  | case4 r next hopen hclose a rest hread =>
    rename_i ih
    obtain ⟨others, hothers, rfl⟩ := exists_of_map_eq_ok h
    exact List.forall_mem_cons.mpr ⟨Attribute.read_name hread, ih hothers⟩

/-- **The names of all attributes in a tree are made of the characters of names.** -/
theorem parse_names {contents : List Char} {root e : Element} {a : Attribute}
    (h : parse contents = .ok root) (he : e.Within root) (ha : a ∈ e.attributes) :
    ∀ c ∈ a.name.toList, isNameChar c = true := by
  obtain ⟨_, _, _, _, as, scope, hread, hattributes⟩ := parse_tagsBegun h e he
  rw [hattributes] at ha
  obtain ⟨b, hb, rfl⟩ := List.mem_map.mp ha
  unfold attributesOf at hread
  dsimp only at hread
  split at hread
  · cases hread
    cases hb
  · split at hread
    · cases hread
    · exact attributesFrom_names hread b hb

/-! ## 4. Trees with one more attribute -/

namespace Element

/-- Two trees, the second after the tag that begins at `n` was given an attribute in front. -/
inductive Gained (n : Nat) (a : Attribute) : Element → Element → Prop where
  | intro {e e' : Element} (tag : e'.tag = e.tag)
      (attributes : e'.attributes.map Attribute.unplaced =
        (if e.range.start = n then [a] else []) ++ e.attributes.map Attribute.unplaced)
      (text : e'.text = e.text) (children : List.Forall₂ (Gained n a) e.children e'.children) :
      Gained n a e e'

variable {n : Nat} {a : Attribute}

theorem forall₂_gained_iff {es es' : List Element}
    (h : ∀ e ∈ es, ∀ e', e.Gained n a e' ↔ e'.unplaced = e.unplaced) :
    List.Forall₂ (Gained n a) es es' ↔ es'.map unplaced = es.map unplaced := by
  induction es generalizing es' with
  | nil => rw [List.forall₂_nil_left_iff, List.map_nil, List.map_eq_nil_iff]
  | cons e es ih =>
    obtain ⟨he, hes⟩ := List.forall_mem_cons.mp h
    rw [List.map_cons, List.map_eq_cons_iff, List.forall₂_cons_left_iff]
    constructor
    · rintro ⟨e', rest', hgained, hrest, rfl⟩
      exact ⟨e', rest', rfl, (he e').mp hgained, (ih hes).mp hrest⟩
    · rintro ⟨e', rest', rfl, hsame, hrest⟩
      exact ⟨e', rest', (he e').mpr hsame, (ih hes).mpr hrest, rfl⟩

/-- **Away from the tag the trees are the same**, up to their places. -/
theorem gained_iff_of_apart {e e' : Element} (h : ∀ d : Element, d.Within e → d.range.start ≠ n) :
    e.Gained n a e' ↔ e'.unplaced = e.unplaced := by
  induction e using tree_induction generalizing e' with
  | step e ih =>
    have hown : e.range.start ≠ n := h e (.self e)
    have hchild : ∀ c ∈ e.children, ∀ c', c.Gained n a c' ↔ c'.unplaced = c.unplaced :=
      fun c hc _ => ih c hc fun d hd => h d (.child hc hd)
    rw [unplaced_eq_iff, ← forall₂_gained_iff hchild]
    constructor
    · rintro ⟨tag, attributes, text, children⟩
      rw [if_neg hown, List.nil_append] at attributes
      exact ⟨tag, attributes, children, text⟩
    · rintro ⟨tag, attributes, children, text⟩
      refine ⟨tag, ?_, text, children⟩
      rw [if_neg hown, List.nil_append]
      exact attributes

/-- An element that ends before the tag is the same in both trees. -/
theorem Nested.gained_self {e : Element} (h : e.Nested) (hstop : e.range.stop ≤ n) :
    e.Gained n a e := by
  refine (gained_iff_of_apart fun d hd => ?_).mpr rfl
  have hstart := (h.start_of_within hd).2
  omega

/-- The element with one more attribute, in front of the others. -/
def gain (a : Attribute) (e : Element) : Element := { e with attributes := a :: e.attributes }

/-- **Where the tag is that of a child, this child has gained the attribute**, and all else is as
    before. -/
theorem Gained.unplaced_child {e e' c : Element} {front back : List Element} (hnested : e.Nested)
    (hchildren : e.children = front ++ c :: back) (ha : a.unplaced = a)
    (h : e.Gained c.range.start a e') :
    e'.unplaced = { e with children := front ++ c.gain a :: back }.unplaced := by
  have hmem : ∀ d ∈ front ++ c :: back, d ∈ e.children := fun d hd => hchildren ▸ hd
  have hchild : ∀ d ∈ front ++ c :: back, d.Nested := fun d hd =>
    hnested.of_within (.child (hmem d hd) (.self d))
  have hc := hchild c (List.mem_append_right _ List.mem_cons_self)
  have hholds : ByteRange.InOrder (e.range.start + 1) e.range.stop (e.children.map (·.range)) :=
    hnested e (.self e)
  have hbegins : e.range.start ≠ c.range.start := by
    have hstart := (hholds.of_mem (List.mem_map_of_mem
      (hmem c (List.mem_append_right _ List.mem_cons_self)))).1
    omega
  have hpairs := List.pairwise_map.mp hholds.pairwise
  rw [hchildren] at hpairs
  obtain ⟨_, hback, hfront⟩ := List.pairwise_append.mp hpairs
  obtain ⟨hbehind, _⟩ := List.pairwise_cons.mp hback
  obtain ⟨tag, attributes, text, children⟩ := h
  rw [if_neg hbegins, List.nil_append] at attributes
  rw [hchildren] at children
  obtain ⟨front', c', back', hparts, hfronts, hown, hbacks⟩ := exists_of_forall₂_append_cons children
  -- the elements in the other children begin before the tag or behind it
  have hfrontSame : front'.map unplaced = front.map unplaced := by
    refine (forall₂_gained_iff fun d hd d' => gained_iff_of_apart fun x hx => ?_).mp hfronts
    have hend := ((hchild d (List.mem_append_left _ hd)).start_of_within hx).2
    have hprecedes := (hfront d hd c List.mem_cons_self).1
    omega
  have hbackSame : back'.map unplaced = back.map unplaced := by
    refine (forall₂_gained_iff fun d hd d' => gained_iff_of_apart fun x hx => ?_).mp hbacks
    have hbegin := ((hchild d (List.mem_append_right _ (List.mem_cons_of_mem _ hd))).start_of_within
      hx).1
    have hprecedes := (hbehind d hd).2
    omega
  have hownSame : c'.unplaced = (c.gain a).unplaced := by
    obtain ⟨tag, attributes, text, children⟩ := hown
    rw [if_pos rfl, List.singleton_append] at attributes
    refine unplaced_eq_iff.mpr ⟨tag, ?_, ?_, text⟩
    · rw [attributes, gain, List.map_cons, ha]
    · refine (forall₂_gained_iff fun d hd d' => gained_iff_of_apart fun x hx => ?_).mp children
      have hinside := ((hc c (.self c)).of_mem (List.mem_map_of_mem hd)).1
      have hbegin := ((hc.of_within (.child hd (.self d))).start_of_within hx).1
      omega
  refine unplaced_eq_iff.mpr ⟨tag, attributes, ?_, text⟩
  rw [hparts]
  simp only [List.map_append, List.map_cons, hfrontSame, hownSame, hbackSame]

end Element

/-! ## 5. Builders side by side -/

/-- The open elements of the two texts. -/
structure OpenElement.Gained (n : Nat) (a : Attribute) (o o' : OpenElement) : Prop where
  scope : o'.scope = o.scope
  element : o.element.Gained n a o'.element

namespace Builder

/-- The states of the two builders, behind the tag. -/
structure Gained (n : Nat) (a : Attribute) (b b' : Builder) : Prop where
  opened : List.Forall₂ (OpenElement.Gained n a) b.opened b'.opened
  root : Option.Rel (Element.Gained n a) b.root b'.root

variable {n : Nat} {a : Attribute} {b b' : Builder}

theorem Gained.scope (h : b.Gained n a b') : b'.scope = b.scope := by
  obtain ⟨opened, root⟩ := b
  obtain ⟨opened', root'⟩ := b'
  cases h.opened with
  | nil => rfl
  | cons htop => exact htop.scope

theorem Gained.addText (h : b.Gained n a b') (text : List Char) :
    (b.addText text).Gained n a (b'.addText text) := by
  obtain ⟨opened, root⟩ := b
  obtain ⟨opened', root'⟩ := b'
  obtain ⟨hopened, hroot⟩ := h
  cases hopened with
  | nil => exact ⟨.nil, hroot⟩
  | cons htop houter =>
    obtain ⟨hscope, tag, attributes, words, children⟩ := htop
    refine ⟨.cons ⟨hscope, tag, attributes, ?_, children⟩ houter, hroot⟩
    exact congrArg (· ++ String.ofList text) words

theorem Gained.attach {e e' : Element} (h : b.Gained n a b') (he : e.Gained n a e') :
    (b.attach e).Gained n a (b'.attach e') := by
  obtain ⟨opened, root⟩ := b
  obtain ⟨opened', root'⟩ := b'
  obtain ⟨hopened, hroot⟩ := h
  cases hopened with
  | nil => exact ⟨.nil, rel_or hroot he⟩
  | @cons top top' outer outer' htop houter =>
    obtain ⟨hscope, tag, attributes, words, children⟩ := htop
    have hwords : e'.text = e.text := by
      obtain ⟨_, _, text, _⟩ := he
      exact text
    refine ⟨.cons ⟨hscope, tag, attributes, ?_, List.rel_append children (.cons he .nil)⟩ houter,
      hroot⟩
    show top'.element.text ++ e'.text = top.element.text ++ e.text
    rw [words, hwords]

/-- What is complete or open before the tag is the same in both texts. -/
theorem NestedAt.gained_self (hb : b.NestedAt n) : b.Gained n a b := by
  refine ⟨?_, ?_⟩
  · have hall : ∀ {m : Nat} {opened : List OpenElement}, StackNestedAt m opened → m ≤ n →
        List.Forall₂ (OpenElement.Gained n a) opened opened := by
      intro m opened h hle
      induction opened generalizing m with
      | nil => exact .nil
      | cons o outer ih =>
        obtain ⟨hholds, hchildren, houter⟩ := h
        have hbegins : o.element.range.start < m := hholds.le
        refine .cons ⟨rfl, (Element.gained_iff_of_apart fun d hd => ?_).mpr rfl⟩
          (ih houter (by omega))
        cases hd with
        | self => omega
        | child hc hd =>
          have hstart := ((hchildren _ hc).start_of_within hd).2
          have hstop := (hholds.of_mem (List.mem_map_of_mem hc)).2
          omega
    exact hall hb.opened (Nat.le_refl n)
  · obtain ⟨opened, root⟩ := b
    cases root with
    | none => exact .none
    | some e =>
      obtain ⟨hnested, hstop⟩ := hb.root e rfl
      exact .some (hnested.gained_self hstop)

theorem gained_of_same {o o' : OpenElement} (h : o.Same o') (hbare : o.element.children = [])
    (hstart : o.element.range.start ≠ n) : o.Gained n a o' := by
  refine ⟨h.scope, (Element.gained_iff_of_apart fun d hd => ?_).mpr h.element⟩
  cases hd with
  | self => exact hstart
  | child hc _ =>
    rw [hbare] at hc
    cases hc

theorem exists_openElement_of_step {contents tag : List Char} {p : Placed} {c : Builder}
    (hp : p.event.Begins tag) (hstep : b.step contents p = .ok c) :
    ∃ o, b.openElement contents tag p.range = .ok o := by
  obtain ⟨event, range⟩ := p
  rcases hp with rfl | rfl
  · obtain ⟨o, ho, _⟩ := exists_of_map_eq_ok hstep
    exact ⟨o, ho⟩
  · obtain ⟨o, ho, _⟩ := exists_of_map_eq_ok hstep
    exact ⟨o, ho⟩

/-- A tag that begins related elements in the two texts. -/
theorem Gained.step_begins {contents contents' tag : List Char} {event : Event}
    {range range' : ByteRange} {o o' : OpenElement} {c : Builder} (h : b.Gained n a b')
    (hbegins : event.Begins tag) (ho : b.openElement contents tag range = .ok o)
    (ho' : b'.openElement contents' tag range' = .ok o') (hgained : o.Gained n a o')
    (hstep : b.step contents ⟨event, range⟩ = .ok c) :
    ∃ c', b'.step contents' ⟨event, range'⟩ = .ok c' ∧ c.Gained n a c' := by
  unfold Builder.step at hstep ⊢
  rcases hbegins with rfl | rfl
  · dsimp only at hstep ⊢
    rw [ho] at hstep
    rw [ho']
    cases hstep
    exact ⟨_, rfl, .cons hgained h.opened, h.root⟩
  · dsimp only at hstep ⊢
    rw [ho] at hstep
    rw [ho']
    cases hstep
    exact ⟨_, rfl, h.attach hgained.element⟩

/-- **One event behind the tag** keeps what the two builders have in common. -/
theorem Gained.step {before behind : List Char} (h : b.Gained n a b') (before' : List Char)
    {q : Placed} (hq : q.LiesIn behind) (hpast : n < width before) {c : Builder}
    (hstep : b.step (before ++ behind) (q.shift (width before)) = .ok c) :
    ∃ c', b'.step (before' ++ behind) (q.shift (width before')) = .ok c' ∧ c.Gained n a c' := by
  have hopen : ∀ {tag : List Char}, q.event.Begins tag →
      ∃ c', b'.step (before' ++ behind) (q.shift (width before')) = .ok c' ∧ c.Gained n a c' := by
    intro tag hbegins
    have hmoved : (q.shift (width before)).event.Begins tag := hbegins
    obtain ⟨o, ho⟩ := exists_openElement_of_step hmoved hstep
    obtain ⟨o', ho', hsame⟩ := openElement_move h.scope before' hq hbegins ho
    obtain ⟨hrange, hbare⟩ := openElement_bare ho
    refine h.step_begins hbegins ho ho' (gained_of_same hsame hbare ?_) hstep
    rw [hrange]
    exact Nat.ne_of_gt (Nat.lt_of_lt_of_le hpast (Nat.le_add_left _ _))
  cases hevent : q.event with
  | start tag => exact hopen (.inl hevent)
  | empty tag => exact hopen (.inr hevent)
  | close =>
    simp only [Builder.step, Placed.shift, hevent] at hstep ⊢
    obtain ⟨opened, root⟩ := b
    obtain ⟨opened', root'⟩ := b'
    obtain ⟨hopened, hroot⟩ := h
    cases hopened with
    | nil => cases hstep
    | cons htop houter =>
      cases hstep
      obtain ⟨_, tag, attributes, words, children⟩ := htop
      exact ⟨_, rfl, Gained.attach ⟨houter, hroot⟩ ⟨tag, attributes, words, children⟩⟩
  | text written =>
    simp only [Builder.step, Placed.shift, hevent] at hstep ⊢
    cases hstep
    exact ⟨_, rfl, h.addText _⟩
  | cdata written =>
    simp only [Builder.step, Placed.shift, hevent] at hstep ⊢
    cases hstep
    exact ⟨_, rfl, h.addText _⟩
  | other =>
    simp only [Builder.step, Placed.shift, hevent] at hstep ⊢
    cases hstep
    exact ⟨_, rfl, h⟩

/-- **All events behind the tag.** -/
theorem Gained.foldlM {before behind : List Char} {events : List Placed} (h : b.Gained n a b')
    (before' : List Char) (hevents : ∀ q ∈ events, q.LiesIn behind) (hpast : n < width before)
    {c : Builder}
    (hfold : (events.map (Placed.shift (width before))).foldlM
      (Builder.step (before ++ behind)) b = .ok c) :
    ∃ c', (events.map (Placed.shift (width before'))).foldlM
        (Builder.step (before' ++ behind)) b' = .ok c' ∧ c.Gained n a c' := by
  exact foldlM_related (fun hb hq hstep => hb.step before' hq hpast hstep) h hevents hfold

/-- Both builders come to an end. -/
theorem Gained.finish (h : b.Gained n a b') {e : Element} (hfinish : b.finish = .ok e) :
    ∃ e', b'.finish = .ok e' ∧ e.Gained n a e' := by
  obtain ⟨opened, root⟩ := b
  obtain ⟨opened', root'⟩ := b'
  obtain ⟨hopened, hroot⟩ := h
  cases hopened with
  | cons => cases hfinish
  | nil =>
    cases hroot with
    | none => cases hfinish
    | some hgained =>
      cases hfinish
      exact ⟨_, rfl, hgained⟩

end Builder

theorem Scope.extend_cons_of_not_binds {a : Attribute} (h : a.bindsNamespace = false)
    (outer : Scope) (as : List Attribute) :
    Scope.extend outer (a :: as) = Scope.extend outer as := by
  unfold Scope.extend
  rw [List.filter_cons_of_neg (by rw [h]; exact Bool.false_ne_true)]

/-- **The tag with the attribute begins an element that has gained it**, in the same scope. -/
theorem Builder.openElement_insert {b : Builder} {before behind tag inner : List Char}
    {w : WrittenAttribute} (hw : (w.placedAt 0).bindsNamespace = false) {o : OpenElement}
    (ho : b.openElement (before ++ writtenTag tag inner ++ behind) tag
      ⟨width before, width before + width (writtenTag tag inner)⟩ = .ok o) :
    ∃ o', b.openElement (before ++ writtenTag tag (w.text ++ inner) ++ behind) tag
        ⟨width before, width before + width (writtenTag tag (w.text ++ inner))⟩ = .ok o' ∧
      o.Gained (width before) ((w.placedAt 0).unplaced.resolve o.scope) o' := by
  unfold Builder.openElement at ho ⊢
  obtain ⟨as, hread, rfl⟩ := exists_of_map_eq_ok ho
  obtain ⟨as', hread', hsame⟩ := attributesOf_insert w hread
  rw [hread']
  have hown : (w.placedAt 0).unplaced.bindsNamespace = false := hw
  have hscope : b.scope.extend as' = b.scope.extend as := by
    rw [← Scope.extend_unplaced _ as', hsame, Scope.extend_cons_of_not_binds hown,
      Scope.extend_unplaced]
  refine ⟨_, rfl, hscope, rfl, ?_, rfl, .nil⟩
  dsimp only
  rw [hscope, if_pos rfl, map_unplaced_resolve, hsame, map_unplaced_resolve]
  rfl

/-! ## 6. Whole texts -/

/-- **The events of a text with one more attribute in a tag.** -/
theorem scan_insert {contents tag : List Char} {earlier later : List Placed} {p : Placed}
    (hmark : contents.head? ≠ some byteOrderMark) (hfault : (scan contents).fault = none)
    (h : (scan contents).events = earlier ++ p :: later) (hp : p.event.Begins tag)
    (hne : tag ≠ []) (htag : PlainInTag tag) :
    ∃ (before inner behind : List Char) (events : List Placed),
      contents = before ++ writtenTag tag inner ++ behind ∧
      p.range = ⟨width before, width before + width (writtenTag tag inner)⟩ ∧
      later = events.map (Placed.shift (width (before ++ writtenTag tag inner))) ∧
      (∀ q ∈ events, q.LiesIn behind) ∧
      ∀ w : WrittenAttribute, w.Fits →
        ∀ written, written = before ++ writtenTag tag (w.text ++ inner) →
        scan (written ++ behind) =
          ⟨earlier ++ ⟨p.event, ⟨width before, width written⟩⟩ ::
            events.map (Placed.shift (width written)), none⟩ := by
  rw [scan_eq_scanFrom hmark] at h hfault
  obtain ⟨before, rest, inside, rfl, hfirst, hscan⟩ := exists_parts_of_event h
  rw [Nat.zero_add] at hfirst hscan
  rcases first_event hfirst with ⟨piece, used, behind, event, opened', rfl, hread, hevent, rfl, _⟩ |
    ⟨run, more, _, _, _, rfl, _⟩
  · obtain ⟨inner, rfl⟩ := Piece.eq_tag_of_event hevent hp
    obtain rfl := Piece.used_of_tag hread
    -- a tag in the place of this one that is read as the same event, and the events behind it
    have hreads : ∀ inner', Piece.read (tag ++ inner' ++ ['>'] ++ behind) =
          .piece (.tag (tag ++ inner')) (tag ++ inner' ++ ['>']) behind →
        (Piece.tag (tag ++ inner')).event inside = .ok (event, opened') →
        scanFrom (width before) inside (writtenTag tag inner' ++ behind) =
          ⟨⟨event, ⟨width before, width (before ++ writtenTag tag inner')⟩⟩ ::
            (scanFrom 0 opened' behind).events.map
              (Placed.shift (width (before ++ writtenTag tag inner'))),
            (scanFrom (0 + width (before ++ writtenTag tag inner')) opened' behind).fault⟩ := by
      intro inner' hread hevent
      have hwidth : width before + 1 + width (tag ++ inner' ++ ['>']) =
          width (before ++ writtenTag tag inner') := by
        rw [width_append before, writtenTag, List.cons_append, width_cons,
          show '<'.utf8Size = 1 from rfl, Nat.add_assoc]
      show scanFrom _ inside ('<' :: (tag ++ inner' ++ ['>'] ++ behind)) = _
      rw [scanFrom_piece _ hread hevent, hwidth,
        ← (scanFrom_shift (width (before ++ writtenTag tag inner')) 0 opened' behind).1,
        Nat.zero_add]
      rfl
    have hself := hreads inner hread hevent
    have hmarkup : ∀ inner', AtMarkup (writtenTag tag inner' ++ behind) := fun _ =>
      Format.stopsRun_cons rfl
    have htext : '<' :: (tag ++ inner ++ ['>'] ++ behind) = writtenTag tag inner ++ behind := rfl
    rw [htext] at hfirst hfault ⊢
    have hlater : later = (scanFrom 0 opened' behind).events.map
        (Placed.shift (width (before ++ writtenTag tag inner))) := by
      rw [hself] at hfirst
      exact (List.cons.inj hfirst).2.symm
    have hnone : (scanFrom 0 opened' behind).fault = none := by
      rw [hscan _ fun _ => hmarkup inner, hself] at hfault
      exact (scanFrom_shift _ 0 opened' behind).2.mp hfault
    refine ⟨before, inner, behind, (scanFrom 0 opened' behind).events, ?_, ?_, hlater,
      (scanFrom_covers opened' (List.nil_append _).symm rfl).2, ?_⟩
    · rw [List.append_assoc]
    · rw [writtenTag, List.cons_append, width_cons, show '<'.utf8Size = 1 from rfl, Nat.add_assoc]
    · rintro w hw written rfl
      have hmark' : (before ++ (writtenTag tag (w.text ++ inner) ++ behind)).head? ≠
          some byteOrderMark := by
        cases before with
        | nil =>
          show some '<' ≠ some byteOrderMark
          decide
        | cons c before => exact hmark
      rw [List.append_assoc, scan_eq_scanFrom hmark', hscan _ fun _ => hmarkup _,
        hreads _ (Piece.read_insert hw hne htag hread) (Piece.event_insert hw hevent hp),
        (scanFrom_shift _ 0 opened' behind).2.mpr hnone]
      rfl
  · rcases hp with hp | hp <;> cases hp

/-- **The tree of a text with one more attribute in a tag.** It is there, and differs from the one
    before in that attribute alone, which stands in front of the others. -/
theorem parse_insert {contents tag : List Char} {root : Element} {p : Placed}
    (hmark : contents.head? ≠ some byteOrderMark) (h : parse contents = .ok root)
    (hmem : p ∈ (scan contents).events) (hp : p.event.Begins tag) (hne : tag ≠ [])
    (htag : PlainInTag tag) :
    ∃ before inner behind, contents = before ++ writtenTag tag inner ++ behind ∧
      p.range = ⟨width before, width before + width (writtenTag tag inner)⟩ ∧
      ∀ w : WrittenAttribute, w.Fits → (w.placedAt 0).bindsNamespace = false →
        ∃ scope root', parse (before ++ writtenTag tag (w.text ++ inner) ++ behind) = .ok root' ∧
          root.Gained p.range.start ((w.placedAt 0).unplaced.resolve scope) root' := by
  obtain ⟨earlier, later, hsplit⟩ := List.append_of_mem hmem
  obtain ⟨hevents, hlie⟩ := scan_covers hmark
  obtain ⟨built, hbuilt, hfault, hrest⟩ := parse_eq_ok_iff.mp h
  obtain ⟨before, inner, behind, events, hparts, hrange, rfl, hbehind, hscan⟩ :=
    scan_insert hmark hfault hsplit hp hne htag
  refine ⟨before, inner, behind, hparts, hrange, ?_⟩
  intro w hw hbinds
  rw [hsplit] at hevents hlie hbuilt
  obtain ⟨hconsecutive, hstart⟩ := hevents.append
  have hlt : ∀ q ∈ earlier, q.range.start < q.range.stop := fun q hq =>
    (hlie q (List.mem_append_left _ hq)).lt
  have hbefore : ∀ q ∈ earlier, q.LiesIn before := by
    intro q hq
    have hstop := hconsecutive.stop_le_reached hlt hq
    rw [← hstart, hrange] at hstop
    have hlies := hlie q (List.mem_append_left _ hq)
    rw [hparts, List.append_assoc] at hlies
    exact hlies.of_append hstop
  obtain ⟨mid, first, hearlier, hfirst, hlater⟩ := foldlM_append_cons_iff.mp hbuilt
  have hbegin : p.range.start = width before := by rw [hrange]
  -- up to the tag both builders are in one state
  have hempty : Builder.empty.NestedAt 0 := ⟨trivial, fun _ hnone => by cases hnone⟩
  have hnested : mid.NestedAt (width before) :=
    hbegin ▸ hstart ▸ Builder.foldlM_nestedAt hconsecutive hlt hempty hearlier
  -- the tag makes the difference
  obtain ⟨o, ho⟩ := Builder.exists_openElement_of_step hp hfirst
  have htext := ho
  rw [hparts, hrange] at htext
  obtain ⟨o', ho', hgained⟩ := Builder.openElement_insert hbinds htext
  rw [← width_append] at ho'
  obtain ⟨first', hfirst', hmid⟩ :=
    hnested.gained_self.step_begins hp ho ho' hgained hfirst
  -- and the events behind it keep it
  have hpast : width before < width (before ++ writtenTag tag inner) := by
    have hpos : 0 < width (writtenTag tag inner) := width_pos (List.cons_ne_nil _ _)
    rw [width_append]
    omega
  rw [hparts] at hlater hearlier
  obtain ⟨built', hlater', hfinal⟩ :=
    hmid.foldlM (before ++ writtenTag tag (w.text ++ inner)) hbehind hpast hlater
  obtain ⟨root', hfinish, hroot⟩ := hfinal.finish hrest
  have hread := hscan w hw _ rfl
  refine ⟨o.scope, root', parse_eq_ok_iff.mpr ⟨built', ?_, by rw [hread], hfinish⟩, ?_⟩
  · rw [hread]
    refine foldlM_append_cons_iff.mpr ⟨mid, first', ?_, hfirst', hlater'⟩
    rw [List.append_assoc] at hearlier ⊢
    rw [Builder.foldlM_append_congr hbefore]
    exact hearlier
  · rw [hbegin]
    exact hroot

end AndroidLint.Xml
