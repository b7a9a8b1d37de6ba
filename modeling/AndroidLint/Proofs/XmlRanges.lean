/-
  File:      AndroidLint/Proofs/XmlRanges.lean
  Subject:   Where the elements of a tree stand in the text.

  The tree is built from events that follow each other in the text. At every moment the open
  elements are nested in each other, and what is complete in each of them lies between its start tag
  and the element that is open in it (`StackAt`). One event keeps that, and so does the whole run:

  * `Builder.step_placed`:  what one event does;
  * `parse_allPlaced`:      every element of the tree is well placed;
  * `parse_ranges`:         what that means for all ranges of the tree.
-/
import AndroidLint.Proofs.Bytes
import AndroidLint.Proofs.XmlBuilder

namespace AndroidLint.Xml

open Text

/-! ## 1. Elements in the text -/

namespace Element

/-- The start tag, from its `<` to its `>`. -/
def startTag (e : Element) : ByteRange := ⟨e.range.start, e.contentRange.start⟩

/-- An element is in the tree of another one: it is that element or in the tree of a child. -/
inductive Within : Element → Element → Prop where
  | self (e : Element) : Within e e
  | child {d c e : Element} (hc : c ∈ e.children) (hd : Within d c) : Within d e

/-- The start tag stands in the text as it is written, with the attributes behind the name. -/
structure TagPlaced (contents : List Char) (e : Element) : Prop where
  written : ∃ before inner behind, contents = before ++ writtenTag e.tag.toList inner ++ behind ∧
    e.startTag = ⟨width before, width before + width (writtenTag e.tag.toList inner)⟩
  attributes : AttributesIn contents (e.startTag.start + 1) e.startTag.stop e.attributes

/-- The element stands in the text: first its start tag, then its children one behind the other, and
    at last its end. -/
structure WellPlaced (contents : List Char) (e : Element) : Prop where
  tag : e.TagPlaced contents
  children : ByteRange.InOrder e.contentRange.start e.contentRange.stop (e.children.map (·.range))
  content : isBoundary contents e.contentRange.stop = true
  stop : isBoundary contents e.range.stop = true
  closes : e.contentRange.stop ≤ e.range.stop
  ends : e.range.stop ≤ width contents

/-- All elements of the tree stand in the text. -/
def AllPlaced (contents : List Char) (e : Element) : Prop :=
  ∀ d : Element, d.Within e → d.WellPlaced contents

/-- An element that is not complete yet: its start tag stands in the text, and the children that it
    has so far follow each other up to an offset. -/
structure OpenAt (contents : List Char) (n : Nat) (e : Element) : Prop where
  tag : e.TagPlaced contents
  children : ByteRange.InOrder e.contentRange.start n (e.children.map (·.range))
  complete : ∀ c ∈ e.children, c.AllPlaced contents

theorem AllPlaced.of_children {contents : List Char} {e : Element} (he : e.WellPlaced contents)
    (hc : ∀ c ∈ e.children, c.AllPlaced contents) : e.AllPlaced contents := by
  intro d hd
  cases hd with
  | self => exact he
  | child hmem hd => exact hc _ hmem d hd

/-- A tag is not empty. -/
theorem TagPlaced.lt {contents : List Char} {e : Element} (h : e.TagPlaced contents) :
    e.range.start < e.contentRange.start := by
  obtain ⟨before, inner, behind, _, hrange⟩ := h.written
  have hpos : 0 < width (writtenTag e.tag.toList inner) := width_pos (List.cons_ne_nil _ _)
  have hstart : e.range.start = width before := congrArg ByteRange.start hrange
  have hstop : e.contentRange.start = width before + width (writtenTag e.tag.toList inner) :=
    congrArg ByteRange.stop hrange
  omega

theorem TagPlaced.fitsIn {contents : List Char} {e : Element} (h : e.TagPlaced contents) :
    e.startTag.FitsIn contents := by
  obtain ⟨before, inner, behind, hparts, hrange⟩ := h.written
  rw [hparts, hrange]
  exact ByteRange.fitsIn_width before _ behind

/-- An empty tag is a whole element. -/
theorem TagPlaced.allPlaced {contents : List Char} {e : Element} {p : Placed}
    (h : e.TagPlaced contents) (hp : p.LiesIn contents) (hrange : e.range = p.range)
    (hcontent : e.contentRange = ⟨p.range.stop, p.range.stop⟩) (hchildren : e.children = []) :
    e.AllPlaced contents := by
  have hfits := hp.fitsIn
  refine AllPlaced.of_children ⟨h, ?_, ?_, ?_, ?_, ?_⟩ ?_
  · rw [hcontent, hchildren]
    exact Nat.le_refl _
  · rw [hcontent]
    exact hfits.stops
  · rw [hrange]
    exact hfits.stops
  · exact Nat.le_of_eq (by rw [hcontent, hrange])
  · rw [hrange]
    exact hfits.bounded
  · rw [hchildren]
    exact fun _ hc => nomatch hc

theorem OpenAt.mono {contents : List Char} {m n : Nat} {e : Element} (h : e.OpenAt contents m)
    (hle : m ≤ n) : e.OpenAt contents n :=
  ⟨h.tag, h.children.mono (Nat.le_refl _) hle, h.complete⟩

/-- The end tag completes an element. -/
theorem OpenAt.close {contents : List Char} {e : Element} {p : Placed} (hp : p.LiesIn contents)
    (h : e.OpenAt contents p.range.start) :
    { e with
      range := ⟨e.range.start, p.range.stop⟩
      contentRange := ⟨e.contentRange.start, p.range.start⟩ : Element }.AllPlaced contents := by
  have hfits := hp.fitsIn
  refine AllPlaced.of_children ?_ h.complete
  exact ⟨⟨h.tag.written, h.tag.attributes⟩, h.children, hfits.starts, hfits.stops, hfits.ordered,
    hfits.bounded⟩

end Element

/-! ## 2. Start tags -/

theorem AttributesIn.resolve {contents : List Char} {low high : Nat} {as : List Attribute}
    (h : AttributesIn contents low high as) (scope : Scope) :
    AttributesIn contents low high (as.map (·.resolve scope)) := by
  refine ⟨?_, fun a ha => ?_⟩
  · rw [List.map_map]
    exact h.order
  · obtain ⟨b, hb, rfl⟩ := List.mem_map.mp ha
    exact h.fits b hb

theorem AttributesIn.mono {contents : List Char} {low low' high : Nat} {as : List Attribute}
    (h : AttributesIn contents low high as) (hle : low' ≤ low) :
    AttributesIn contents low' high as :=
  ⟨h.order.mono hle (Nat.le_refl _), h.fits⟩

/-- The element that a tag begins takes the range of the tag. -/
theorem Builder.openElement_placed {contents tag : List Char} {b : Builder} {p : Placed}
    {o : OpenElement} (hp : p.LiesIn contents) (htag : p.event = .start tag ∨ p.event = .empty tag)
    (h : b.openElement contents tag p.range = .ok o) :
    o.element.TagPlaced contents ∧ o.element.range = p.range ∧
      o.element.contentRange = ⟨p.range.stop, p.range.stop⟩ ∧ o.element.children = [] := by
  obtain ⟨before, written, behind, rfl, hrange, _, hwritten⟩ := hp
  obtain ⟨inner, rfl⟩ := hwritten tag htag
  unfold openElement at h
  obtain ⟨as, hattributes, rfl⟩ := exists_of_map_eq_ok h
  rw [hrange] at hattributes
  have hin := (attributesOf_writtenTag hattributes).mono (Nat.le_add_right _ (width tag))
  refine ⟨⟨⟨before, inner, behind, ?_, ?_⟩, ?_⟩, rfl, rfl, rfl⟩
  · rw [String.toList_ofList]
  · rw [String.toList_ofList]
    exact hrange
  · show AttributesIn _ (p.range.start + 1) p.range.stop _
    rw [hrange]
    exact hin.resolve _

/-! ## 3. Open elements -/

/-- The open elements are nested in each other: each is complete up to where the next inner one
    begins, and the innermost up to an offset. -/
def StackAt (contents : List Char) (n : Nat) : List OpenElement → Prop
  | [] => True
  | o :: outer => o.element.OpenAt contents n ∧ StackAt contents o.element.range.start outer

theorem StackAt.mono {contents : List Char} {m n : Nat} {opened : List OpenElement}
    (h : StackAt contents m opened) (hle : m ≤ n) : StackAt contents n opened := by
  cases opened with
  | nil => trivial
  | cons o outer => exact ⟨h.1.mono hle, h.2⟩

namespace Builder

/-- The tree as far as it is built from the events up to an offset. -/
structure PlacedAt (contents : List Char) (n : Nat) (b : Builder) : Prop where
  opened : StackAt contents n b.opened
  root : ∀ e, b.root = some e → e.AllPlaced contents

theorem placedAt_empty (contents : List Char) : empty.PlacedAt contents 0 :=
  ⟨trivial, fun _ h => nomatch h⟩

theorem PlacedAt.mono {contents : List Char} {m n : Nat} {b : Builder}
    (h : b.PlacedAt contents m) (hle : m ≤ n) : b.PlacedAt contents n :=
  ⟨h.opened.mono hle, h.root⟩

/-- An element that begins where the tree so far ends, or later, is put in behind the others. -/
theorem PlacedAt.attach {contents : List Char} {b : Builder} {e : Element}
    (h : b.PlacedAt contents e.range.start) (he : e.AllPlaced contents)
    (hlt : e.range.start < e.range.stop) : (b.attach e).PlacedAt contents e.range.stop := by
  obtain ⟨opened, root⟩ := b
  cases opened with
  | nil =>
    refine ⟨trivial, fun d hd => ?_⟩
    rcases Option.or_eq_some_iff.mp hd with hroot | ⟨_, hnew⟩
    · exact h.root d hroot
    · rw [← Option.some.inj hnew]
      exact he
  | cons top outer =>
    obtain ⟨hopen, houter⟩ := h.opened
    refine ⟨⟨⟨⟨hopen.tag.written, hopen.tag.attributes⟩, ?_, fun c hc => ?_⟩, houter⟩, h.root⟩
    · show ByteRange.InOrder top.element.contentRange.start e.range.stop
        ((top.element.children ++ [e]).map (·.range))
      rw [List.map_append]
      exact hopen.children.concat hlt
    · rcases List.mem_append.mp hc with hc | hc
      · exact hopen.complete c hc
      · rw [List.mem_singleton.mp hc]
        exact he

/-- Character data moves nothing. -/
theorem PlacedAt.addText {contents : List Char} {n : Nat} {b : Builder}
    (h : b.PlacedAt contents n) (text : List Char) : (b.addText text).PlacedAt contents n := by
  obtain ⟨opened, root⟩ := b
  cases opened with
  | nil => exact h
  | cons top outer =>
    obtain ⟨hopen, houter⟩ := h.opened
    exact ⟨⟨⟨⟨hopen.tag.written, hopen.tag.attributes⟩, hopen.children, hopen.complete⟩, houter⟩,
      h.root⟩

/-! ## 4. Runs -/

/-- **One event takes the tree from the place where it begins to the place where it ends.** -/
theorem step_placed {contents : List Char} {b b' : Builder} {p : Placed}
    (hb : b.PlacedAt contents p.range.start) (hp : p.LiesIn contents)
    (h : b.step contents p = .ok b') : b'.PlacedAt contents p.range.stop := by
  have hle : p.range.start ≤ p.range.stop := Nat.le_of_lt hp.lt
  cases Step.of_step h with
  | start event opens =>
    obtain ⟨hplaced, hrange, hcontent, hchildren⟩ := openElement_placed hp (.inl event) opens
    refine ⟨⟨⟨hplaced, ?_, ?_⟩, ?_⟩, hb.root⟩
    · rw [hcontent, hchildren]
      exact Nat.le_refl _
    · rw [hchildren]
      exact List.forall_mem_nil _
    · rw [hrange]
      exact hb.opened
  | complete completes =>
    cases completes with
    | empty event opens =>
      obtain ⟨hplaced, hrange, hcontent, hchildren⟩ := openElement_placed hp (.inr event) opens
      have hall := hplaced.allPlaced hp hrange hcontent hchildren
      rw [← hrange] at hb ⊢
      exact hb.attach hall (by rw [hrange]; exact hp.lt)
    | close event opened =>
      have hstack := hb.opened
      rw [opened] at hstack
      obtain ⟨hopen, houter⟩ := hstack
      have hstart := Nat.lt_of_lt_of_le (Nat.lt_of_lt_of_le hopen.tag.lt hopen.children.le) hle
      refine PlacedAt.attach ?_ (hopen.close hp) hstart
      exact ⟨houter, hb.root⟩
  | text event => exact (hb.mono hle).addText _
  | cdata event => exact (hb.mono hle).addText _
  | other event => exact hb.mono hle

/-- **A run over consecutive events keeps the tree in place.** -/
theorem foldlM_placed {contents : List Char} {events : List Placed} {n : Nat} {b b' : Builder}
    (hevents : Consecutive n events) (hlie : ∀ p ∈ events, p.LiesIn contents)
    (hb : b.PlacedAt contents n) (h : events.foldlM (step contents) b = .ok b') :
    ∃ m, b'.PlacedAt contents m := by
  induction events generalizing n b with
  | nil =>
    cases h
    exact ⟨n, hb⟩
  | cons p ps ih =>
    obtain ⟨rfl, hrest⟩ := hevents
    rw [List.foldlM_cons] at h
    obtain ⟨mid, hstep, hfold⟩ := exists_of_bind_eq_ok h
    have hmid := step_placed hb (hlie p List.mem_cons_self) hstep
    exact ih hrest (fun q hq => hlie q (List.mem_cons_of_mem p hq)) hmid hfold

end Builder

/-- **Every element of a tree stands in the text.** -/
theorem parse_allPlaced {contents : List Char} {root : Element}
    (hmark : contents.head? ≠ some byteOrderMark) (h : parse contents = .ok root) :
    root.AllPlaced contents := by
  obtain ⟨hevents, hlie⟩ := scan_covers hmark
  obtain ⟨b, hbuilt, hrest⟩ := exists_of_bind_eq_ok h
  obtain ⟨m, hb⟩ := Builder.foldlM_placed hevents hlie (Builder.placedAt_empty contents) hbuilt
  split at hrest
  · cases hrest
  · exact hb.root root (Builder.root_of_finish hrest)

/-- A root that is computed and passes a test. -/
theorem exists_root_of_any {contents : List Char} {P : Element → Prop} [DecidablePred P]
    (h : ((parse contents).toOption.any fun root => decide (P root)) = true) :
    ∃ root, parse contents = .ok root ∧ P root := by
  obtain ⟨root, hroot, hP⟩ := (Option.any_eq_true _ _).mp h
  cases hparse : parse contents with
  | error e =>
    rw [hparse] at hroot
    cases hroot
  | ok root' =>
    rw [hparse] at hroot
    cases hroot
    exact ⟨root, rfl, of_decide_eq_true hP⟩

/-- The root of a text whose characters are known, when it passes a test. -/
theorem exists_root_of_chars {text : String} {cs : List Char} {P : Element → Prop}
    [DecidablePred P] (htext : text.toList = cs)
    (h : ((parse cs).toOption.any fun root => decide (P root)) = true) :
    ∃ root, parse text.toList = .ok root ∧ P root :=
  htext ▸ exists_root_of_any h

/-! ## 5. All ranges of a tree -/

namespace Element

/-- The ranges of an element and of its attributes. -/
def ranges (e : Element) : List ByteRange :=
  [e.range, e.contentRange, e.nameRange] ++ e.attributes.flatMap fun a => [a.range, a.valueRange]

/-- What holds of the ranges of an element in a text. -/
structure RangesIn (contents : List Char) (e : Element) : Prop where
  /-- All ranges lie inside the text, on boundaries of characters. -/
  fit : ∀ r ∈ e.ranges, r.FitsIn contents
  content : e.contentRange.Inside e.range
  name : slice? contents e.nameRange = some e.tag.toList
  /-- What stands before the content is the start tag. -/
  startTag : ∃ inner, slice? contents e.startTag = some (writtenTag e.tag.toList inner)
  values : ∀ a ∈ e.attributes, a.valueRange.Inside a.range ∧ a.range.Inside e.startTag
  /-- Attributes are disjoint and in order. -/
  attributes : (e.attributes.map (·.range)).Pairwise ByteRange.Precedes
  children : ∀ c ∈ e.children, c.range.Inside e.contentRange
  /-- Children are disjoint and in order. -/
  siblings : (e.children.map (·.range)).Pairwise ByteRange.Precedes

/-- The name stands behind the `<` of the start tag. -/
theorem TagPlaced.name {contents : List Char} {e : Element} (h : e.TagPlaced contents) :
    e.nameRange.FitsIn contents ∧ slice? contents e.nameRange = some e.tag.toList := by
  obtain ⟨before, inner, behind, hparts, hrange⟩ := h.written
  have hstart : e.range.start = width before := congrArg ByteRange.start hrange
  have hname : e.nameRange =
      ⟨width (before ++ ['<']), width (before ++ ['<']) + width e.tag.toList⟩ := by
    rw [nameRange, utf8ByteSize_eq_width, hstart, width_append]
    rfl
  have hparts' : contents = (before ++ ['<']) ++ e.tag.toList ++ (inner ++ ['>'] ++ behind) := by
    rw [hparts]
    simp only [writtenTag, List.append_assoc, List.cons_append, List.nil_append]
  rw [hname, hparts']
  exact ⟨ByteRange.fitsIn_width _ _ _, slice?_width _ _ _⟩

theorem WellPlaced.fits {contents : List Char} {e : Element} (h : e.WellPlaced contents) :
    e.range.FitsIn contents ∧ e.contentRange.FitsIn contents := by
  have htag := h.tag.fitsIn
  have hlt := h.tag.lt
  have hcontent := h.children.le
  have hcloses := h.closes
  have hends := h.ends
  refine ⟨⟨?_, hends, htag.starts, h.stop⟩, ⟨hcontent, ?_, htag.stops, h.content⟩⟩
  · omega
  · omega

/-- An element that stands in the text has its ranges there. -/
theorem WellPlaced.rangesIn {contents : List Char} {e : Element} (h : e.WellPlaced contents) :
    e.RangesIn contents := by
  obtain ⟨hrange, hcontent⟩ := h.fits
  obtain ⟨hname, hslice⟩ := h.tag.name
  have hin := h.tag.attributes
  refine ⟨fun r hr => ?_, ⟨Nat.le_of_lt h.tag.lt, h.closes⟩, hslice, ?_, fun a ha => ?_,
    hin.order.pairwise, fun c hc => h.children.of_mem (List.mem_map_of_mem hc),
    h.children.pairwise⟩
  · rcases List.mem_append.mp hr with hr | hr
    · simp only [List.mem_cons, List.not_mem_nil, or_false] at hr
      rcases hr with rfl | rfl | rfl
      · exact hrange
      · exact hcontent
      · exact hname
    · obtain ⟨a, ha, hr⟩ := List.mem_flatMap.mp hr
      simp only [List.mem_cons, List.not_mem_nil, or_false] at hr
      rcases hr with rfl | rfl
      · exact (hin.fits a ha).1
      · exact (hin.fits a ha).2.1
  · obtain ⟨before, inner, behind, hparts, htag⟩ := h.tag.written
    refine ⟨inner, ?_⟩
    rw [hparts, htag]
    exact slice?_width before _ behind
  · obtain ⟨hstart, hstop⟩ := hin.order.of_mem (List.mem_map_of_mem ha)
    exact ⟨(hin.fits a ha).2.2, Nat.le_of_succ_le hstart, hstop⟩

end Element

/-- **In the tree of a text without a byte order mark every element has its ranges in place**: on
    boundaries of characters inside the text, the content inside the element, the name and the
    attributes inside the start tag, and the children one behind the other inside the content. -/
theorem parse_ranges {contents : List Char} {root e : Element}
    (hmark : contents.head? ≠ some byteOrderMark) (h : parse contents = .ok root)
    (he : e.Within root) : e.RangesIn contents :=
  (parse_allPlaced hmark h e he).rangesIn

/-- A text with a nested element, attributes in both kinds of quotes and a character of two
    bytes. -/
def nestedText : List Char := "<a x='1'>é<b y=\"é\" z=''/></a>".toList

theorem parse_ranges_nestedText : ∃ root b, parse nestedText = .ok root ∧ b ∈ root.children ∧
    b.tag = "b" ∧ root.RangesIn nestedText ∧ b.RangesIn nestedText := by
  have hmark : nestedText.head? ≠ some byteOrderMark := by decide +kernel
  have htags : (parse nestedText).toOption.map (fun r => r.children.map (·.tag)) = some ["b"] := by
    decide +kernel
  cases h : parse nestedText with
  | error e =>
    rw [h] at htags
    cases htags
  | ok root =>
    rw [h] at htags
    have hchildren : root.children.map (·.tag) = ["b"] := Option.some.inj htags
    have hchild : "b" ∈ root.children.map (·.tag) := by
      rw [hchildren]
      exact List.mem_singleton_self _
    obtain ⟨b, hb, htag⟩ := List.mem_map.mp hchild
    exact ⟨root, b, rfl, hb, htag, parse_ranges hmark h (.self root),
      parse_ranges hmark h (.child hb (.self b))⟩

end AndroidLint.Xml
