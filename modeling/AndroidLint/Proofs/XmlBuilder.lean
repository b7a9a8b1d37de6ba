/-
  File:      AndroidLint/Proofs/XmlBuilder.lean
  Subject:   What one event does to the tree that is built, and what a run of events keeps.

  A tag opens an element or is a whole one, an end tag completes the innermost element that is open,
  and character data goes into it. Nothing else changes the tree, so what holds of each element when
  it is opened, and of each one when it is completed, holds of all that is built:

  * `Builder.Step.of_step`:   all that one event can do;
  * `Builder.Holds.step`:     what one event keeps;
  * `Builder.Holds.foldlM`:   what a run keeps;
  * `parse_holds`:            what is so known of the root of a text.
-/
import AndroidLint.Proofs.XmlAttributes
import AndroidLint.Xml.Document

namespace AndroidLint.Xml

/-! ## 1. One event -/

namespace Builder

variable {contents : List Char} {b b' : Builder} {p : Placed}

/-- The element of a tag takes the range of the tag and holds nothing yet. -/
theorem openElement_bare {tag : List Char} {range : ByteRange} {o : OpenElement}
    (h : b.openElement contents tag range = .ok o) :
    o.element.range = range ∧ o.element.children = [] := by
  unfold openElement at h
  obtain ⟨as, _, rfl⟩ := exists_of_map_eq_ok h
  exact ⟨rfl, rfl⟩

/-- The event completes an open element inside the ones that stay open: an empty tag is a whole
    element, and an end tag ends the innermost that is open. -/
inductive Completes (contents : List Char) (b : Builder) (p : Placed) :
    List OpenElement → OpenElement → Element → Prop where
  | empty {tag : List Char} {o : OpenElement} (event : p.event = .empty tag)
      (opens : b.openElement contents tag p.range = .ok o) :
      Completes contents b p b.opened o o.element
  | close {top : OpenElement} {outer : List OpenElement} (event : p.event = .close)
      (opened : b.opened = top :: outer) : Completes contents b p outer top { top.element with
        range := ⟨top.element.range.start, p.range.stop⟩
        contentRange := ⟨top.element.contentRange.start, p.range.start⟩ }

/-- All that an event can do to the tree. -/
inductive Step (contents : List Char) (b : Builder) (p : Placed) : Builder → Prop where
  | start {tag : List Char} {o : OpenElement} (event : p.event = .start tag)
      (opens : b.openElement contents tag p.range = .ok o) :
      Step contents b p { b with opened := o :: b.opened }
  | complete {outer : List OpenElement} {o : OpenElement} {e : Element}
      (completes : Completes contents b p outer o e) :
      Step contents b p (attach { b with opened := outer } e)
  | text {written : List Char} (event : p.event = .text written) :
      Step contents b p (b.addText (decode written))
  | cdata {written : List Char} (event : p.event = .cdata written) :
      Step contents b p (b.addText written)
  | other (event : p.event = .other) : Step contents b p b

theorem Step.of_step (h : b.step contents p = .ok b') : Step contents b p b' := by
  unfold Builder.step at h
  split at h
  · next tag hevent =>
    obtain ⟨o, ho, rfl⟩ := exists_of_map_eq_ok h
    exact .start hevent ho
  · next tag hevent =>
    obtain ⟨o, ho, rfl⟩ := exists_of_map_eq_ok h
    exact .complete (.empty hevent ho)
  · next hevent =>
    split at h
    · cases h
    · next top outer hopened =>
      cases h
      exact .complete (.close hevent hopened)
  · next written hevent =>
    cases h
    exact .text hevent
  · next written hevent =>
    cases h
    exact .cdata hevent
  · next hevent =>
    cases h
    exact .other hevent

theorem root_of_finish {e : Element} (h : b.finish = .ok e) : b.root = some e := by
  unfold finish at h
  split at h
  · cases h
  · split at h
    · next hroot =>
      cases h
      exact hroot
    · cases h

end Builder

theorem parse_eq_ok_iff {contents : List Char} {root : Element} :
    parse contents = .ok root ↔ ∃ b, (scan contents).events.foldlM (Builder.step contents)
      Builder.empty = .ok b ∧ (scan contents).fault = none ∧ b.finish = .ok root := by
  constructor
  · intro h
    obtain ⟨b, hbuilt, hrest⟩ := exists_of_bind_eq_ok h
    split at hrest
    · cases hrest
    · next hfault => exact ⟨b, hbuilt, hfault, hrest⟩
  · rintro ⟨b, hbuilt, hfault, hfinish⟩
    simp only [parse, hbuilt, hfault]
    exact hfinish

/-! ## 2. Open elements and what is complete -/

/-- The scope inside the innermost of some open elements. -/
def scopeOfOpened : List OpenElement → Scope
  | [] => []
  | o :: _ => o.scope

/-- `O` holds of each open element with the ones around it, and `P` of what is complete in it, in
    the scope inside it. -/
def StackHolds (O : List OpenElement → OpenElement → Prop) (P : Scope → Element → Prop) :
    List OpenElement → Prop
  | [] => True
  | o :: outer => O outer o ∧ (∀ c ∈ o.element.children, P o.scope c) ∧ StackHolds O P outer

/-- What holds of an open element does not depend on what is put into it. -/
def Lasting (O : List OpenElement → OpenElement → Prop) : Prop :=
  ∀ outer o text children, O outer o →
    O outer { o with element := { o.element with text, children } }

namespace Builder

variable {contents : List Char} {b b' : Builder} {p : Placed}
  {O : List OpenElement → OpenElement → Prop} {P : Scope → Element → Prop}

theorem scope_eq (b : Builder) : b.scope = scopeOfOpened b.opened := by
  obtain ⟨opened, root⟩ := b
  cases opened <;> rfl

/-- `O` holds of all open elements, and `P` of all that are complete. -/
structure Holds (O : List OpenElement → OpenElement → Prop) (P : Scope → Element → Prop)
    (b : Builder) : Prop where
  opened : StackHolds O P b.opened
  root : ∀ e, b.root = some e → P [] e

theorem holds_empty : empty.Holds O P := ⟨trivial, fun _ hnone => by cases hnone⟩

/-- A complete element joins those in the innermost open one. -/
theorem Holds.attach {e : Element} (hO : Lasting O) (h : b.Holds O P)
    (he : P (scopeOfOpened b.opened) e) : (b.attach e).Holds O P := by
  obtain ⟨opened, root⟩ := b
  cases opened with
  | nil =>
    refine ⟨trivial, fun d hd => ?_⟩
    rcases Option.or_eq_some_iff.mp hd with hold | ⟨_, hnew⟩
    · exact h.root d hold
    · rw [← Option.some.inj hnew]
      exact he
  | cons top outer =>
    obtain ⟨htop, hchildren, houter⟩ := h.opened
    refine ⟨⟨hO outer top _ _ htop, fun c hc => ?_, houter⟩, h.root⟩
    rcases List.mem_append.mp hc with hc | hc
    · exact hchildren c hc
    · rw [List.mem_singleton.mp hc]
      exact he

theorem Holds.addText (hO : Lasting O) (h : b.Holds O P) (text : List Char) :
    (b.addText text).Holds O P := by
  obtain ⟨opened, root⟩ := b
  cases opened with
  | nil => exact h
  | cons top outer =>
    obtain ⟨htop, hchildren, houter⟩ := h.opened
    exact ⟨⟨hO outer top _ _ htop, hchildren, houter⟩, h.root⟩

/-! ## 3. Runs -/

/-- What is asked of an event: `O` holds of the element that it opens, and `P` of the element that
    it completes if it holds of what is in it. -/
structure Keeps (contents : List Char) (O : List OpenElement → OpenElement → Prop)
    (P : Scope → Element → Prop) (b : Builder) (p : Placed) : Prop where
  opens : ∀ tag o, p.event = .start tag ∨ p.event = .empty tag →
    b.openElement contents tag p.range = .ok o → O b.opened o
  completes : ∀ outer o e, Completes contents b p outer o e → O outer o →
    (∀ c ∈ o.element.children, P o.scope c) → P (scopeOfOpened outer) e

/-- **One event** keeps what holds of open and complete elements. -/
theorem Holds.step (hO : Lasting O) (hp : Keeps contents O P b p) (h : b.Holds O P)
    (hstep : b.step contents p = .ok b') : b'.Holds O P := by
  cases Step.of_step hstep with
  | start event opens =>
    refine ⟨⟨hp.opens _ _ (.inl event) opens, ?_, h.opened⟩, h.root⟩
    rw [(openElement_bare opens).2]
    exact List.forall_mem_nil _
  | complete completes =>
    cases completes with
    | empty event opens =>
      refine Holds.attach hO h (hp.completes _ _ _ (.empty event opens)
        (hp.opens _ _ (.inr event) opens) ?_)
      rw [(openElement_bare opens).2]
      exact List.forall_mem_nil _
    | close event opened =>
      have hstack := h.opened
      rw [opened] at hstack
      obtain ⟨htop, hchildren, houter⟩ := hstack
      exact Holds.attach hO ⟨houter, h.root⟩ (hp.completes _ _ _ (.close event opened) htop hchildren)
  | text event => exact h.addText hO _
  | cdata event => exact h.addText hO _
  | other event => exact h

/-- **A run** keeps it, if each event does in the state that the run has come to. -/
theorem Holds.foldlM {events : List Placed} (hO : Lasting O)
    (hevents : ∀ seen p later mid, events = seen ++ p :: later →
      seen.foldlM (Builder.step contents) b = .ok mid → Keeps contents O P mid p)
    (h : b.Holds O P) (hfold : events.foldlM (Builder.step contents) b = .ok b') :
    b'.Holds O P := by
  induction events generalizing b with
  | nil =>
    cases hfold
    exact h
  | cons p ps ih =>
    rw [List.foldlM_cons] at hfold
    obtain ⟨mid, hstep, hrest⟩ := exists_of_bind_eq_ok hfold
    refine ih ?_ (h.step hO (hevents [] p ps b rfl rfl) hstep) hrest
    rintro seen q later last rfl hseen
    refine hevents (p :: seen) q later last rfl ?_
    rw [List.foldlM_cons, hstep]
    exact hseen

end Builder

/-- **What holds of each element when it is completed holds of the root.** -/
theorem parse_holds {contents : List Char} {root : Element}
    {O : List OpenElement → OpenElement → Prop} {P : Scope → Element → Prop} (hO : Lasting O)
    (hevents : ∀ seen p later mid, (scan contents).events = seen ++ p :: later →
      seen.foldlM (Builder.step contents) Builder.empty = .ok mid →
      Builder.Keeps contents O P mid p)
    (h : parse contents = .ok root) : P [] root := by
  obtain ⟨b, hbuilt, _, hfinish⟩ := parse_eq_ok_iff.mp h
  exact (Builder.Holds.foldlM hO hevents Builder.holds_empty hbuilt).root root
    (Builder.root_of_finish hfinish)

end AndroidLint.Xml
