/-
  File:      AndroidLint/Proofs/XmlReplacement.lean
  Subject:   The tree of a text in which character data was replaced.

  Two builders go side by side, one over the text and one over the text with other characters in a
  run or a section. Up to the event that carries these characters they are in the same state. Behind
  it, the elements that were open there differ in their character data, in one place, and all others
  only in where they stand:

  * `Builder.Edited.step`:  what one event behind the part keeps;
  * `Builder.step_reads`:   what the open elements have read up to an event;
  * `parse_replace`:        the tree of the edited text;
  * `parse_tagsBegun`:      where the elements of a tree begin.
-/
import AndroidLint.Proofs.XmlOutline
import AndroidLint.Proofs.XmlReferences

namespace AndroidLint.Xml

open Text

/-! ## 1. Builders side by side -/

theorem Scope.extend_unplaced (outer : Scope) (as : List Attribute) :
    Scope.extend outer (as.map Attribute.unplaced) = Scope.extend outer as := by
  unfold Scope.extend
  rw [List.filter_map, List.map_map]
  rfl

theorem Scope.extend_congr {as as' : List Attribute} (outer : Scope)
    (h : as'.map Attribute.unplaced = as.map Attribute.unplaced) :
    Scope.extend outer as' = Scope.extend outer as := by
  rw [← Scope.extend_unplaced outer as', h, Scope.extend_unplaced]

theorem map_unplaced_resolve (scope : Scope) (as : List Attribute) :
    (as.map (Attribute.resolve scope)).map Attribute.unplaced =
      (as.map Attribute.unplaced).map (Attribute.resolve scope) := by
  rw [List.map_map, List.map_map]
  rfl

theorem map_resolve_congr {as as' : List Attribute} (scope : Scope)
    (h : as'.map Attribute.unplaced = as.map Attribute.unplaced) :
    (as'.map (Attribute.resolve scope)).map Attribute.unplaced =
      (as.map (Attribute.resolve scope)).map Attribute.unplaced := by
  rw [map_unplaced_resolve, h, map_unplaced_resolve]

namespace OpenElement

/-- The same open element, wherever it stands. -/
structure Same (o o' : OpenElement) : Prop where
  scope : o'.scope = o.scope
  element : o'.element.unplaced = o.element.unplaced

/-- An element that is open around the part, while the innermost such element is open too. -/
structure Outer (r : ByteRange) (o o' : OpenElement) : Prop extends Same o o' where
  begins : o.element.range.start ≤ r.start
  earlier : ∀ c ∈ o.element.children, c.range.stop ≤ r.start

/-- The innermost element that is open around the part: it holds the replaced characters. -/
structure Holding (r : ByteRange) (read : Nat → List Char) (old new : List Char)
    (o o' : OpenElement) : Prop where
  scope : o'.scope = o.scope
  begins : o.element.range.start ≤ r.start
  tag : o'.element.tag = o.element.tag
  attributes : o'.element.attributes.map Attribute.unplaced =
    o.element.attributes.map Attribute.unplaced
  text : Element.ReplacedAfter (read o.element.range.start) old new o.element.text o'.element.text
  children : List.Forall₂ (Element.Edited r read old new) o.element.children o'.element.children

end OpenElement

/-- The elements that are open around the part and around an element that begins at `n`: up to the
    part, each has its own text so far and what is read from `n` on. -/
inductive OuterStack (r : ByteRange) (read : Nat → List Char) :
    Nat → List OpenElement → List OpenElement → Prop where
  | nil (n : Nat) : OuterStack r read n [] []
  | cons {n : Nat} {o o' : OpenElement} {outer outer' : List OpenElement} (top : o.Outer r o')
      (reads : read o.element.range.start = o.element.text.toList ++ read n)
      (stack : OuterStack r read o.element.range.start outer outer') :
      OuterStack r read n (o :: outer) (o' :: outer')

/-- The open elements of the two texts: those that began behind the part are the same, and of the
    others the innermost holds the replaced characters. -/
inductive StackEdited (r : ByteRange) (read : Nat → List Char) (old new : List Char) :
    List OpenElement → List OpenElement → Prop where
  | outside : StackEdited r read old new [] []
  | inner {o o' : OpenElement} {outer outer' : List OpenElement} (same : o.Same o')
      (begins : r.stop ≤ o.element.range.start) (stack : StackEdited r read old new outer outer') :
      StackEdited r read old new (o :: outer) (o' :: outer')
  | holding {o o' : OpenElement} {outer outer' : List OpenElement}
      (holds : o.Holding r read old new o')
      (stack : OuterStack r read o.element.range.start outer outer') :
      StackEdited r read old new (o :: outer) (o' :: outer')

namespace Builder

/-- The states of the two builders, behind the part. -/
structure Edited (r : ByteRange) (read : Nat → List Char) (old new : List Char) (b b' : Builder) :
    Prop where
  opened : StackEdited r read old new b.opened b'.opened
  root : Option.Rel (Element.Edited r read old new) b.root b'.root

variable {r : ByteRange} {read : Nat → List Char} {old new : List Char} {b b' : Builder}

theorem Edited.scope (h : b.Edited r read old new b') : b'.scope = b.scope := by
  obtain ⟨opened, root⟩ := b
  obtain ⟨opened', root'⟩ := b'
  cases h.opened with
  | outside => rfl
  | inner same => exact same.scope
  | holding holds => exact holds.scope

theorem Edited.addText (h : b.Edited r read old new b') (text : List Char) :
    (b.addText text).Edited r read old new (b'.addText text) := by
  obtain ⟨opened, root⟩ := b
  obtain ⟨opened', root'⟩ := b'
  refine ⟨?_, ?_⟩
  · cases h.opened with
    | outside => exact .outside
    | inner same begins stack =>
      obtain ⟨tag, attributes, children, words⟩ := Element.unplaced_eq_iff.mp same.element
      refine .inner ⟨same.scope, Element.unplaced_eq_iff.mpr ⟨tag, attributes, children, ?_⟩⟩
        begins stack
      exact congrArg (· ++ String.ofList text) words
    | holding holds stack =>
      exact .holding { holds with text := holds.text.append_right _ } stack
  · cases h.opened <;> exact h.root

theorem rel_or {R : Element → Element → Prop} {e e' : Element} {root root' : Option Element}
    (hroot : Option.Rel R root root') (he : R e e') :
    Option.Rel R (root.or (some e)) (root'.or (some e')) := by
  cases hroot with
  | some h => exact .some h
  | none => exact .some he

/-- An element that began behind the part is put into the innermost open one. -/
theorem Edited.attach_behind {e e' : Element} (h : b.Edited r read old new b')
    (hplace : r.stop ≤ e.range.start) (hsame : e'.unplaced = e.unplaced) :
    (b.attach e).Edited r read old new (b'.attach e') := by
  have hedited : e.Edited r read old new e' := .apart (.inr hplace) hsame
  have hwords : e'.text = e.text := (Element.unplaced_eq_iff.mp hsame).2.2.2
  obtain ⟨opened, root⟩ := b
  obtain ⟨opened', root'⟩ := b'
  obtain ⟨hopened, hroot⟩ := h
  cases hopened with
  | outside => exact ⟨.outside, rel_or hroot hedited⟩
  | @inner top top' outer outer' same begins stack =>
    obtain ⟨tag, attributes, children, words⟩ := Element.unplaced_eq_iff.mp same.element
    refine ⟨.inner ⟨same.scope, Element.unplaced_eq_iff.mpr ⟨tag, attributes, ?_, ?_⟩⟩ begins stack,
      hroot⟩
    · show (top'.element.children ++ [e']).map Element.unplaced =
        (top.element.children ++ [e]).map Element.unplaced
      rw [List.map_append, List.map_append, children, List.map_singleton, List.map_singleton, hsame]
    · show top'.element.text ++ e'.text = top.element.text ++ e.text
      rw [words, hwords]
  | @holding top top' outer outer' holds stack =>
    refine ⟨.holding { holds with text := ?_, children := ?_ } stack, hroot⟩
    · show Element.ReplacedAfter _ old new (top.element.text ++ e.text)
        (top'.element.text ++ e'.text)
      rw [hwords]
      exact holds.text.append_right e.text
    · exact List.rel_append holds.children (.cons hedited .nil)

/-- The element that holds the replaced characters is put into the next one, which holds them
    then. -/
theorem Edited.attach_around {e e' : Element}
    (hstack : OuterStack r read e.range.start b.opened b'.opened)
    (hroot : Option.Rel (Element.Edited r read old new) b.root b'.root)
    (he : e.Edited r read old new e')
    (htext : Element.ReplacedAfter (read e.range.start) old new e.text e'.text) :
    (b.attach e).Edited r read old new (b'.attach e') := by
  obtain ⟨opened, root⟩ := b
  obtain ⟨opened', root'⟩ := b'
  cases hstack with
  | nil => exact ⟨.outside, rel_or hroot he⟩
  | @cons _ top top' outer outer' htop hreads houter =>
    obtain ⟨tag, attributes, children, words⟩ := Element.unplaced_eq_iff.mp htop.element
    have hearlier : List.Forall₂ (Element.Edited r read old new) top.element.children
        top'.element.children :=
      Element.forall₂_edited_of_apart (fun c hc => .inl (htop.earlier c hc)) children
    refine ⟨.holding ⟨htop.scope, htop.begins, tag, attributes, ?_, ?_⟩ houter, hroot⟩
    · show Element.ReplacedAfter (read top.element.range.start) old new
        (top.element.text ++ e.text) (top'.element.text ++ e'.text)
      rw [words, hreads]
      exact htext.append_left top.element.text
    · exact List.rel_append hearlier (.cons he .nil)

/-! ## 2. Events behind the part -/

section Behind

variable {before behind : List Char}

/-- A tag behind other characters begins the same element, in the same scope. -/
theorem openElement_move (hscope : b'.scope = b.scope) (before' : List Char) {q : Placed}
    (hq : q.LiesIn behind) {tag : List Char} (htag : q.event = .start tag ∨ q.event = .empty tag)
    {o : OpenElement}
    (ho : b.openElement (before ++ behind) tag (q.range.shift (width before)) = .ok o) :
    ∃ o', b'.openElement (before' ++ behind) tag (q.range.shift (width before')) = .ok o' ∧
      o.Same o' := by
  obtain ⟨as, written, cs, rfl, hrange, _, hwritten⟩ := hq
  obtain ⟨inner, rfl⟩ := hwritten tag htag
  have hplace : ∀ front : List Char, q.range.shift (width front) =
      ⟨width (front ++ as), width (front ++ as) + width (writtenTag tag inner)⟩ := by
    intro front
    rw [hrange, width_append]
    simp only [ByteRange.shift, ByteRange.mk.injEq]
    omega
  have hparts : ∀ front : List Char, front ++ (as ++ writtenTag tag inner ++ cs) =
      front ++ as ++ writtenTag tag inner ++ cs := by
    intro front
    simp only [List.append_assoc]
  unfold Builder.openElement at ho ⊢
  rw [hplace, hparts] at ho ⊢
  obtain ⟨attributes, hread, rfl⟩ := exists_of_map_eq_ok ho
  obtain ⟨attributes', hread', hsame⟩ := attributesOf_writtenTag_move hread
  rw [hread']
  have hinside : b'.scope.extend attributes' = b.scope.extend attributes := by
    rw [hscope, Scope.extend_congr _ hsame]
  refine ⟨_, rfl, hinside, Element.unplaced_eq_iff.mpr ⟨rfl, ?_, rfl, rfl⟩⟩
  dsimp only
  rw [hinside]
  exact map_resolve_congr _ hsame

/-- **One event behind the part** keeps what the two builders have in common. -/
theorem Edited.step (h : b.Edited r read old new b') (before' : List Char) {q : Placed}
    (hq : q.LiesIn behind) (hpast : r.stop ≤ width before) {c : Builder}
    (hstep : b.step (before ++ behind) (q.shift (width before)) = .ok c) :
    ∃ c', b'.step (before' ++ behind) (q.shift (width before')) = .ok c' ∧
      c.Edited r read old new c' := by
  have hstart : r.stop ≤ (q.range.shift (width before)).start :=
    Nat.le_trans hpast (Nat.le_add_left _ _)
  unfold Builder.step at hstep ⊢
  dsimp only [Placed.shift] at hstep ⊢
  cases hevent : q.event with
  | start tag =>
    rw [hevent] at hstep
    obtain ⟨o, ho, rfl⟩ := exists_of_map_eq_ok hstep
    obtain ⟨o', ho', hsame⟩ := openElement_move h.scope before' hq (.inl hevent) ho
    dsimp only
    rw [ho']
    refine ⟨_, rfl, .inner hsame ?_ h.opened, h.root⟩
    rw [(openElement_bare ho).1]
    exact hstart
  | empty tag =>
    rw [hevent] at hstep
    obtain ⟨o, ho, rfl⟩ := exists_of_map_eq_ok hstep
    obtain ⟨o', ho', hsame⟩ := openElement_move h.scope before' hq (.inr hevent) ho
    dsimp only
    rw [ho']
    refine ⟨_, rfl, h.attach_behind ?_ hsame.element⟩
    rw [(openElement_bare ho).1]
    exact hstart
  | close =>
    rw [hevent] at hstep
    obtain ⟨opened, root⟩ := b
    obtain ⟨opened', root'⟩ := b'
    obtain ⟨hopened, hroot⟩ := h
    cases hopened with
    | outside => cases hstep
    | @inner top top' outer outer' same begins stack =>
      cases hstep
      refine ⟨_, rfl, Edited.attach_behind ⟨stack, hroot⟩ begins ?_⟩
      have hsame := Element.unplaced_eq_iff.mp same.element
      exact Element.unplaced_eq_iff.mpr hsame
    | @holding top top' outer outer' holds stack =>
      cases hstep
      have hstop : r.stop ≤ q.range.stop + width before :=
        Nat.le_trans hpast (Nat.le_add_left _ _)
      refine ⟨_, rfl, Edited.attach_around stack hroot ?_ holds.text⟩
      exact .around ⟨holds.begins, hstop⟩ holds.tag holds.attributes holds.text holds.children
  | text written =>
    rw [hevent] at hstep
    cases hstep
    exact ⟨_, rfl, h.addText _⟩
  | cdata written =>
    rw [hevent] at hstep
    cases hstep
    exact ⟨_, rfl, h.addText _⟩
  | other =>
    rw [hevent] at hstep
    cases hstep
    exact ⟨_, rfl, h⟩

/-- What each event behind some characters keeps of two builders, all of them keep. -/
theorem foldlM_related {R : Builder → Builder → Prop} {before' : List Char}
    (hsteps : ∀ {b b' c : Builder} {q : Placed}, R b b' → q.LiesIn behind →
      b.step (before ++ behind) (q.shift (width before)) = .ok c →
      ∃ c', b'.step (before' ++ behind) (q.shift (width before')) = .ok c' ∧ R c c')
    {events : List Placed} (h : R b b') (hevents : ∀ q ∈ events, q.LiesIn behind) {c : Builder}
    (hfold : (events.map (Placed.shift (width before))).foldlM
      (Builder.step (before ++ behind)) b = .ok c) :
    ∃ c', (events.map (Placed.shift (width before'))).foldlM
        (Builder.step (before' ++ behind)) b' = .ok c' ∧ R c c' := by
  induction events generalizing b b' with
  | nil =>
    cases hfold
    exact ⟨b', rfl, h⟩
  | cons q events ih =>
    obtain ⟨hq, hevents⟩ := List.forall_mem_cons.mp hevents
    rw [List.map_cons, List.foldlM_cons] at hfold
    obtain ⟨mid, hstep, hrest⟩ := exists_of_bind_eq_ok hfold
    obtain ⟨mid', hstep', hmid⟩ := hsteps h hq hstep
    obtain ⟨c', hrest', hc⟩ := ih hmid hevents hrest
    refine ⟨c', ?_, hc⟩
    rw [List.map_cons, List.foldlM_cons, hstep']
    exact hrest'

/-- **All events behind the part.** -/
theorem Edited.foldlM {events : List Placed} (h : b.Edited r read old new b') (before' : List Char)
    (hevents : ∀ q ∈ events, q.LiesIn behind) (hpast : r.stop ≤ width before) {c : Builder}
    (hfold : (events.map (Placed.shift (width before))).foldlM
      (Builder.step (before ++ behind)) b = .ok c) :
    ∃ c', (events.map (Placed.shift (width before'))).foldlM
        (Builder.step (before' ++ behind)) b' = .ok c' ∧ c.Edited r read old new c' := by
  exact foldlM_related (fun hb hq hstep => hb.step before' hq hpast hstep) h hevents hfold

end Behind

end Builder

/-! ## 3. What is read before the part -/

/-- The characters that events carry from an offset on. -/
def charactersFrom (events : List Placed) (n : Nat) : List Char :=
  (events.filter fun p => decide (n ≤ p.range.start)).flatMap fun p => p.event.characters

theorem charactersFrom_concat {events : List Placed} {p : Placed} {n : Nat}
    (h : n ≤ p.range.start) :
    charactersFrom (events ++ [p]) n = charactersFrom events n ++ p.event.characters := by
  have hp : ([p].filter fun q => decide (n ≤ q.range.start)) = [p] :=
    List.filter_cons_of_pos (decide_eq_true h)
  unfold charactersFrom
  rw [List.filter_append, List.flatMap_append, hp, List.flatMap_singleton]

theorem charactersFrom_of_lt {events : List Placed} {n : Nat}
    (h : ∀ q ∈ events, q.range.start < n) : charactersFrom events n = [] := by
  have hnone : (events.filter fun p => decide (n ≤ p.range.start)) = [] := by
    refine List.filter_eq_nil_iff.mpr fun q hq => ?_
    rw [decide_eq_true_iff]
    exact Nat.not_le_of_lt (h q hq)
  rw [charactersFrom, hnone, List.flatMap_nil]

/-- Since it began, each open element has read its own text and then that of the element that is
    open in it, the innermost one some more characters. -/
def StackReads (read : Nat → List Char) : List Char → List OpenElement → Prop
  | _, [] => True
  | inner, o :: outer =>
    read o.element.range.start = o.element.text.toList ++ inner ∧
      StackReads read (o.element.text.toList ++ inner) outer

theorem StackReads.append {read read' : Nat → List Char} {inner more : List Char}
    {opened : List OpenElement} (h : StackReads read inner opened)
    (hmore : ∀ o ∈ opened, read' o.element.range.start = read o.element.range.start ++ more) :
    StackReads read' (inner ++ more) opened := by
  induction opened generalizing inner with
  | nil => trivial
  | cons o outer ih =>
    obtain ⟨hreads, houter⟩ := h
    obtain ⟨hfirst, hrest⟩ := List.forall_mem_cons.mp hmore
    refine ⟨?_, ?_⟩
    · rw [hfirst, hreads, List.append_assoc]
    · rw [← List.append_assoc]
      exact ih houter hrest

theorem StackNestedAt.start_lt {n : Nat} {opened : List OpenElement} (h : StackNestedAt n opened)
    {o : OpenElement} (ho : o ∈ opened) : o.element.range.start < n := by
  induction opened generalizing n with
  | nil => cases ho
  | cons top outer ih =>
    obtain ⟨hholds, _, houter⟩ := h
    have htop : top.element.range.start < n := hholds.le
    rcases List.mem_cons.mp ho with rfl | ho
    · exact htop
    · exact Nat.lt_trans (ih houter ho) htop

/-- The innermost element takes the characters into its text. -/
theorem StackReads.extend {read : Nat → List Char} {more : List Char} {top top' : OpenElement}
    {outer : List OpenElement} (h : StackReads read more (top :: outer))
    (hrange : top'.element.range = top.element.range)
    (htext : top'.element.text.toList = top.element.text.toList ++ more) :
    StackReads read [] (top' :: outer) := by
  obtain ⟨hreads, houter⟩ := h
  refine ⟨?_, ?_⟩
  · rw [hrange, htext, List.append_nil]
    exact hreads
  · rw [htext, List.append_nil]
    exact houter

namespace Builder

theorem reads_attach {read : Nat → List Char} {b : Builder} {e : Element}
    (h : StackReads read e.text.toList b.opened) : StackReads read [] (b.attach e).opened := by
  obtain ⟨opened, root⟩ := b
  cases opened with
  | nil => trivial
  | cons top outer => exact h.extend rfl String.toList_append

theorem reads_addText {read : Nat → List Char} {b : Builder} {text : List Char}
    (h : StackReads read text b.opened) : StackReads read [] (b.addText text).opened := by
  obtain ⟨opened, root⟩ := b
  cases opened with
  | nil => trivial
  | cons top outer =>
    refine h.extend rfl ?_
    show (top.element.text ++ String.ofList text).toList = _
    rw [String.toList_append, String.toList_ofList]

theorem openElement_text {contents tag : List Char} {b : Builder} {range : ByteRange}
    {o : OpenElement} (h : b.openElement contents tag range = .ok o) :
    o.element.text.toList = [] := by
  obtain ⟨as, _, rfl⟩ := exists_of_map_eq_ok h
  rfl

/-- **One event adds its characters to what the open elements have read.** -/
theorem step_reads {contents : List Char} {b b' : Builder} {events : List Placed} {p : Placed}
    (hb : b.NestedAt p.range.start) (hevents : ∀ q ∈ events, q.range.start < p.range.start)
    (hreads : StackReads (charactersFrom events) [] b.opened) (h : b.step contents p = .ok b') :
    StackReads (charactersFrom (events ++ [p])) [] b'.opened := by
  have hmore : StackReads (charactersFrom (events ++ [p])) p.event.characters b.opened :=
    hreads.append fun o ho => charactersFrom_concat (Nat.le_of_lt (hb.opened.start_lt ho))
  cases Step.of_step h with
  | @start tag o event opens =>
    have hnew : charactersFrom (events ++ [p]) o.element.range.start = [] := by
      rw [(openElement_bare opens).1, charactersFrom_concat (Nat.le_refl _), event,
        charactersFrom_of_lt hevents]
      rfl
    rw [event] at hmore
    refine ⟨?_, ?_⟩
    · rw [hnew, openElement_text opens]
      rfl
    · rw [openElement_text opens]
      exact hmore
  | @complete outer o e completes =>
    cases completes with
    | empty event opens =>
      rw [event] at hmore
      refine reads_attach ?_
      rw [openElement_text opens]
      exact hmore
    | close event opened =>
      rw [event, opened] at hmore
      have hnone : o.element.text.toList ++ Event.close.characters =
          o.element.text.toList := List.append_nil _
      obtain ⟨_, houter⟩ := hmore
      rw [hnone] at houter
      exact reads_attach houter
  | text event =>
    rw [event] at hmore
    exact reads_addText hmore
  | cdata event =>
    rw [event] at hmore
    exact reads_addText hmore
  | other event =>
    rw [event] at hmore
    exact hmore

/-- **A run over consecutive events**, behind some that were seen before. -/
theorem foldlM_reads {contents : List Char} {seen events : List Placed} {n : Nat} {b b' : Builder}
    (hevents : Consecutive n events) (hlt : ∀ p ∈ events, p.range.start < p.range.stop)
    (hseen : ∀ q ∈ seen, q.range.start < n) (hb : b.NestedAt n)
    (hreads : StackReads (charactersFrom seen) [] b.opened)
    (h : events.foldlM (step contents) b = .ok b') :
    StackReads (charactersFrom (seen ++ events)) [] b'.opened := by
  induction events generalizing n seen b with
  | nil =>
    cases h
    rw [List.append_nil]
    exact hreads
  | cons p ps ih =>
    obtain ⟨rfl, hrest⟩ := hevents
    obtain ⟨hp, hps⟩ := List.forall_mem_cons.mp hlt
    rw [List.foldlM_cons] at h
    obtain ⟨mid, hstep, hfold⟩ := exists_of_bind_eq_ok h
    have hseen' : ∀ q ∈ seen ++ [p], q.range.start < p.range.stop := by
      intro q hq
      rcases List.mem_append.mp hq with hq | hq
      · exact Nat.lt_trans (hseen q hq) hp
      · rw [List.mem_singleton.mp hq]
        exact hp
    rw [← List.singleton_append, ← List.append_assoc]
    exact ih hrest hps hseen' (step_nestedAt hb hp hstep) (step_reads hb hseen hreads hstep) hfold

/-! ## 4. Events before the part, and the part -/

variable {r : ByteRange} {read : Nat → List Char} {old new : List Char} {b b' : Builder}

/-- The elements that are open at the part. -/
theorem outerStack_of_nested {m n : Nat} {inner front : List Char} {opened : List OpenElement}
    (h : StackNestedAt n opened) (hle : n ≤ r.start) (hreads : StackReads read inner opened)
    (hinner : read m = inner) :
    OuterStack r (fun k => read k ++ front) m opened opened := by
  induction opened generalizing n m inner with
  | nil => exact .nil m
  | cons o outer ih =>
    obtain ⟨hholds, _, houter⟩ := h
    obtain ⟨hread, hrest⟩ := hreads
    have hbegins : o.element.range.start < n := hholds.le
    have hearlier : ∀ c ∈ o.element.children, c.range.stop ≤ r.start := fun c hc =>
      Nat.le_trans (hholds.of_mem (List.mem_map_of_mem hc)).2 hle
    refine .cons ⟨⟨rfl, rfl⟩, by omega, hearlier⟩ ?_ (ih houter (by omega) hrest hread)
    rw [hread, hinner, List.append_assoc]

/-- Character data that differs in one place goes to the innermost open element. -/
theorem NestedAt.edited_addText (hb : b.NestedAt r.start) (hreads : StackReads read [] b.opened)
    (front back : List Char) :
    (b.addText (front ++ (old ++ back))).Edited r (fun n => read n ++ front) old new
      (b.addText (front ++ (new ++ back))) := by
  obtain ⟨opened, root⟩ := b
  have hroot : Option.Rel (Element.Edited r (fun n => read n ++ front) old new) root root := by
    cases root with
    | none => exact .none
    | some e => exact .some (.apart (.inl (hb.root e rfl).2) rfl)
  cases opened with
  | nil => exact ⟨.outside, hroot⟩
  | cons top outer =>
    obtain ⟨hholds, _, houter⟩ := hb.opened
    obtain ⟨hread, hrest⟩ := hreads
    have hbegins : top.element.range.start < r.start := hholds.le
    have hearlier : ∀ c ∈ top.element.children, c.Apart r := fun c hc =>
      .inl (hholds.of_mem (List.mem_map_of_mem hc)).2
    refine ⟨.holding ⟨rfl, Nat.le_of_lt hbegins, rfl, rfl, ⟨back, ?_, ?_⟩,
      Element.forall₂_edited_of_apart hearlier rfl⟩
      (outerStack_of_nested houter (Nat.le_of_lt hbegins) hrest hread), hroot⟩
    · simp only [String.toList_append, String.toList_ofList, hread, List.append_assoc,
        List.nil_append]
    · simp only [String.toList_append, String.toList_ofList, hread, List.append_assoc,
        List.nil_append]

/-- An event that carries characters adds them to the innermost open element. -/
theorem step_data {contents w : List Char} {b : Builder} {p : Placed}
    (h : p.event.data? = some w) : b.step contents p = .ok (b.addText p.event.characters) := by
  obtain ⟨event, range⟩ := p
  cases event with
  | text | cdata => rfl
  | start | empty | close | other => cases h

theorem step_append_congr {before : List Char} {p : Placed} (hp : p.LiesIn before)
    (x y : List Char) (b : Builder) : b.step (before ++ x) p = b.step (before ++ y) p := by
  have hopen : ∀ tag, p.event = .start tag ∨ p.event = .empty tag →
      b.openElement (before ++ x) tag p.range = b.openElement (before ++ y) tag p.range := by
    intro tag htag
    obtain ⟨as, written, cs, rfl, hrange, _, hwritten⟩ := hp
    obtain ⟨inner, rfl⟩ := hwritten tag htag
    unfold Builder.openElement
    rw [hrange, List.append_assoc _ cs, List.append_assoc _ cs, attributesOf_eq_attributesFrom,
      attributesOf_eq_attributesFrom]
  unfold Builder.step
  split
  · next tag htag => rw [hopen tag (.inl htag)]
  · next tag htag => rw [hopen tag (.inr htag)]
  all_goals rfl

/-- Both builders come to an end, or none of them. -/
theorem Edited.finish (h : b.Edited r read old new b') {e : Element} (hfinish : b.finish = .ok e) :
    ∃ e', b'.finish = .ok e' ∧ e.Edited r read old new e' := by
  obtain ⟨opened, root⟩ := b
  obtain ⟨opened', root'⟩ := b'
  obtain ⟨hopened, hroot⟩ := h
  cases hopened with
  | outside =>
    cases hroot with
    | none => cases hfinish
    | some hedited =>
      cases hfinish
      exact ⟨_, rfl, hedited⟩
  | inner => cases hfinish
  | holding => cases hfinish

/-- Events before the part are the same for both texts. -/
theorem foldlM_append_congr {before : List Char} {events : List Placed}
    (hevents : ∀ p ∈ events, p.LiesIn before) (x y : List Char) (b : Builder) :
    events.foldlM (Builder.step (before ++ x)) b =
      events.foldlM (Builder.step (before ++ y)) b := by
  induction events generalizing b with
  | nil => rfl
  | cons p events ih =>
    obtain ⟨hp, hevents⟩ := List.forall_mem_cons.mp hevents
    rw [List.foldlM_cons, List.foldlM_cons, step_append_congr hp x y]
    exact congrArg _ (funext fun c => ih hevents c)

end Builder

/-! ## 5. Whole texts -/

/-- An event that ends in the first part of a text lies in it. -/
theorem Placed.LiesIn.of_append {before rest : List Char} {p : Placed}
    (h : p.LiesIn (before ++ rest)) (hstop : p.range.stop ≤ width before) : p.LiesIn before := by
  obtain ⟨as, written, cs, hparts, hrange, hne, hwritten⟩ := h
  have hle : width (as ++ written) ≤ width before := by
    rw [hrange] at hstop
    rw [width_append]
    exact hstop
  obtain ⟨mid, rfl, _⟩ := exists_append_of_width_le hparts.symm hle
  exact ⟨as, written, mid, rfl, hrange, hne, hwritten⟩

/-- A run over events, taken apart at one of them. -/
theorem foldlM_append_cons_iff {ε σ α : Type} {f : σ → α → Except ε σ} {s t : σ} {as bs : List α}
    {a : α} : (as ++ a :: bs).foldlM f s = .ok t ↔
      ∃ m n, as.foldlM f s = .ok m ∧ f m a = .ok n ∧ bs.foldlM f n = .ok t := by
  induction as generalizing s with
  | nil =>
    rw [List.nil_append, List.foldlM_cons]
    constructor
    · intro h
      obtain ⟨n, hn, hrest⟩ := exists_of_bind_eq_ok h
      exact ⟨s, n, rfl, hn, hrest⟩
    · rintro ⟨m, n, hm, hn, hrest⟩
      cases hm
      rw [hn]
      exact hrest
  | cons b as ih =>
    rw [List.cons_append, List.foldlM_cons, List.foldlM_cons]
    cases f s b with
    | error e =>
      constructor
      · intro h
        cases h
      · rintro ⟨m, n, hm, _⟩
        cases hm
    | ok s' => exact ih

/-- **The tree of a text with other characters in a run or a section.** It is there, and differs from
    the one before only in those characters. What an element reads up to them is what the events since
    its beginning carry, and the characters before them in the run or section. -/
theorem parse_replace {contents w : List Char} {root : Element} {p : Placed}
    {earlier later : List Placed} (hmark : contents.head? ≠ some byteOrderMark)
    (h : parse contents = .ok root) (hsplit : (scan contents).events = earlier ++ p :: later)
    (hw : p.event.data? = some w) :
    ∃ before opening closing behind, p.Carries contents w before opening closing behind ∧
      ∀ front old back, w = front ++ (old ++ back) → Inert old →
        ∃ f, ('&' ∉ front → f = front) ∧ ∀ new, Inert new → '<' ∉ new →
          ∃ root', parse (before ++ (opening ++ (front ++ (new ++ back) ++ closing)) ++ behind) =
              .ok root' ∧
            root.Edited p.range (fun n => charactersFrom earlier n ++ f) old new root' := by
  obtain ⟨hevents, hlie⟩ := scan_covers hmark
  obtain ⟨built, hbuilt, hfault, hrest⟩ := parse_eq_ok_iff.mp h
  obtain ⟨before, opening, closing, behind, events, hcarries, rfl, hbehind, hscan⟩ :=
    scan_replace hmark hfault hsplit hw
  refine ⟨before, opening, closing, behind, hcarries, ?_⟩
  intro front old back hparts hold
  obtain ⟨f, b, hf, hcharacters⟩ := Event.characters_inert hw front back
  refine ⟨f, hf, ?_⟩
  intro new hnew hopen
  rw [hsplit] at hevents hlie hbuilt
  obtain ⟨hconsecutive, hstart⟩ := hevents.append
  have hlt : ∀ q ∈ earlier, q.range.start < q.range.stop := fun q hq =>
    (hlie q (List.mem_append_left _ hq)).lt
  have hbefore : ∀ q ∈ earlier, q.LiesIn before := by
    intro q hq
    have hstop := hconsecutive.stop_le_reached hlt hq
    rw [← hstart, hcarries.range] at hstop
    have hlies := hlie q (List.mem_append_left _ hq)
    rw [hcarries.parts, List.append_assoc] at hlies
    exact hlies.of_append hstop
  obtain ⟨mid, first, hearlier, hfirst, hlater⟩ := foldlM_append_cons_iff.mp hbuilt
  -- up to the event both builders are in one state, in which the open elements are nested
  have hempty : Builder.empty.NestedAt 0 := ⟨trivial, fun _ hnone => by cases hnone⟩
  have hnested : mid.NestedAt p.range.start :=
    hstart ▸ Builder.foldlM_nestedAt hconsecutive hlt hempty hearlier
  have hreads : StackReads (charactersFrom ([] ++ earlier)) [] mid.opened :=
    Builder.foldlM_reads hconsecutive hlt (List.forall_mem_nil _) hempty trivial hearlier
  -- the event makes the difference
  have hadd : first = mid.addText (f ++ (old ++ b)) := by
    rw [Builder.step_data hw] at hfirst
    rw [← hcharacters old hold, ← hparts, Event.withData_self hw]
    exact (Except.ok.inj hfirst).symm
  have hedited : first.Edited p.range (fun n => charactersFrom earlier n ++ f) old new
      (mid.addText (f ++ (new ++ b))) := hadd ▸ hnested.edited_addText hreads f b
  -- and the events behind it keep it
  generalize hwritten : before ++ (opening ++ (front ++ (new ++ back) ++ closing)) = written
  have hpast : p.range.stop ≤ width (before ++ (opening ++ (w ++ closing))) := by
    rw [hcarries.range]
  rw [hcarries.parts] at hlater hearlier
  obtain ⟨built', hlater', hfinal⟩ := hedited.foldlM written hbehind hpast hlater
  obtain ⟨root', hfinish, hroot⟩ := hfinal.finish hrest
  have hstep : mid.step (written ++ behind)
      ⟨p.event.withData (front ++ (new ++ back)), ⟨width before, width written⟩⟩ =
      .ok (mid.addText (f ++ (new ++ b))) := by
    rw [Builder.step_data (Event.data?_withData hw _)]
    dsimp only
    rw [hcharacters new hnew]
  have hread := hscan front old back new hparts hnew hopen written hwritten.symm
  refine ⟨root', parse_eq_ok_iff.mpr ⟨built', ?_, by rw [hread], hfinish⟩, hroot⟩
  rw [hread]
  refine foldlM_append_cons_iff.mpr ⟨mid, _, ?_, hstep, hlater'⟩
  rw [← hwritten, List.append_assoc before, Builder.foldlM_append_congr hbefore, ← List.append_assoc]
  exact hearlier

/-! ## 6. Where elements begin -/

/-- The event begins an element with a tag, or is a whole one. -/
def Event.Begins (tag : List Char) (e : Event) : Prop := e = .start tag ∨ e = .empty tag

theorem Event.Begins.data? {tag : List Char} {e : Event} (h : e.Begins tag) : e.data? = none := by
  rcases h with rfl | rfl <;> rfl

/-- One of the events begins the element, with its tag, and the attributes are those that are read
    there. -/
def Element.TagBegun (contents : List Char) (events : List Placed) (e : Element) : Prop :=
  ∃ q ∈ events, q.range = e.startTag ∧ q.event.Begins e.tag.toList ∧
    ∃ as scope, attributesOf contents q.range (width e.tag.toList) = .ok as ∧
      e.attributes = as.map (Attribute.resolve scope)

/-- So it is with all elements in the tree. -/
def Element.TagsBegun (contents : List Char) (events : List Placed) (e : Element) : Prop :=
  ∀ d : Element, d.Within e → d.TagBegun contents events

theorem Element.TagsBegun.of_children {contents : List Char} {events : List Placed} {e : Element}
    (he : e.TagBegun contents events) (hc : ∀ c ∈ e.children, c.TagsBegun contents events) :
    e.TagsBegun contents events := by
  intro d hd
  cases hd with
  | self => exact he
  | child hmem hd => exact hc _ hmem d hd

/-- **Each element of the tree begins with the event that has its tag.** -/
theorem parse_tagsBegun {contents : List Char} {root : Element} (h : parse contents = .ok root) :
    root.TagsBegun contents (scan contents).events := by
  refine parse_holds (O := fun _ o => o.element.TagBegun contents (scan contents).events)
    (P := fun _ e => e.TagsBegun contents (scan contents).events) (fun _ _ _ _ ho => ho) ?_ h
  intro seen p later mid hsplit _
  refine ⟨fun tag o hbegins ho => ?_, fun outer o e hcompletes hbegun hchildren => ?_⟩
  · have hp : p ∈ (scan contents).events :=
      hsplit ▸ List.mem_append_right seen List.mem_cons_self
    obtain ⟨as, hread, rfl⟩ := exists_of_map_eq_ok ho
    refine ⟨p, hp, rfl, ?_, as, _, ?_, rfl⟩
    · rwa [String.toList_ofList]
    · rwa [String.toList_ofList]
  · cases hcompletes with
    | empty => exact .of_children hbegun hchildren
    | close => exact .of_children hbegun hchildren

/-- The start tag of the element is one of the events. -/
def Element.TagRead (events : List Placed) (e : Element) : Prop :=
  ∃ q ∈ events, q.range = e.startTag ∧ q.event.data? = none

/-- So are those of all elements in the tree. -/
def Element.TagsRead (events : List Placed) (e : Element) : Prop :=
  ∀ d : Element, d.Within e → d.TagRead events

/-- **Each element of the tree begins with an event that carries no characters.** -/
theorem parse_tagsRead {contents : List Char} {root : Element} (h : parse contents = .ok root) :
    root.TagsRead (scan contents).events := by
  intro d hd
  obtain ⟨q, hq, hrange, hbegins, _⟩ := parse_tagsBegun h d hd
  exact ⟨q, hq, hrange, hbegins.data?⟩

end AndroidLint.Xml
