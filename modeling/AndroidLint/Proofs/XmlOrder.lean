/-
  File:      AndroidLint/Proofs/XmlOrder.lean
  Subject:   The elements below one, in the order of the text.

  `descendants` collects a tree level by level and sorts what it has by where it begins. The tree of a
  text is nested as the tags are, so an element begins before all that is in it and ends before the
  next one begins. Sorted in this way, a tree is in the order in which one walks through it:

  * `breadthFirst_perm`:        level by level and depth first are the same elements;
  * `Builder.step_nestedAt`:    what one event keeps;
  * `parse_nested`:             every tree of a text is nested, with or without a byte order mark;
  * `descendants_depthFirst`:   so its elements come depth first.
-/
import AndroidLint.Proofs.XmlRanges
import Mathlib.Data.List.Nodup

namespace AndroidLint.Xml

namespace Element

/-! ## 1. Depth first -/

mutual

/-- The element and all elements inside it: first itself, then the trees of its children. -/
def preorder (e : Element) : List Element :=
  match e with
  | ⟨tag, attributes, children, text, range, contentRange⟩ =>
    ⟨tag, attributes, children, text, range, contentRange⟩ :: preorders children

/-- The elements of several trees, one tree after the other. -/
def preorders (es : List Element) : List Element :=
  match es with
  | [] => []
  | e :: rest => preorder e ++ preorders rest

end

theorem preorder_eq (e : Element) : e.preorder = e :: preorders e.children := by
  cases e
  rw [preorder]

theorem preorders_append (as bs : List Element) :
    preorders (as ++ bs) = preorders as ++ preorders bs := by
  induction as with
  | nil => simp [preorders]
  | cons a as ih => simp [preorders, ih]

theorem mem_preorders {d : Element} {es : List Element} :
    d ∈ preorders es ↔ ∃ e ∈ es, d ∈ e.preorder := by
  induction es with
  | nil => simp [preorders]
  | cons e es ih => simp [preorders, ih]

/-- **Level by level and depth first are the same elements**, each as often. -/
theorem breadthFirst_perm (queue : List Element) : (breadthFirst queue).Perm (preorders queue) := by
  fun_induction breadthFirst queue with
  | case1 => exact List.Perm.refl _
  | case2 e queue ih =>
    rw [preorders_append] at ih
    rw [preorders, preorder_eq, List.cons_append]
    exact (ih.trans List.perm_append_comm).cons e

theorem size_le_of_mem {c : Element} {es : List Element} (hc : c ∈ es) : c.size ≤ sizes es := by
  induction es with
  | nil => cases hc
  | cons e es ih =>
    rw [sizes]
    rcases List.mem_cons.mp hc with rfl | hc
    · exact Nat.le_add_right _ _
    · exact Nat.le_trans (ih hc) (Nat.le_add_left _ _)

/-- What follows for an element from its children holds of all elements. -/
theorem tree_induction {motive : Element → Prop}
    (step : ∀ e : Element, (∀ c ∈ e.children, motive c) → motive e) (e : Element) : motive e :=
  step e fun c hc =>
    have : c.size < e.size := by
      have hle := size_le_of_mem hc
      rw [size_eq e]
      omega
    tree_induction step c
termination_by e.size

theorem mem_preorder_iff {d : Element} (e : Element) : d ∈ e.preorder ↔ d.Within e := by
  induction e using tree_induction with
  | step e ih =>
    rw [preorder_eq, List.mem_cons, mem_preorders]
    constructor
    · rintro (rfl | ⟨c, hc, hd⟩)
      · exact .self _
      · exact .child hc ((ih c hc).mp hd)
    · intro h
      cases h with
      | self => exact Or.inl rfl
      | child hc hd => exact Or.inr ⟨_, hc, (ih _ hc).mpr hd⟩

/-! ## 2. Nested trees -/

/-- The children begin behind the beginning of the element and follow each other up to an offset. -/
def HoldsUpTo (n : Nat) (e : Element) : Prop :=
  ByteRange.InOrder (e.range.start + 1) n (e.children.map (·.range))

/-- In every element of the tree the children follow each other inside it. -/
def Nested (e : Element) : Prop := ∀ d : Element, d.Within e → d.HoldsUpTo d.range.stop

theorem Within.trans {c d e : Element} (hcd : c.Within d) (hde : d.Within e) : c.Within e := by
  induction hde with
  | self => exact hcd
  | child hmem _ ih => exact .child hmem ih

theorem Nested.of_within {d e : Element} (h : e.Nested) (hd : d.Within e) : d.Nested :=
  fun c hc => h c (hc.trans hd)

theorem Nested.of_children {e : Element} (he : e.HoldsUpTo e.range.stop)
    (hc : ∀ c ∈ e.children, c.Nested) : e.Nested := by
  intro d hd
  cases hd with
  | self => exact he
  | child hmem hd => exact hc _ hmem d hd

/-- The end tag completes an element. -/
theorem HoldsUpTo.close {e : Element} {r : ByteRange} (he : e.HoldsUpTo r.start)
    (hr : r.start ≤ r.stop) (hc : ∀ c ∈ e.children, c.Nested) :
    { e with
      range := ⟨e.range.start, r.stop⟩
      contentRange := ⟨e.contentRange.start, r.start⟩ : Element }.Nested :=
  Nested.of_children (he.mono (Nat.le_refl _) hr) hc

theorem Nested.lt {e : Element} (h : e.Nested) : e.range.start < e.range.stop :=
  (h e (.self e)).le

/-- What is in an element begins inside its range. -/
theorem Nested.start_of_within {d e : Element} (h : e.Nested) (hd : d.Within e) :
    e.range.start ≤ d.range.start ∧ d.range.start < e.range.stop := by
  induction hd with
  | self => exact ⟨Nat.le_refl _, h.lt⟩
  | @child c e hc hd ih =>
    obtain ⟨hstart, hstop⟩ := (h e (.self e)).of_mem (List.mem_map_of_mem hc)
    obtain ⟨hlow, hhigh⟩ := ih (h.of_within (.child hc (.self c)))
    omega

/-- Trees that follow each other have their elements in order when each of them has. -/
theorem pairwise_preorders {low high : Nat} {es : List Element}
    (horder : ByteRange.InOrder low high (es.map (·.range))) (hnested : ∀ e ∈ es, e.Nested)
    (hes : ∀ e ∈ es, e.preorder.Pairwise fun a b => a.range.start < b.range.start) :
    (preorders es).Pairwise fun a b => a.range.start < b.range.start := by
  induction es generalizing low with
  | nil => exact List.Pairwise.nil
  | cons e es ih =>
    obtain ⟨_, _, hrest⟩ := horder
    obtain ⟨he, hes⟩ := List.forall_mem_cons.mp hes
    obtain ⟨hne, hnested⟩ := List.forall_mem_cons.mp hnested
    refine List.pairwise_append.mpr ⟨he, ih hrest hnested hes, fun a ha b hb => ?_⟩
    obtain ⟨d, hd, hb⟩ := mem_preorders.mp hb
    have hend := (hne.start_of_within ((mem_preorder_iff e).mp ha)).2
    have hbegin := ((hnested d hd).start_of_within ((mem_preorder_iff d).mp hb)).1
    have hbetween := (hrest.of_mem (List.mem_map_of_mem hd)).1
    exact Nat.lt_of_lt_of_le hend (Nat.le_trans hbetween hbegin)

/-- **Depth first, each element of a nested tree begins behind the one before it.** -/
theorem pairwise_preorder {e : Element} (h : e.Nested) :
    e.preorder.Pairwise fun a b => a.range.start < b.range.start := by
  induction e using tree_induction with
  | step e ih =>
    have hholds := h e (.self e)
    have hchild : ∀ c ∈ e.children, c.Nested := fun c hc => h.of_within (.child hc (.self c))
    rw [preorder_eq]
    refine List.pairwise_cons.mpr ⟨fun d hd => ?_,
      pairwise_preorders hholds hchild fun c hc => ih c hc (hchild c hc)⟩
    obtain ⟨c, hc, hd⟩ := mem_preorders.mp hd
    have hbehind := (hholds.of_mem (List.mem_map_of_mem hc)).1
    have hbegin := ((hchild c hc).start_of_within ((mem_preorder_iff c).mp hd)).1
    exact Nat.lt_of_lt_of_le hbehind hbegin

/-- In a nested tree, sorting by the beginnings is walking depth first. -/
theorem descendants_eq_preorder {e : Element} (h : e.Nested) : e.descendants = e.preorder := by
  have hstrict := pairwise_preorder h
  have hwalk : preorders [e] = e.preorder := List.append_nil _
  have hperm : e.descendants.Perm e.preorder :=
    (List.mergeSort_perm _ _).trans (hwalk ▸ breadthFirst_perm [e])
  have hsorted : e.descendants.Pairwise fun a b => a.range.start ≤ b.range.start := by
    refine (List.pairwise_mergeSort (fun a b c hab hbc => ?_) (fun a b => ?_) _).imp
      of_decide_eq_true
    · exact decide_eq_true (Nat.le_trans (of_decide_eq_true hab) (of_decide_eq_true hbc))
    · rw [Bool.or_eq_true, decide_eq_true_iff, decide_eq_true_iff]
      exact Nat.le_total _ _
  refine hperm.eq_of_pairwise (fun a b ha hb hab hba => ?_) hsorted (hstrict.imp Nat.le_of_lt)
  have hstarts : (e.preorder.map (·.range.start)).Nodup :=
    List.pairwise_map.mpr (hstrict.imp Nat.ne_of_lt)
  exact List.inj_on_of_nodup_map hstarts (hperm.mem_iff.mp ha) hb (Nat.le_antisymm hab hba)

end Element

/-! ## 3. Trees of a text -/

/-- The open elements are nested in each other: each holds what is complete in it up to where the
    next inner one begins, and the innermost up to an offset. -/
def StackNestedAt (n : Nat) : List OpenElement → Prop
  | [] => True
  | o :: outer => o.element.HoldsUpTo n ∧ (∀ c ∈ o.element.children, c.Nested) ∧
      StackNestedAt o.element.range.start outer

theorem StackNestedAt.mono {m n : Nat} {opened : List OpenElement} (h : StackNestedAt m opened)
    (hle : m ≤ n) : StackNestedAt n opened := by
  cases opened with
  | nil => trivial
  | cons o outer => exact ⟨h.1.mono (Nat.le_refl _) hle, h.2⟩

namespace Builder

/-- The tree as far as it is built from the events up to an offset. -/
structure NestedAt (n : Nat) (b : Builder) : Prop where
  opened : StackNestedAt n b.opened
  root : ∀ e, b.root = some e → e.Nested ∧ e.range.stop ≤ n

theorem NestedAt.mono {m n : Nat} {b : Builder} (h : b.NestedAt m) (hle : m ≤ n) : b.NestedAt n :=
  ⟨h.opened.mono hle, fun e he => ⟨(h.root e he).1, Nat.le_trans (h.root e he).2 hle⟩⟩

/-- An element that begins where the open ones end, or later, is put in behind what they hold. -/
theorem nestedAt_attach {b : Builder} {e : Element} (hopened : StackNestedAt e.range.start b.opened)
    (hroot : ∀ d, b.root = some d → d.Nested ∧ d.range.stop ≤ e.range.stop) (he : e.Nested) :
    (b.attach e).NestedAt e.range.stop := by
  obtain ⟨opened, root⟩ := b
  cases opened with
  | nil =>
    refine ⟨trivial, fun d hd => ?_⟩
    rcases Option.or_eq_some_iff.mp hd with hold | ⟨_, hnew⟩
    · exact hroot d hold
    · rw [← Option.some.inj hnew]
      exact ⟨he, Nat.le_refl _⟩
  | cons top outer =>
    obtain ⟨hholds, hchildren, houter⟩ := hopened
    refine ⟨⟨?_, fun c hc => ?_, houter⟩, hroot⟩
    · show ByteRange.InOrder (top.element.range.start + 1) e.range.stop
        ((top.element.children ++ [e]).map (·.range))
      rw [List.map_append]
      exact hholds.concat he.lt
    · rcases List.mem_append.mp hc with hc | hc
      · exact hchildren c hc
      · rw [List.mem_singleton.mp hc]
        exact he

theorem NestedAt.addText {n : Nat} {b : Builder} (h : b.NestedAt n) (text : List Char) :
    (b.addText text).NestedAt n := by
  obtain ⟨opened, root⟩ := b
  cases opened with
  | nil => exact h
  | cons top outer => exact ⟨h.opened, h.root⟩

/-- **One event keeps the tree nested**, from the place where it begins to the one where it ends. -/
theorem step_nestedAt {contents : List Char} {b b' : Builder} {p : Placed}
    (hb : b.NestedAt p.range.start) (hp : p.range.start < p.range.stop)
    (h : b.step contents p = .ok b') : b'.NestedAt p.range.stop := by
  have hle : p.range.start ≤ p.range.stop := Nat.le_of_lt hp
  cases Step.of_step h with
  | start event opens =>
    obtain ⟨hrange, hchildren⟩ := openElement_bare opens
    refine ⟨⟨?_, ?_, ?_⟩, (hb.mono hle).root⟩
    · rw [Element.HoldsUpTo, hrange, hchildren]
      exact hp
    · rw [hchildren]
      exact List.forall_mem_nil _
    · rw [hrange]
      exact hb.opened
  | @complete outer o e completes =>
    cases completes with
    | empty event opens =>
      obtain ⟨hrange, hchildren⟩ := openElement_bare opens
      have hnested : o.element.Nested := by
        refine Element.Nested.of_children ?_ ?_
        · rw [Element.HoldsUpTo, hrange, hchildren]
          exact hp
        · rw [hchildren]
          exact List.forall_mem_nil _
      rw [← hrange] at hb hle ⊢
      exact nestedAt_attach hb.opened (hb.mono hle).root hnested
    | close event opened =>
      have hstack := hb.opened
      rw [opened] at hstack
      obtain ⟨hholds, hchildren, houter⟩ := hstack
      exact nestedAt_attach houter (hb.mono hle).root (hholds.close hle hchildren)
  | text event => exact (hb.mono hle).addText _
  | cdata event => exact (hb.mono hle).addText _
  | other event => exact hb.mono hle

/-- **A run over consecutive events keeps the tree nested.** -/
theorem foldlM_nestedAt {contents : List Char} {events : List Placed} {n : Nat} {b b' : Builder}
    (hevents : Consecutive n events) (hlt : ∀ p ∈ events, p.range.start < p.range.stop)
    (hb : b.NestedAt n) (h : events.foldlM (step contents) b = .ok b') :
    b'.NestedAt (reached n events) := by
  induction events generalizing n b with
  | nil =>
    cases h
    exact hb
  | cons p ps ih =>
    obtain ⟨rfl, hrest⟩ := hevents
    obtain ⟨hp, hps⟩ := List.forall_mem_cons.mp hlt
    rw [List.foldlM_cons] at h
    obtain ⟨mid, hstep, hfold⟩ := exists_of_bind_eq_ok h
    exact ih hrest hps (step_nestedAt hb hp hstep) hfold

end Builder

/-- **The tree of a text is nested.** -/
theorem parse_nested {contents : List Char} {root : Element} (h : parse contents = .ok root) :
    root.Nested := by
  obtain ⟨hevents, hlt⟩ := scan_consecutive contents
  obtain ⟨b, hbuilt, hrest⟩ := exists_of_bind_eq_ok h
  have hempty : Builder.empty.NestedAt 0 := ⟨trivial, fun _ hnone => by cases hnone⟩
  have hb := Builder.foldlM_nestedAt hevents hlt hempty hbuilt
  split at hrest
  · cases hrest
  · exact (hb.root root (Builder.root_of_finish hrest)).1

/-- **Below every element of the tree of a text, the elements come depth first**: the element itself
    and then, child by child, the trees of its children. All elements below it are there, and each of
    them once. -/
theorem descendants_depthFirst {contents : List Char} {root e : Element}
    (h : parse contents = .ok root) (he : e.Within root) :
    e.descendants = e.preorder ∧ e.descendants.Nodup ∧
      ∀ d : Element, d ∈ e.descendants ↔ d.Within e := by
  have hnested := (parse_nested h).of_within he
  rw [Element.descendants_eq_preorder hnested]
  refine ⟨rfl, (Element.pairwise_preorder hnested).imp fun hlt heq => ?_, fun d => ?_⟩
  · rw [heq] at hlt
    exact Nat.lt_irrefl _ hlt
  · exact Element.mem_preorder_iff e

/-- A text in which walking level by level and depth first are not the same. -/
def deepText : List Char := "<a><b><d/></b><c/></a>".toList

theorem descendants_depthFirst_deepText : ∃ root, parse deepText = .ok root ∧
    root.descendants.map (·.tag) = ["a", "b", "d", "c"] ∧
    (Element.breadthFirst [root]).map (·.tag) = ["a", "b", "c", "d"] := by
  have htags : (parse deepText).toOption.map (fun r =>
      (r.preorder.map (·.tag), (Element.breadthFirst [r]).map (·.tag))) =
      some (["a", "b", "d", "c"], ["a", "b", "c", "d"]) := by decide +kernel
  cases h : parse deepText with
  | error e =>
    rw [h] at htags
    cases htags
  | ok root =>
    rw [h] at htags
    obtain ⟨hdepth, hlevels⟩ := Prod.mk.inj (Option.some.inj htags)
    refine ⟨root, rfl, ?_, hlevels⟩
    rw [(descendants_depthFirst h (.self root)).1]
    exact hdepth

end AndroidLint.Xml
