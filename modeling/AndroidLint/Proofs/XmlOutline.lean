/-
  File:      AndroidLint/Proofs/XmlOutline.lean
  Subject:   Trees without the places of their elements.

  The same tags in another text give the same tree, up to where its elements stand. `unplaced` is the
  tree without its places, `skeleton` also without its texts, and `Edited` relates the trees of two
  texts of which one has other characters in one place:

  * `attributesFrom_sameText`:  the attributes of a tag that stands elsewhere;
  * `Element.Edited`:           what the two trees have in common;
  * `Element.Edited.skeleton`:  their tags and attributes are the same.
-/
import AndroidLint.Proofs.XmlOrder
import Mathlib.Data.List.Forall2

namespace AndroidLint.Xml

open Text

/-! ## 1. The attributes of a tag that stands elsewhere -/

/-- The attribute without its places. -/
def Attribute.unplaced (a : Attribute) : Attribute :=
  { a with range := ⟨0, 0⟩, valueRange := ⟨0, 0⟩ }

/-- The same rest of a tag, wherever it stands. -/
structure TagRest.SameText (r r' : TagRest) : Prop where
  text : r'.text = r.text
  torn : r'.torn = r.torn

theorem TagRest.SameText.take {r r' : TagRest} (h : r.SameText r') (p : Char → Bool) :
    (r'.take p).1 = (r.take p).1 ∧ (r.take p).2.SameText (r'.take p).2 := by
  refine ⟨?_, ?_, h.torn⟩
  · exact congrArg (·.takeWhile p) h.text
  · exact congrArg (·.dropWhile p) h.text

theorem TagRest.SameText.skipBlanks {r r' : TagRest} (h : r.SameText r') :
    r.skipBlanks.SameText r'.skipBlanks := (h.take isTagBlank).2

theorem TagRest.SameText.takeWhole {r r' rest : TagRest} {p : Char → Bool} {front : List Char}
    (h : r.SameText r') (htake : r.takeWhole p = .ok (front, rest)) :
    ∃ rest', r'.takeWhole p = .ok (front, rest') ∧ rest.SameText rest' := by
  obtain ⟨hfront, hrest⟩ := h.take p
  unfold TagRest.takeWhole at htake ⊢
  dsimp only at htake ⊢
  rw [hrest.text, hrest.torn, hfront]
  split at htake
  · cases htake
  · next htorn =>
    obtain ⟨rfl, rfl⟩ := Prod.mk.inj (Except.ok.inj htake)
    rw [if_neg htorn]
    exact ⟨_, rfl, hrest⟩

theorem Attribute.readValue_sameText {name : String} {start start' : Nat} {r r' rest : TagRest}
    {a : Attribute} (h : r.SameText r') (hread : Attribute.readValue name start r = .ok (a, rest)) :
    ∃ a' rest', Attribute.readValue name start' r' = .ok (a', rest') ∧
      a'.unplaced = a.unplaced ∧ rest.SameText rest' := by
  unfold Attribute.readValue at hread ⊢
  split at hread
  · cases hread
  · next quote text htext =>
    rw [h.text, htext]
    dsimp only
    split at hread
    · next hquote =>
      rw [if_pos hquote]
      dsimp only at hread
      split at hread
      · cases hread
      · next written inner htake =>
        have hinside : TagRest.SameText { r with offset := r.offset + 1, text }
            { r' with offset := r'.offset + 1, text } := ⟨rfl, h.torn⟩
        obtain ⟨inner', htake', hinner⟩ := hinside.takeWhole htake
        obtain ⟨rfl, rfl⟩ := Prod.mk.inj (Except.ok.inj hread)
        rw [htake']
        refine ⟨_, _, rfl, rfl, ?_⟩
        rw [hinner.text]
        split
        · exact hinner
        · exact ⟨rfl, hinner.torn⟩
    · cases hread

theorem Attribute.read_sameText {r r' rest : TagRest} {a : Attribute} (h : r.SameText r')
    (hread : Attribute.read r = .ok (a, rest)) :
    ∃ a' rest', Attribute.read r' = .ok (a', rest') ∧ a'.unplaced = a.unplaced ∧
      rest.SameText rest' := by
  unfold Attribute.read at hread ⊢
  split at hread
  · cases hread
  · next written inner htake =>
    obtain ⟨inner', htake', hinner⟩ := h.takeWhole htake
    have hsign := hinner.skipBlanks
    rw [htake']
    dsimp only at hread ⊢
    rw [hsign.text]
    split at hread
    · refine Attribute.readValue_sameText ?_ hread
      exact TagRest.SameText.skipBlanks ⟨rfl, hsign.torn⟩
    · cases hread

/-- **The attributes of a tag do not depend on where it stands**, up to their places. -/
theorem attributesFrom_sameText {r r' : TagRest} {as : List Attribute} (h : r.SameText r')
    (hread : attributesFrom r = .ok as) :
    ∃ as', attributesFrom r' = .ok as' ∧
      as'.map Attribute.unplaced = as.map Attribute.unplaced := by
  fun_induction attributesFrom r generalizing r' as with
  | case1 r next =>
    rename_i hend
    cases hread
    have hnext : next.SameText r'.skipBlanks := h.skipBlanks
    rw [attributesFrom, hnext.text, hnext.torn, if_pos hend]
    exact ⟨[], rfl, rfl⟩
  | case2 r next =>
    rename_i hopen hclose
    cases hread
    have hnext : next.SameText r'.skipBlanks := h.skipBlanks
    rw [attributesFrom, hnext.text, hnext.torn, if_neg hopen, if_pos hclose]
    exact ⟨[], rfl, rfl⟩
  | case3 => cases hread
  | case4 r next hopen hclose a rest hfirst =>
    rename_i ih
    have hnext : next.SameText r'.skipBlanks := h.skipBlanks
    obtain ⟨others, hothers, rfl⟩ := exists_of_map_eq_ok hread
    obtain ⟨a', rest', hfirst', ha, hrest⟩ := Attribute.read_sameText hnext hfirst
    obtain ⟨others', hothers', hsame⟩ := ih hrest hothers
    refine ⟨a' :: others', ?_, ?_⟩
    · rw [attributesFrom, hnext.text, hnext.torn, if_neg hopen, if_neg hclose]
      split
      · next e herror => cases hfirst'.symm.trans herror
      · next b more hread =>
        cases hfirst'.symm.trans hread
        rw [hothers']
        rfl
    · rw [List.map_cons, List.map_cons, ha, hsame]

/-- The attributes of a tag in another text are the same, up to their places. -/
theorem attributesOf_writtenTag_move {before behind before' behind' name inner : List Char}
    {as : List Attribute}
    (h : attributesOf (before ++ writtenTag name inner ++ behind)
      ⟨width before, width before + width (writtenTag name inner)⟩ (width name) = .ok as) :
    ∃ as', attributesOf (before' ++ writtenTag name inner ++ behind')
        ⟨width before', width before' + width (writtenTag name inner)⟩ (width name) = .ok as' ∧
      as'.map Attribute.unplaced = as.map Attribute.unplaced := by
  rw [attributesOf_eq_attributesFrom] at h
  rw [attributesOf_eq_attributesFrom]
  refine attributesFrom_sameText ?_ h
  exact ⟨rfl, rfl⟩

/-! ## 2. Trees without places -/

namespace Element

mutual

/-- The tree without its places, with other words for the text of each element. -/
def outline (words : String → String) (e : Element) : Element :=
  match e with
  | ⟨tag, attributes, children, text, _, _⟩ =>
    ⟨tag, attributes.map Attribute.unplaced, outlines words children, words text, ⟨0, 0⟩, ⟨0, 0⟩⟩

/-- Several trees without their places. -/
def outlines (words : String → String) (es : List Element) : List Element :=
  match es with
  | [] => []
  | e :: rest => outline words e :: outlines words rest

end

/-- The tree with its tags, attributes and texts, wherever it stands. -/
def unplaced (e : Element) : Element := e.outline id

/-- The tree with its tags and attributes alone. -/
def skeleton (e : Element) : Element := e.outline fun _ => ""

theorem outlines_eq_map (words : String → String) (es : List Element) :
    outlines words es = es.map (outline words) := by
  induction es with
  | nil => rw [outlines, List.map_nil]
  | cons e es ih => rw [outlines, ih, List.map_cons]

theorem outline_eq (words : String → String) (e : Element) :
    e.outline words = ⟨e.tag, e.attributes.map Attribute.unplaced,
      e.children.map (outline words), words e.text, ⟨0, 0⟩, ⟨0, 0⟩⟩ := by
  cases e
  rw [outline, outlines_eq_map]

theorem outline_outline (f g : String → String) (e : Element) :
    (e.outline f).outline g = e.outline (g ∘ f) := by
  induction e using tree_induction with
  | step e ih =>
    have hchildren : e.children.map (outline g ∘ outline f) = e.children.map (outline (g ∘ f)) :=
      List.map_congr_left ih
    rw [outline_eq (g ∘ f), outline_eq f e, outline_eq, ← hchildren]
    simp only [List.map_map]
    rfl

/-- Trees that are the same wherever they stand have the same tags and attributes. -/
theorem skeleton_of_unplaced {e e' : Element} (h : e'.unplaced = e.unplaced) :
    e'.skeleton = e.skeleton := by
  have hforget : ∀ d : Element, d.unplaced.skeleton = d.skeleton := outline_outline id fun _ => ""
  rw [← hforget e', h, hforget e]

theorem unplaced_eq_iff {e e' : Element} :
    e'.unplaced = e.unplaced ↔ e'.tag = e.tag ∧
      e'.attributes.map Attribute.unplaced = e.attributes.map Attribute.unplaced ∧
      e'.children.map unplaced = e.children.map unplaced ∧ e'.text = e.text := by
  unfold unplaced
  rw [outline_eq, outline_eq, Element.mk.injEq]
  simp only [id, and_true]

theorem skeleton_eq_iff {e e' : Element} :
    e'.skeleton = e.skeleton ↔ e'.tag = e.tag ∧
      e'.attributes.map Attribute.unplaced = e.attributes.map Attribute.unplaced ∧
      e'.children.map skeleton = e.children.map skeleton := by
  unfold skeleton
  rw [outline_eq, outline_eq, Element.mk.injEq]
  simp only [and_true]

/-! ## 3. Trees that differ in one place -/

/-- The texts differ in one place: behind a common beginning the second has other characters. -/
def ReplacedAfter (front old new : List Char) (s s' : String) : Prop :=
  ∃ back, s.toList = front ++ (old ++ back) ∧ s'.toList = front ++ (new ++ back)

theorem ReplacedAfter.append_right {front old new : List Char} {s s' : String}
    (h : ReplacedAfter front old new s s') (t : String) :
    ReplacedAfter front old new (s ++ t) (s' ++ t) := by
  obtain ⟨back, hs, hs'⟩ := h
  refine ⟨back ++ t.toList, ?_, ?_⟩
  · simp only [String.toList_append, hs, List.append_assoc]
  · simp only [String.toList_append, hs', List.append_assoc]

theorem ReplacedAfter.append_left {front old new : List Char} {s s' : String}
    (h : ReplacedAfter front old new s s') (t : String) :
    ReplacedAfter (t.toList ++ front) old new (t ++ s) (t ++ s') := by
  obtain ⟨back, hs, hs'⟩ := h
  refine ⟨back, ?_, ?_⟩
  · simp only [String.toList_append, hs, List.append_assoc]
  · simp only [String.toList_append, hs', List.append_assoc]

/-- The element ends before a part of the text or begins behind it. -/
def Apart (r : ByteRange) (e : Element) : Prop := e.range.stop ≤ r.start ∨ r.stop ≤ e.range.start

/-- A part of the text is in the element. -/
def Around (r : ByteRange) (e : Element) : Prop := r.Inside e.range

/-- Two trees, the second after other characters were put into a part of the text. An element that
    stands apart from it is the same. One around it has the same tag and attributes, its text differs
    behind what is read from its beginning up to the part, and its children are related in this way
    again. -/
inductive Edited (r : ByteRange) (read : Nat → List Char) (old new : List Char) :
    Element → Element → Prop where
  | apart {e e' : Element} (place : e.Apart r) (same : e'.unplaced = e.unplaced) :
      Edited r read old new e e'
  | around {e e' : Element} (place : e.Around r) (tag : e'.tag = e.tag)
      (attributes : e'.attributes.map Attribute.unplaced = e.attributes.map Attribute.unplaced)
      (text : ReplacedAfter (read e.range.start) old new e.text e'.text)
      (children : List.Forall₂ (Edited r read old new) e.children e'.children) :
      Edited r read old new e e'

section Edited

variable {r : ByteRange} {read : Nat → List Char} {old new : List Char}

theorem map_skeleton_of_forall₂ {es es' : List Element}
    (h : List.Forall₂ (Edited r read old new) es es')
    (hs : ∀ e ∈ es, ∀ e', Edited r read old new e e' → e'.skeleton = e.skeleton) :
    es'.map skeleton = es.map skeleton := by
  induction h with
  | nil => rfl
  | cons hedited _ ih =>
    obtain ⟨he, hes⟩ := List.forall_mem_cons.mp hs
    rw [List.map_cons, List.map_cons, he _ hedited, ih hes]

/-- **The tags and the attributes of the whole tree stay.** -/
theorem Edited.skeleton {e e' : Element} (h : Edited r read old new e e') :
    e'.skeleton = e.skeleton := by
  induction e using tree_induction generalizing e' with
  | step e ih =>
    cases h with
    | apart _ same => exact skeleton_of_unplaced same
    | around _ tag attributes _ children =>
      have hchildren := map_skeleton_of_forall₂ children fun c hc _ hedited => ih c hc hedited
      exact skeleton_eq_iff.mpr ⟨tag, attributes, hchildren⟩

/-- Elements that stand apart and are the same. -/
theorem forall₂_edited_of_apart {es es' : List Element} (hplace : ∀ e ∈ es, e.Apart r)
    (hsame : es'.map unplaced = es.map unplaced) : List.Forall₂ (Edited r read old new) es es' := by
  induction es generalizing es' with
  | nil =>
    rw [List.map_eq_nil_iff.mp hsame]
    exact .nil
  | cons e es ih =>
    obtain ⟨e', rest', rfl, he, hrest⟩ := List.map_eq_cons_iff.mp hsame
    obtain ⟨hplace, hplaces⟩ := List.forall_mem_cons.mp hplace
    exact .cons (.apart hplace he) (ih hplaces hrest)

end Edited

end Element

/-- Where one child has others around it, so has the one it is related to. -/
theorem exists_of_forall₂_append_cons {α β : Type} {R : α → β → Prop} {as bs : List α} {a : α}
    {cs : List β} (h : List.Forall₂ R (as ++ a :: bs) cs) :
    ∃ as' a' bs', cs = as' ++ a' :: bs' ∧ List.Forall₂ R as as' ∧ R a a' ∧
      List.Forall₂ R bs bs' := by
  induction as generalizing cs with
  | nil =>
    cases h with
    | cons ha hbs => exact ⟨[], _, _, rfl, .nil, ha, hbs⟩
  | cons b as ih =>
    cases h with
    | cons hb hrest =>
      obtain ⟨as', a', bs', rfl, has, ha, hbs⟩ := ih hrest
      exact ⟨_ :: as', a', bs', rfl, .cons hb has, ha, hbs⟩

end AndroidLint.Xml
