/-
  File:      AndroidLint/Proofs/XmlNamespaces.lean
  Subject:   Which namespace an attribute has, told from the elements around it.

  The builder hands a scope from each open element to those inside it. In the finished tree no scope
  is left, but what the scopes did can be read off the attributes: the namespace of a qualifier is
  the value of the last binding on the element itself, or on the nearest element around it that has
  one. Nothing that was closed before has a part in it.

  * `Scope.lookup_extend`:   a scope with the bindings of one more element;
  * `Builder.keeps_scoped`:  what one event keeps;
  * `parse_scoped`:          every element of a tree is resolved in the scope around it;
  * `parse_uri_lexical`:     the namespaces of all attributes of a tree.

  A binding is told by `xmlns` before the first colon of a name and by the qualifier behind the last
  one. So a name of three parts binds its last part, which it does not declare
  (`parse_uri_three_parts`).
-/
import AndroidLint.Proofs.XmlRanges
import Mathlib.Data.List.TakeDrop
import Mathlib.Data.List.TakeWhile

namespace AndroidLint

/-! ## 1. Names in parts -/

namespace Text

theorem splitFirst?_eq_some {separator : Char} {text : String} {head tail : List Char}
    (h : text.toList = head ++ separator :: tail) (hhead : separator ∉ head) :
    splitFirst? separator text = some (String.ofList head, String.ofList tail) := by
  have hall : ∀ c ∈ head, (c != separator) = true := fun c hc =>
    bne_iff_ne.mpr fun heq => hhead (heq ▸ hc)
  unfold splitFirst?
  rw [h, List.span_eq_takeWhile_dropWhile, List.takeWhile_append_of_pos hall,
    List.dropWhile_append_of_pos hall]
  simp

theorem not_mem_of_splitFirst? {separator : Char} {text head tail : String}
    (h : splitFirst? separator text = some (head, tail)) : separator ∉ head.toList := by
  unfold splitFirst? at h
  rw [List.span_eq_takeWhile_dropWhile] at h
  split at h
  · cases h
  · next front _ rest heq =>
    obtain ⟨rfl, _⟩ := Prod.mk.inj (Option.some.inj h)
    obtain ⟨hfront, _⟩ := Prod.mk.inj heq
    rw [String.toList_ofList, ← hfront]
    intro hmem
    have hne := List.mem_takeWhile_imp hmem
    simp at hne

theorem lastPart_eq {separator : Char} {text : String} {head tail : List Char}
    (h : text.toList = head ++ separator :: tail) (htail : separator ∉ tail) :
    lastPart separator text = String.ofList tail := by
  have hall : ∀ c ∈ tail.reverse, (c != separator) = true := fun c hc =>
    bne_iff_ne.mpr fun heq => htail (heq ▸ List.mem_reverse.mp hc)
  have hreverse : text.toList.reverse = tail.reverse ++ separator :: head.reverse := by
    rw [h, List.reverse_append, List.reverse_cons, List.append_assoc, List.singleton_append]
  unfold lastPart splitLast?
  rw [hreverse, List.span_eq_takeWhile_dropWhile, List.takeWhile_append_of_pos hall,
    List.dropWhile_append_of_pos hall]
  simp

end Text

namespace Xml

/-! ## 2. Bindings -/

namespace Attribute

/-- The attribute binds a qualifier: `xmlns` stands before the first colon of its name and the
    qualifier behind the last one. -/
def binds (qualifier : String) (a : Attribute) : Bool :=
  a.bindsNamespace && a.localName == qualifier

/-- The attribute declares a qualifier: its name is `xmlns`, a colon and the qualifier. -/
def declares (qualifier : String) (a : Attribute) : Bool := a.name == "xmlns:" ++ qualifier

theorem resolve_resolve (scope : Scope) (a : Attribute) :
    (a.resolve scope).resolve scope = a.resolve scope := rfl

end Attribute

/-- The value of the last of some attributes that pass a test. -/
def lastValue? (test : Attribute → Bool) (as : List Attribute) : Option String :=
  (as.filter test).getLast?.map (·.value)

theorem lastValue?_cons (test : Attribute → Bool) (a : Attribute) (as : List Attribute) :
    lastValue? test (a :: as) =
      (lastValue? test as).or (if test a then some a.value else none) := by
  unfold lastValue?
  by_cases ha : test a = true
  · rw [List.filter_cons_of_pos ha, List.getLast?_cons, if_pos ha]
    cases (as.filter test).getLast? <;> rfl
  · rw [List.filter_cons_of_neg ha, if_neg ha, Option.or_none]

/-- **One more element around**: its last binding of a qualifier hides those further out. -/
theorem Scope.lookup_extend (outer : Scope) (as : List Attribute) (qualifier : String) :
    (outer.extend as).lookup qualifier =
      (lastValue? (·.binds qualifier) as).or (outer.lookup qualifier) := by
  unfold Scope.extend
  rw [List.lookup_append]
  congr 1
  -- the last attribute comes first in the scope, so the induction peels the scope from its end
  induction as with
  | nil => rfl
  | cons a as ih =>
    rw [lastValue?_cons]
    by_cases hbinds : a.bindsNamespace = true
    · rw [List.filter_cons_of_pos hbinds, List.map_cons, List.reverse_cons, List.lookup_append, ih]
      by_cases hname : a.localName = qualifier
      · simp [Attribute.binds, hbinds, hname]
      · have hother : (qualifier == a.localName) = false := beq_false_of_ne (Ne.symm hname)
        simp [Attribute.binds, hname, List.lookup_cons, hother]
    · rw [List.filter_cons_of_neg hbinds, ih]
      simp [Attribute.binds, hbinds]

/-- The namespace that a qualifier has inside some elements, the innermost first, when a test tells
    which attributes are about it: the value of the last such attribute on the innermost element
    that has one. Where none has, `android` means the platform's namespace and any other qualifier
    nothing. -/
def uriInside? (about : String → Attribute → Bool) (qualifier : String) :
    List Element → Option String
  | [] => if qualifier = "android" then some androidUri else none
  | e :: outer => (lastValue? (about qualifier) e.attributes).or (uriInside? about qualifier outer)

/-- The scope inside some elements, the innermost first. -/
def scopeInside : List Element → Scope
  | [] => []
  | e :: outer => (scopeInside outer).extend e.attributes

theorem Scope.uri?_eq (scope : Scope) (qualifier : String) :
    scope.uri? qualifier =
      (scope.lookup qualifier).or (uriInside? Attribute.binds qualifier []) := by
  unfold Scope.uri?
  cases scope.lookup qualifier <;> rfl

/-- The scope inside some elements has the namespaces that their bindings give. -/
theorem uri?_scopeInside (qualifier : String) (path : List Element) :
    (scopeInside path).uri? qualifier = uriInside? Attribute.binds qualifier path := by
  induction path with
  | nil => rfl
  | cons e outer ih =>
    rw [Scope.uri?_eq] at ih
    rw [Scope.uri?_eq, scopeInside, Scope.lookup_extend, Option.or_assoc, ih]
    rfl

/-! ## 3. Elements in a scope -/

namespace Element

/-- The element stands in the tree of a root inside some other elements, the innermost first. -/
inductive ReachedBy (root : Element) : List Element → Element → Prop where
  | root : ReachedBy root [] root
  | child {outer : List Element} {e c : Element} (he : ReachedBy root outer e)
      (hc : c ∈ e.children) : ReachedBy root (e :: outer) c

/-- The attributes of the element and of all elements inside it have the namespaces of a scope
    around the element, each with the bindings of the elements between. -/
inductive ScopedIn : Scope → Element → Prop where
  | intro {outer : Scope} {e : Element}
      (own : ∀ a ∈ e.attributes, a.resolve (outer.extend e.attributes) = a)
      (inner : ∀ c ∈ e.children, ScopedIn (outer.extend e.attributes) c) : ScopedIn outer e

theorem ScopedIn.own {outer : Scope} {e : Element} (h : e.ScopedIn outer) {a : Attribute}
    (ha : a ∈ e.attributes) : a.resolve (outer.extend e.attributes) = a := by
  cases h with
  | intro own _ => exact own a ha

/-- In a tree that is resolved, each element is resolved in the scope of the elements around it. -/
theorem ScopedIn.of_reachedBy {root e : Element} {outer : List Element} (h : root.ScopedIn [])
    (he : root.ReachedBy outer e) : e.ScopedIn (scopeInside outer) := by
  induction he with
  | root => exact h
  | child _ hc ih =>
    cases ih with
    | intro _ inner => exact inner _ hc

end Element

/-- The bindings of a tag stay when its attributes get their namespaces. -/
theorem Scope.extend_resolve (outer scope : Scope) (as : List Attribute) :
    outer.extend (as.map (·.resolve scope)) = outer.extend as := by
  unfold Scope.extend
  rw [List.filter_map, List.map_map]
  rfl

/-! ## 4. Runs -/

/-- An open element has the scope of the next outer one and its own bindings, and its attributes
    are resolved in it. -/
def OpenElement.Scoped (outer : List OpenElement) (o : OpenElement) : Prop :=
  o.scope = (scopeOfOpened outer).extend o.element.attributes ∧
    ∀ a ∈ o.element.attributes, a.resolve o.scope = a

namespace Builder

variable {contents tag : List Char} {b : Builder}

/-- The element of a tag has its own bindings and those around it. -/
theorem openElement_scoped {range : ByteRange} {o : OpenElement}
    (h : b.openElement contents tag range = .ok o) : o.Scoped b.opened := by
  unfold openElement at h
  obtain ⟨as, _, rfl⟩ := exists_of_map_eq_ok h
  refine ⟨?_, fun a ha => ?_⟩
  · show b.scope.extend as = (scopeOfOpened b.opened).extend (as.map _)
    rw [Scope.extend_resolve, scope_eq]
  · obtain ⟨written, _, rfl⟩ := List.mem_map.mp ha
    exact Attribute.resolve_resolve _ written

/-- **One event keeps the scopes**: a tag extends the one around it, and with its element a scope is
    gone. -/
theorem keeps_scoped (contents : List Char) (b : Builder) (p : Placed) :
    Keeps contents (fun outer o => o.Scoped outer) (fun scope e => e.ScopedIn scope) b p where
  opens _ _ _ ho := openElement_scoped ho
  completes outer o e hcompletes ho hchildren := by
    obtain ⟨hscope, hown⟩ := ho
    rw [hscope] at hown hchildren
    cases hcompletes with
    | empty => exact .intro hown hchildren
    | close => exact .intro hown hchildren

end Builder

/-- **Every element of a tree is resolved in the scope of the elements around it.** -/
theorem parse_scoped {contents : List Char} {root : Element} (h : parse contents = .ok root) :
    root.ScopedIn [] :=
  parse_holds (fun _ _ _ _ ho => ho) (fun _ p _ mid _ _ => Builder.keeps_scoped contents mid p) h

/-! ## 5. All attributes of a tree -/

namespace Attribute

/-- A qualifier has no colon in it. -/
theorem colon_not_mem {a : Attribute} {qualifier : String} (h : a.qualifier? = some qualifier) :
    ':' ∉ qualifier.toList := by
  obtain ⟨⟨head, tail⟩, hsplit, rfl⟩ := Option.map_eq_some_iff.mp h
  exact Text.not_mem_of_splitFirst? hsplit

/-- A declaration of a qualifier binds it. -/
theorem binds_of_declares {a : Attribute} {qualifier : String} (hq : ':' ∉ qualifier.toList)
    (h : a.declares qualifier = true) : a.binds qualifier = true := by
  have hname : a.name.toList = "xmlns".toList ++ ':' :: qualifier.toList := by
    rw [beq_iff_eq.mp h, String.toList_append]
    rfl
  have hqualifier : a.qualifier? = some "xmlns" := by
    rw [qualifier?, Text.splitFirst?_eq_some hname (by decide), Option.map_some,
      String.ofList_toList]
  have hlocal : a.localName = qualifier := by
    rw [localName, Text.lastPart_eq hname hq, String.ofList_toList]
  rw [binds, bindsNamespace, hqualifier, hlocal, beq_self_eq_true, beq_self_eq_true]
  rfl

/-- Where an attribute is resolved, its namespace is that of its qualifier. -/
theorem uri_of_resolve {a : Attribute} {scope : Scope} (h : a.resolve scope = a) :
    a.uri = if a.bindsNamespace then none else a.qualifier?.bind scope.uri? := by
  rw [← h]
  rfl

end Attribute

/-- Where only declarations bind a qualifier, the declarations give its namespace. -/
theorem uriInside?_congr {qualifier : String} {path : List Element} (hq : ':' ∉ qualifier.toList)
    (h : ∀ d ∈ path, ∀ b ∈ d.attributes, b.binds qualifier = true → b.declares qualifier = true) :
    uriInside? Attribute.binds qualifier path = uriInside? Attribute.declares qualifier path := by
  induction path with
  | nil => rfl
  | cons e outer ih =>
    obtain ⟨he, houter⟩ := List.forall_mem_cons.mp h
    have hsame : e.attributes.filter (Attribute.binds qualifier) =
        e.attributes.filter (Attribute.declares qualifier) :=
      List.filter_congr fun b hb =>
        Bool.eq_iff_iff.mpr ⟨he b hb, Attribute.binds_of_declares hq⟩
    rw [uriInside?, uriInside?, lastValue?, lastValue?, hsame, ih houter]

/-- **The namespaces of a tree follow its nesting.** An attribute without a qualifier or with the
    qualifier `xmlns` has none. Any other has the one that the last binding of its qualifier on the
    element gives, or on the nearest element around it that binds the qualifier, or else that of the
    platform where the qualifier is `android`; so no element that is not around the attribute has a
    part in it. Where nothing but the declarations of the qualifier binds it, they decide. -/
theorem parse_uri_lexical {contents : List Char} {root e : Element} {outer : List Element}
    {a : Attribute} (h : parse contents = .ok root) (he : root.ReachedBy outer e)
    (ha : a ∈ e.attributes) :
    (a.qualifier? = none ∨ a.qualifier? = some "xmlns" → a.uri = none) ∧
      ∀ qualifier, a.qualifier? = some qualifier → qualifier ≠ "xmlns" →
        a.uri = uriInside? Attribute.binds qualifier (e :: outer) ∧
          ((∀ d ∈ e :: outer, ∀ b ∈ d.attributes,
              b.binds qualifier = true → b.declares qualifier = true) →
            a.uri = uriInside? Attribute.declares qualifier (e :: outer)) := by
  have huri := Attribute.uri_of_resolve (((parse_scoped h).of_reachedBy he).own ha)
  refine ⟨fun hnone => ?_, fun qualifier hqualifier hne => ?_⟩
  · rw [huri]
    rcases hnone with hnone | hxmlns
    · rw [hnone]
      exact ite_self none
    · rw [Attribute.bindsNamespace, hxmlns]
      rfl
  · have hbinds : a.bindsNamespace = false := by
      rw [Attribute.bindsNamespace, hqualifier]
      exact beq_false_of_ne fun heq => hne (Option.some.inj heq)
    have hinside : a.uri = uriInside? Attribute.binds qualifier (e :: outer) := by
      rw [huri, hbinds, hqualifier, ← uri?_scopeInside]
      rfl
    refine ⟨hinside, fun honly => ?_⟩
    rw [hinside, uriInside?_congr (Attribute.colon_not_mem hqualifier) honly]

/-- A text in which an element that is closed binds the qualifier of the next one anew. -/
def rebindingText : List Char :=
  "<m xmlns:a='u'><p xmlns:a='v'><r xmlns:a='w'/></p><q a:x='1'/></m>".toList

theorem parse_uri_lexical_rebindingText : ∃ root, parse rebindingText = .ok root ∧
    ∃ e ∈ root.children, ∃ a ∈ e.attributes, a.name = "a:x" ∧ a.uri = some "u" ∧
      a.uri = uriInside? Attribute.declares "a" [e, root] := by
  have hread : ∃ root, parse rebindingText = .ok root ∧
      ∃ e ∈ root.children, ∃ a ∈ e.attributes, a.name = "a:x" ∧ a.uri = some "u" ∧
        a.qualifier? = some "a" ∧ ∀ d ∈ [e, root], ∀ b ∈ d.attributes,
          b.binds "a" = true → b.declares "a" = true :=
    exists_root_of_any (by decide +kernel)
  obtain ⟨root, hroot, e, he, a, ha, hname, huri, hqualifier, honly⟩ := hread
  have hlexical := (parse_uri_lexical hroot (.child .root he) ha).2 "a" hqualifier (by decide)
  exact ⟨root, hroot, e, he, a, ha, hname, huri, hlexical.2 honly⟩

/-- A text with a name of three parts. -/
def threePartText : List Char := "<m xmlns:x:b='u' b:c='1'/>".toList

/-- A name of three parts binds the last of them, which nothing declares. -/
theorem parse_uri_three_parts : ∃ root, parse threePartText = .ok root ∧
    ∃ a ∈ root.attributes, a.qualifier? = some "b" ∧ a.uri = some "u" ∧
      uriInside? Attribute.declares "b" [root] = none :=
  exists_root_of_any (by decide +kernel)

end Xml

end AndroidLint
