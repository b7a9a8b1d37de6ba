/-
  File:      AndroidLint/Proofs/JavaExprTypes.lean
  Subject:   The types of expressions, given the names in scope.

  A type is known when it is neither empty nor the word `var`, which stands for a type that is not
  written. The types of expressions come from literals, from types that the expressions write and
  from the declarations of names. A declaration by `var` may leave the type open, and then a type
  that is not known goes wherever the name is used, but no further.

  * `LeftOpen`:             a declaration of a name leaves its type open;
  * `Settled`:              nothing in a node refers to such a name;
  * `Extends`:              names with known types come into scope;
  * `typesDecided_expr`:    the types of an expression at such a node are known, if there are any;
  * `stays_expr`:           a type that an expression has by itself it has in every scope;
  * `decided_of_receiver`:  what a method is called on has a known type, if it has any.
-/
import AndroidLint.Proofs.JavaVisits

namespace AndroidLint

/-! ## 1. Expressions and their parts -/

namespace Source

/-- An expression is another one or stands in it, as an argument of a call or in an array. -/
inductive Expr.Within (a : Expr) : Expr → Prop where
  | self : Within a a
  | argument {e b : Expr} {name : String} {args : List Expr} : e.kind = .call name args →
      b ∈ args → Within a b → Within a e
  | element {e b : Expr} {type : Option String} {elements : List Expr} :
      e.kind = .array type elements → b ∈ elements → Within a b → Within a e

end Source

namespace Java

open Source Syntax

/-- A type that is known. -/
def Decided (type : String) : Prop := type ≠ "" ∧ type ≠ "var"

instance (type : String) : Decidable (Decided type) :=
  inferInstanceAs (Decidable (_ ∧ _))

/-- The types of an expression and of all its parts are known, if there are any. -/
def TypesDecided (e : Expr) : Prop := ∀ a : Expr, a.Within e → ∀ type ∈ a.type, Decided type

/-- What an expression is made of has known types. -/
def PartsDecided : ExprKind Expr → Prop
  | .call _ args => ∀ a ∈ args, TypesDecided a
  | .array _ elements => ∀ a ∈ elements, TypesDecided a
  | _ => True

theorem typesDecided_iff {e : Expr} :
    TypesDecided e ↔ (∀ type ∈ e.type, Decided type) ∧ PartsDecided e.kind := by
  constructor
  · intro h
    refine ⟨h e .self, ?_⟩
    cases hkind : e.kind with
    | call name args => exact fun b hb a ha => h a (.argument hkind hb ha)
    | array type elements => exact fun b hb a ha => h a (.element hkind hb ha)
    | _ => trivial
  · rintro ⟨htype, hparts⟩ a ha
    cases ha with
    | self => exact htype
    | argument hkind hb ha =>
      rw [hkind] at hparts
      exact hparts _ hb a ha
    | element hkind hb ha =>
      rw [hkind] at hparts
      exact hparts _ hb a ha

theorem forall_mem_some {type : String} (h : Decided type) : ∀ u ∈ some type, Decided u :=
  fun _ hu => Option.some.inj hu ▸ h

theorem forall_mem_none : ∀ u ∈ (none : Option String), Decided u :=
  fun _ hu => absurd hu (Option.not_mem_none _)

/-! ## 2. Types of operators and leaves -/

theorem decided_brackets (type : String) : Decided (type ++ "[]") := by
  constructor
  all_goals
    intro h
    have hlast := congrArg (fun s => s.toList.getLast?) h
    simp at hlast

theorem decided_rankType (rank : Nat) : Decided (rankType rank) := by
  unfold rankType
  split <;> decide

theorem decided_of_widenedType? {left right : Option String} {type : String}
    (h : widenedType? left right = some type) : Decided type := by
  unfold widenedType? at h
  simp only [Option.bind_eq_bind, Option.bind_eq_some_iff] at h
  obtain ⟨_, _, _, _, _, _, _, _, hrank⟩ := h
  cases hrank
  exact decided_rankType _

theorem decided_of_binaryType? {operator : String} {left right : Option String} {type : String}
    (h : binaryType? operator left right = some type) : Decided type := by
  have hboolean {type : String} (h : some "boolean" = some type) : Decided type := by
    cases h
    decide
  have hshift {type : String}
      (h : (left.bind numericRank?).map (fun rank => rankType (min rank 2)) = some type) :
      Decided type := by
    obtain ⟨rank, _, rfl⟩ := Option.map_eq_some_iff.mp h
    exact decided_rankType _
  unfold binaryType? at h
  split at h
  -- The operators that compare and combine truth values.
  iterate 8 exact hboolean h
  · split at h
    · cases h
      decide
    · exact decided_of_widenedType? h
  iterate 3 exact hshift h
  iterate 3
    split at h
    · exact hboolean h
    · exact decided_of_widenedType? h
  exact decided_of_widenedType? h

theorem decided_of_callType? {receiver : Option String} {name type : String}
    (h : callType? receiver name = some type) : Decided type := by
  unfold callType? at h
  split at h <;> cases h <;> decide

/-- The types that a whole number can have. -/
theorem typesDecided_intExpr (text : String) (range : ByteRange) :
    TypesDecided
      ⟨(intExpr (intType text) text).1, (intExpr (intType text) text).2, range⟩ := by
  have hdecided : Decided (intType text) := by
    unfold intType
    split <;> decide
  refine typesDecided_iff.mpr ?_
  unfold intExpr
  split <;> exact ⟨forall_mem_some hdecided, trivial⟩

theorem typesDecided_floatExpr (text : String) (range : ByteRange) :
    TypesDecided ⟨(floatExpr text).1, (floatExpr text).2, range⟩ := by
  have hdecided : Decided (floatType text) := by
    unfold floatType
    split <;> decide
  refine typesDecided_iff.mpr ?_
  unfold floatExpr
  split <;> exact ⟨forall_mem_some hdecided, trivial⟩

theorem typesDecided_unaryExpr {operator : String} {operand : Option Expr}
    (h : ∀ e ∈ operand, TypesDecided e) (range : ByteRange) :
    TypesDecided ⟨(unaryExpr operator operand).1, (unaryExpr operator operand).2, range⟩ := by
  refine typesDecided_iff.mpr ?_
  unfold unaryExpr
  split
  · exact ⟨forall_mem_some (by decide), trivial⟩
  · exact ⟨forall_mem_none, trivial⟩
  · next e =>
    have he := typesDecided_iff.mp (h e rfl)
    exact ⟨he.1, he.2⟩
  · next e =>
    obtain ⟨htype, _⟩ := typesDecided_iff.mp (h e rfl)
    split <;> exact ⟨htype, trivial⟩
  · next e _ _ _ => exact ⟨(typesDecided_iff.mp (h e rfl)).1, trivial⟩

/-- A type that is known stays the same. -/
def Stays (type type' : Option String) : Prop := ∀ u ∈ type, type' = some u

section

variable {left right left' right' : Option String} (hleft : Stays left left')
  (hright : Stays right right')

include hleft

theorem isStringType_of_stays (h : isStringType left = true) : isStringType left' = true := by
  cases left with
  | none => cases h
  | some type => rwa [hleft type rfl]

include hright

/-- Numbers are widened only where both types are known. -/
theorem eq_of_widenedType? {type : String} (h : widenedType? left right = some type) :
    left' = left ∧ right' = right := by
  simp only [widenedType?, Option.bind_eq_bind, Option.bind_eq_some_iff] at h
  obtain ⟨l, rfl, _, _, r, rfl, _⟩ := h
  exact ⟨hleft l rfl, hright r rfl⟩

theorem stays_binaryType? (operator : String) :
    Stays (binaryType? operator left right) (binaryType? operator left' right') := by
  have hwidened : Stays (widenedType? left right) (widenedType? left' right') := by
    intro type h
    obtain ⟨rfl, rfl⟩ := eq_of_widenedType? hleft hright h
    exact h
  have hshift : Stays ((left.bind numericRank?).map fun rank => rankType (min rank 2))
      ((left'.bind numericRank?).map fun rank => rankType (min rank 2)) := by
    intro type h
    obtain ⟨rank, hrank, rfl⟩ := Option.map_eq_some_iff.mp h
    obtain ⟨l, rfl, hl⟩ := Option.bind_eq_some_iff.mp hrank
    rw [hleft l rfl, Option.bind_some, hl, Option.map_some]
  unfold binaryType?
  split
  iterate 8 exact fun _ => id
  · intro type h
    split at h
    · next hstring =>
      rw [if_pos (Bool.or_eq_true_iff.mpr ((Bool.or_eq_true_iff.mp hstring).imp
        (isStringType_of_stays hleft) (isStringType_of_stays hright)))]
      exact h
    · next hstring =>
      obtain ⟨rfl, rfl⟩ := eq_of_widenedType? hleft hright h
      rwa [if_neg hstring]
  iterate 3 exact hshift
  iterate 3
    intro type h
    split at h
    · next hboolean => rwa [if_pos ⟨hleft _ hboolean.1, hright _ hboolean.2⟩]
    · next hboolean =>
      obtain ⟨rfl, rfl⟩ := eq_of_widenedType? hleft hright h
      rwa [if_neg hboolean]
  exact hwidened

end

theorem type_unaryExpr (operator : String) (e : Expr) :
    (unaryExpr operator (some e)).2 = if operator = "!" then some "boolean" else e.type := by
  unfold unaryExpr
  split
  · rfl
  · contradiction
  · next heq => cases heq; rfl
  · next heq =>
    cases heq
    split <;> rfl
  · next hnot _ _ heq => cases heq; rw [if_neg hnot]

theorem stays_unaryExpr {e e' : Expr} (h : Stays e.type e'.type) (operator : String) :
    Stays (unaryExpr operator (some e)).2 (unaryExpr operator (some e')).2 := by
  rw [type_unaryExpr, type_unaryExpr]
  split
  · exact fun _ => id
  · exact h

theorem stays_pathExpr (s : Scopes) (text : String) :
    Stays (pathExpr .empty text).2 (pathExpr s text).2 := by
  have hempty (name : String) : Scopes.empty.field? name = none := rfl
  intro type h
  unfold pathExpr at h ⊢
  dsimp only at h ⊢
  split at h
  · next hresource => rwa [if_pos hresource]
  · obtain ⟨name, _, hfield⟩ := Option.bind_eq_some_iff.mp h
    rw [hempty] at hfield
    cases hfield

/-! ## 3. Types that are left open -/

/-- The type that a variable has by its value alone, whatever is in scope. -/
def ownType? (declarator : Tree) : Option String :=
  (declarator.child? .value).bind fun value => (expr .empty value).type

/-- Whether a node declares a name without deciding its type. -/
def leavesOpen (t : Tree) (name : String) : Bool :=
  let declares (u : Tree) : Bool := u.textOf? .name == some name
  match t.kind with
  | .localVariableDeclaration => typeOf? t == some "var" &&
      (t.ofKind .variableDeclarator).any fun v =>
        declares v && (ownType? v).all fun type => !decide (Decided type)
  | .fieldDeclaration => typeOf? t == some "var" && (t.ofKind .variableDeclarator).any declares
  | .formalParameter | .enhancedForStatement => typeOf? t == some "var" && declares t
  | .catchParameter => (catchTypes t).head? == some "var" && declares t
  -- The constants of an enumeration are of its type.
  | kind => kind.declaresType && classNameOf t == "var" &&
      (((t.child? .body).map memberNodes).getD []).any fun u => u.kind == .enumConstant && declares u

/-- The constants of a class with the name `var`. -/
theorem leavesOpen_constant {t body u : Tree} {name : String} (htype : t.kind.declaresType = true)
    (hvar : classNameOf t = "var") (hbody : t.child? .body = some body)
    (hu : u ∈ memberNodes body) (hkind : u.kind = .enumConstant)
    (hname : u.textOf? .name = some name) : leavesOpen t name = true := by
  have hany : (memberNodes body).any
      (fun u => u.kind == .enumConstant && u.textOf? .name == some name) = true :=
    List.any_eq_true.mpr ⟨u, hu, Bool.and_eq_true_iff.mpr ⟨beq_iff_eq.mpr hkind,
      beq_iff_eq.mpr hname⟩⟩
  unfold leavesOpen
  split
  case h_6 =>
    rw [htype, hvar, hbody]
    exact hany
  all_goals
    next hother =>
    rw [hother] at htype
    cases htype

/-- One of some declarations declares a name without deciding its type. -/
def LeftOpen (ds : List Tree) (name : String) : Prop := ∃ d ∈ ds, leavesOpen d name = true

instance (ds : List Tree) (name : String) : Decidable (LeftOpen ds name) :=
  inferInstanceAs (Decidable (∃ d ∈ ds, leavesOpen d name = true))

theorem LeftOpen.mono {ds ds' : List Tree} (hsub : ds ⊆ ds') {name : String}
    (h : LeftOpen ds name) : LeftOpen ds' name := by
  obtain ⟨d, hd, hopen⟩ := h
  exact ⟨d, hsub hd, hopen⟩

/-- The name that a node refers to. -/
def referred? (t : Tree) : Option String :=
  match t.kind with
  | .identifier => some t.text
  | .fieldAccess => Text.afterHead? "this." (Text.withoutBlanks t.text)
  | _ => none

/-- Nothing in a node refers to a name that is left open, and no value in it is made or cast to be
    of the type `var`. -/
structure Settled (ds : List Tree) (t : Tree) : Prop where
  names : ∀ u : Tree, u.Within t → ∀ name ∈ referred? u, ¬ LeftOpen ds name
  types : ∀ u : Tree, u.Within t → u.kind = .objectCreation ∨ u.kind = .cast →
    typeOf? u ≠ some "var"

instance (ds : List Tree) (t : Tree) : Decidable (Settled ds t) :=
  decidable_of_iff
    ((∀ u ∈ t.preorder, ∀ name ∈ (referred? u).toList, ¬ LeftOpen ds name) ∧
      ∀ u ∈ t.preorder, u.kind = .objectCreation ∨ u.kind = .cast → typeOf? u ≠ some "var") <| by
    simp only [Tree.mem_preorder_iff, Option.mem_toList]
    exact ⟨fun h => ⟨h.1, h.2⟩, fun h => ⟨h.names, h.types⟩⟩

theorem Settled.of_within {ds : List Tree} {t u : Tree} (h : Settled ds t) (hu : u.Within t) :
    Settled ds u :=
  ⟨fun v hv => h.names v (hv.trans hu), fun v hv => h.types v (hv.trans hu)⟩

theorem ne_empty_of_typeOf? {t : Tree} (hwf : WellFormed t) {type : String}
    (htype : typeOf? t = some type) : type ≠ "" := by
  obtain ⟨text, htext, rfl⟩ := Option.map_eq_some_iff.mp htype
  obtain ⟨u, hu, rfl⟩ := Option.map_eq_some_iff.mp htext
  have hrole : u.role = .type := by simpa using List.find?_some hu
  exact (hwf t .self).types u (Tree.mem_of_child? hu) hrole

/-- The types that an expression writes. -/
theorem Settled.decided {ds : List Tree} {t : Tree} (h : Settled ds t) (hwf : WellFormed t)
    (hkind : t.kind = .objectCreation ∨ t.kind = .cast) : ∀ type ∈ typeOf? t, Decided type :=
  fun _ htype => ⟨ne_empty_of_typeOf? hwf htype, fun hvar => h.types t .self hkind (hvar ▸ htype)⟩

/-! ## 4. Scopes -/

/-- A name has a known type, unless it is left open. -/
def Known (ds : List Tree) (x : String × String) : Prop := ¬ LeftOpen ds x.1 → Decided x.2

theorem Known.mono {ds ds' : List Tree} (hsub : ds ⊆ ds') {x : String × String} (h : Known ds x) :
    Known ds' x :=
  fun hopen => h fun hleft => hopen (hleft.mono hsub)

/-- Names have known types, unless they are left open. -/
def NamesDecided (ds : List Tree) (names : Names) : Prop := ∀ x ∈ names, Known ds x

theorem NamesDecided.of_lookup {ds : List Tree} {names : Names} (h : NamesDecided ds names)
    {name type : String} (hname : ¬ LeftOpen ds name) (hfound : names.lookup name = some type) :
    Decided type := by
  induction names with
  | nil => cases hfound
  | cons x names ih =>
    obtain ⟨hx, hrest⟩ := List.forall_mem_cons.mp h
    rw [List.lookup_cons] at hfound
    split at hfound
    · next heq =>
      cases hfound
      exact hx (beq_iff_eq.mp heq ▸ hname)
    · exact ih hrest hfound

/-- All names in scope have known types, unless they are left open. -/
structure ScopesDecided (ds : List Tree) (s : Scopes) : Prop where
  fields : ∀ c ∈ s.classes, NamesDecided ds c.fields
  locals : ∀ names ∈ s.locals, NamesDecided ds names

namespace ScopesDecided

variable {ds : List Tree} {s : Scopes}

theorem mono {ds' : List Tree} (hsub : ds ⊆ ds') (h : ScopesDecided ds s) : ScopesDecided ds' s :=
  ⟨fun c hc x hx => (h.fields c hc x hx).mono hsub,
    fun names hnames x hx => (h.locals names hnames x hx).mono hsub⟩

theorem of_field? (h : ScopesDecided ds s) {name type : String} (hname : ¬ LeftOpen ds name)
    (hfound : s.field? name = some type) : Decided type := by
  obtain ⟨c, hc, hlookup⟩ := List.exists_of_findSome?_eq_some hfound
  exact (h.fields c hc).of_lookup hname hlookup

theorem of_type? (h : ScopesDecided ds s) {name type : String} (hname : ¬ LeftOpen ds name)
    (hfound : s.type? name = some type) : Decided type := by
  rcases Option.or_eq_some_iff.mp hfound with hlocal | ⟨_, hfield⟩
  · obtain ⟨names, hnames, hlookup⟩ := List.exists_of_findSome?_eq_some hlocal
    exact (h.locals names hnames).of_lookup hname hlookup
  · exact h.of_field? hname hfield

theorem enter (h : ScopesDecided ds s) {names : Names} (hnames : NamesDecided ds names) :
    ScopesDecided ds (s.enter names) :=
  ⟨h.fields, List.forall_mem_cons.mpr ⟨hnames, h.locals⟩⟩

theorem enterClass (h : ScopesDecided ds s) {c : ClassScope} (hc : NamesDecided ds c.fields) :
    ScopesDecided ds (s.enterClass c) :=
  ⟨List.forall_mem_cons.mpr ⟨hc, h.fields⟩, h.locals⟩

end ScopesDecided

/-- The innermost block has got names with known types, unless they are left open; everything else
    in scope is as it was. -/
structure Extends (ds : List Tree) (s s' : Scopes) : Prop where
  classes : s'.classes = s.classes
  locals : Widened (Known ds) s.locals s'.locals

namespace Extends

variable {ds : List Tree} {s s' s'' : Scopes}

theorem refl (ds : List Tree) (s : Scopes) : Extends ds s s := ⟨rfl, .refl _ _⟩

theorem trans (h : Extends ds s s') (h' : Extends ds s' s'') : Extends ds s s'' :=
  ⟨h'.classes.trans h.classes, h.locals.trans h'.locals⟩

theorem mono {ds' : List Tree} (hsub : ds ⊆ ds') (h : Extends ds s s') : Extends ds' s s' :=
  ⟨h.classes, h.locals.mono fun _ => Known.mono hsub⟩

theorem declare {name type : String} (h : Known ds (name, type)) :
    Extends ds s (s.declare name type) :=
  ⟨s.classes_declare name type, .declare s h⟩

/-- A block takes the names that are declared in it with it. -/
theorem leave_eq {names : Names} (h : Extends ds (s.enter names) s') : s'.leave = s := by
  have hlocals : s'.locals.tail = s.locals := h.locals.tail_eq
  have hclasses : s'.classes = s.classes := h.classes
  show Scopes.mk s'.classes s'.locals.tail = s
  rw [hlocals, hclasses]

theorem leaveClass {c : ClassScope} (h : Extends ds (s.enterClass c) s') :
    Extends ds s s'.leaveClass :=
  ⟨congrArg List.tail h.classes, h.locals⟩

/-- Outside all classes and blocks nothing is added. -/
theorem eq_empty (h : Extends ds .empty s') : s' = .empty := by
  obtain ⟨classes, locals⟩ := s'
  obtain ⟨hclasses, hlocals⟩ := h
  cases hclasses
  cases hlocals
  rfl

theorem scopesDecided (h : Extends ds s s') (hs : ScopesDecided ds s) : ScopesDecided ds s' := by
  obtain ⟨classes, locals⟩ := s
  obtain ⟨classes', locals'⟩ := s'
  obtain ⟨hclasses, hlocals⟩ := h
  cases hclasses
  refine ⟨hs.fields, ?_⟩
  cases hlocals with
  | outside => exact hs.locals
  | inside hadded =>
    obtain ⟨hinnermost, houter⟩ := List.forall_mem_cons.mp hs.locals
    exact List.forall_mem_cons.mpr ⟨List.forall_mem_append.mpr ⟨hadded, hinnermost⟩, houter⟩

end Extends

/-! ## 5. Expressions in a tree -/

theorem exprs_eq_map (s : Scopes) (ts : List Tree) : exprs s ts = ts.map (expr s) := by
  induction ts with
  | nil => rw [exprs, List.map_nil]
  | cons t ts ih => rw [exprs, ih, List.map_cons]

/-- **Where all names in scope have known types unless they are left open, the types of an
    expression that refers to no such name are known, if there are any, and so are those of its
    parts.** -/
theorem typesDecided_expr {ds : List Tree} {s : Scopes} (hs : ScopesDecided ds s) (t : Tree)
    (hwf : WellFormed t) (ht : Settled ds t) : TypesDecided (expr s t) := by
  induction t using Tree.induction_within with
  | step t ih =>
    have hbelow {u : Tree} (hu : u ∈ t.children) : TypesDecided (expr s u) :=
      ih u hu u .self (hwf.of_mem hu) (ht.of_within (.of_mem hu))
    have hpart {role : Role} {u : Tree} (hu : t.child? role = some u) : TypesDecided (expr s u) :=
      hbelow (Tree.mem_of_child? hu)
    have hall {us : List Tree} (hus : ∀ u ∈ us, ∃ v ∈ t.children, u.Within v) :
        ∀ e ∈ exprs s us, TypesDecided e := by
      intro e he
      rw [exprs_eq_map] at he
      obtain ⟨u, hu, rfl⟩ := List.mem_map.mp he
      obtain ⟨v, hv, huv⟩ := hus u hu
      have hut : u.Within t := huv.trans (.of_mem hv)
      exact ih v hv u huv (hwf.of_within hut) (ht.of_within hut)
    have hname (name : String) : referred? t = some name → ¬ LeftOpen ds name :=
      ht.names t .self name
    rw [expr]
    dsimp only
    split
    -- Literals.
    · exact typesDecided_intExpr _ _
    · exact typesDecided_floatExpr _ _
    · exact typesDecided_iff.mpr ⟨forall_mem_some (by decide), trivial⟩
    · exact typesDecided_iff.mpr ⟨forall_mem_some (by decide), trivial⟩
    · exact typesDecided_iff.mpr ⟨forall_mem_none, trivial⟩
    · exact typesDecided_iff.mpr ⟨forall_mem_some (by decide), trivial⟩
    · exact typesDecided_iff.mpr ⟨forall_mem_some (by decide), trivial⟩
    -- Parentheses and operators in front of an operand.
    · split
      · next inner rest hchildren =>
        have hinner := typesDecided_iff.mp (hbelow (hchildren ▸ List.mem_cons_self))
        exact typesDecided_iff.mpr ⟨hinner.1, hinner.2⟩
      · exact typesDecided_iff.mpr ⟨forall_mem_none, trivial⟩
    · refine typesDecided_unaryExpr (fun e he => ?_) _
      split at he
      · next o ho =>
        cases he
        exact hpart ho
      · cases he
    -- Names and paths.
    · next hkind =>
      exact typesDecided_iff.mpr
        ⟨fun _ => hs.of_type? (hname t.text (by rw [referred?, hkind])), trivial⟩
    · next hkind =>
      refine typesDecided_iff.mpr ?_
      unfold pathExpr
      dsimp only
      refine ⟨?_, trivial⟩
      split
      · exact forall_mem_some (by decide)
      · intro type htype
        obtain ⟨name, hpath, hfield⟩ := Option.bind_eq_some_iff.mp htype
        exact hs.of_field? (hname name (by rw [referred?, hkind]; exact hpath)) hfield
    -- Calls, objects and arrays.
    · refine typesDecided_iff.mpr ⟨fun _ => decided_of_callType?, ?_⟩
      split
      · next args hargs => exact hall fun u hu => ⟨args, Tree.mem_of_child? hargs, .of_mem hu⟩
      · exact List.forall_mem_nil _
    · next hkind => exact typesDecided_iff.mpr ⟨ht.decided hwf (.inl hkind), trivial⟩
    · have hbrackets : ∀ type ∈ (typeOf? t).map (· ++ "[]"), Decided type := fun type htype => by
        obtain ⟨element, _, rfl⟩ := Option.map_eq_some_iff.mp htype
        exact decided_brackets element
      split
      · next elements helements =>
        exact typesDecided_iff.mpr ⟨hbrackets,
          hall fun u hu => ⟨elements, Tree.mem_of_child? helements, .of_mem hu⟩⟩
      · exact typesDecided_iff.mpr ⟨hbrackets, trivial⟩
    · exact typesDecided_iff.mpr ⟨forall_mem_none, hall fun u hu => ⟨u, hu, .self⟩⟩
    -- Casts and operators.
    · next hkind =>
      refine typesDecided_iff.mpr ⟨ht.decided hwf (.inr hkind), ?_⟩
      dsimp only
      split
      · next value hvalue => exact (typesDecided_iff.mp (hpart hvalue)).2
      · trivial
    · exact typesDecided_iff.mpr ⟨fun _ => decided_of_binaryType?, trivial⟩
    · refine typesDecided_iff.mpr ⟨?_, trivial⟩
      dsimp only
      split
      · next consequence hconsequence => exact (typesDecided_iff.mp (hpart hconsequence)).1
      · exact forall_mem_none
    · exact typesDecided_iff.mpr ⟨forall_mem_some (by decide), trivial⟩
    · exact typesDecided_iff.mpr ⟨forall_mem_none, trivial⟩

/-- What is known of an expression outside all scopes holds in every scope. -/
theorem stays_expr (s : Scopes) (t : Tree) : Stays (expr .empty t).type (expr s t).type := by
  induction t using Tree.induction_within with
  | step t ih =>
    have hpart {role : Role} {u : Tree} (hu : t.child? role = some u) :
        Stays (expr .empty u).type (expr s u).type :=
      ih u (Tree.mem_of_child? hu) u .self
    rw [expr, expr]
    dsimp only
    split
    iterate 7 exact fun _ => id
    · split
      · next inner rest hchildren =>
        exact ih inner (hchildren ▸ List.mem_cons_self) inner .self
      · exact fun _ => id
    · split
      · next operand hoperand => exact stays_unaryExpr (hpart hoperand) _
      · exact fun _ => id
    · exact fun _ h => by cases h
    · dsimp only
      exact stays_pathExpr s t.text
    iterate 2 exact fun _ => id
    · split <;> exact fun _ => id
    iterate 2 exact fun _ => id
    · refine stays_binaryType? (fun u hu => ?_) (fun u hu => ?_) _
      · split at hu
        · next hleft => exact hpart hleft u hu
        · cases hu
      · split at hu
        · next hright => exact hpart hright u hu
        · cases hu
    · split
      · next hconsequence => exact hpart hconsequence
      · exact fun _ => id
    iterate 2 exact fun _ => id

/-- Nothing that begins with a capital letter is empty or `var`. -/
theorem decided_of_startsCapital {name : String} (h : Text.startsCapital name = true) :
    Decided name := by
  constructor
  all_goals
    rintro rfl
    revert h
    decide

theorem decided_of_receiver {ds : List Tree} {s : Scopes} (hs : ScopesDecided ds s) {t : Tree}
    (hwf : WellFormed t) (ht : Settled ds t) {name : String} (h : receiver s t = .type name) :
    Decided name := by
  have hname (name : String) : referred? t = some name → ¬ LeftOpen ds name :=
    ht.names t .self name
  unfold receiver at h
  split at h
  · cases h
  · cases h
  · next hkind =>
    split at h
    · next htype =>
      cases h
      exact hs.of_type? (hname t.text (by rw [referred?, hkind])) htype
    · split at h
      · next hcapital =>
        cases h
        exact decided_of_startsCapital hcapital
      · cases h
  · next hkind =>
    dsimp only at h
    split at h
    · next field hpath =>
      split at h
      · next hfield =>
        cases h
        exact hs.of_field? (hname field (by rw [referred?, hkind]; exact hpath)) hfield
      · cases h
    · split at h
      · next hlast =>
        cases h
        have hcapital := (Bool.and_eq_true_iff.mp hlast).1
        constructor
        all_goals
          intro hpath
          rw [hpath] at hcapital
          revert hcapital
          decide
      · cases h
  · next hkind =>
    split at h
    · next htype =>
      cases h
      exact ht.decided hwf (.inl hkind) _ htype
    · cases h
  iterate 2
    split at h
    · next htype =>
      cases h
      exact (typesDecided_iff.mp (typesDecided_expr hs t hwf ht)).1 _ htype
    · cases h
  · cases h

end Java

end AndroidLint
