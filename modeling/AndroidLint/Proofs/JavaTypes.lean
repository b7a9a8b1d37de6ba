/-
  File:      AndroidLint/Proofs/JavaTypes.lean
  Subject:   The types that are recorded for the expressions and calls of a file.

  Names come into scope with the types of their declarations. So all names in scope have known types
  at every place of a file, apart from those that a declaration in scope leaves open, and what the
  walk records there is known as far as it does not refer to these.

  * `declarations`, `inScope`:   what a node, and the nodes around a place, bring into scope;
  * `known_declaredType`, …:     the types that declarations give to names;
  * `Visit.extends`:             every visit adds names with known types to the block around;
  * `Visit.typed`:               so it records known types;
  * `typesDecided_unitOf`:       so it is for every well-formed tree, and an argument that is
                                 reported for its type has a known one;
  * `typesDecided_compilationUnit`:   the tree of a file is one.
-/
import AndroidLint.Check.FormatCalls
import AndroidLint.Proofs.JavaExprTypes
import AndroidLint.Proofs.JavaFiles

namespace AndroidLint.Java

open Source Syntax

/-! ## 1. What is in scope -/

mutual

/-- The declarations of local variables that stand in a node, but in no block of it. -/
def loose (t : Tree) : List Tree :=
  match t with
  | ⟨kind, role, range, text, children⟩ =>
    (if kind = .localVariableDeclaration then [⟨kind, role, range, text, children⟩] else []) ++
      if kind.opensBlock then [] else looses children

/-- The declarations of local variables that stand in some nodes, but in no block of them. -/
def looses (ts : List Tree) : List Tree :=
  match ts with
  | [] => []
  | t :: rest => loose t ++ looses rest

end

theorem looses_eq_flatMap (ts : List Tree) : looses ts = ts.flatMap loose := by
  induction ts with
  | nil => rw [looses, List.flatMap_nil]
  | cons t ts ih => rw [looses, ih, List.flatMap_cons]

theorem loose_eq (t : Tree) :
    loose t = (if t.kind = .localVariableDeclaration then [t] else []) ++
      if t.kind.opensBlock then [] else t.children.flatMap loose := by
  cases t
  rw [loose, looses_eq_flatMap]

/-- The declarations of local variables that are added to the innermost block. -/
def Extent.loose : Extent → Tree → List Tree
  | .whole, t => Java.loose t
  | .inBlock, t => t.children.flatMap Java.loose

/-- The declarations whose names a node brings into scope for what stands in it. -/
def declarations (t : Tree) : List Tree :=
  t :: t.children.flatMap loose ++ ((t.child? .parameters).map (·.children)).getD [] ++
    t.ofKind .catchParameter ++
    if t.kind.declaresType then ((t.child? .body).map memberNodes).getD [] else []

/-- The declarations of the names in scope at a place, given the nodes around it. -/
def inScope (around : List Tree) : List Tree := around.flatMap declarations

theorem inScope_mono {around around' : List Tree} (h : around ⊆ around') :
    inScope around ⊆ inScope around' := by
  intro d hd
  obtain ⟨t, ht, hd⟩ := List.mem_flatMap.mp hd
  exact List.mem_flatMap.mpr ⟨t, h ht, hd⟩

section

variable {t u : Tree}

theorem mem_declarations_self (t : Tree) : t ∈ declarations t := by
  simp [declarations]

theorem mem_declarations_of_parameter {ps : Tree} (hps : t.child? .parameters = some ps)
    (hu : u ∈ ps.children) : u ∈ declarations t := by
  simp [declarations, hps, hu]

theorem mem_declarations_of_caught (hu : u ∈ t.ofKind .catchParameter) : u ∈ declarations t := by
  simp [declarations, hu]

theorem mem_declarations_of_member {body : Tree} (htype : t.kind.declaresType = true)
    (hbody : t.child? .body = some body) (hu : u ∈ memberNodes body) : u ∈ declarations t := by
  simp [declarations, htype, hbody, hu]

theorem declarations_subset_inScope (t : Tree) (above : List Tree) :
    declarations t ⊆ inScope (t :: above) :=
  List.subset_append_left _ _

theorem NamesDecided.around {names : Names} (h : NamesDecided (declarations t) names)
    (above : List Tree) : NamesDecided (inScope (t :: above)) names :=
  fun x hx => (h x hx).mono (declarations_subset_inScope t above)

theorem ScopesDecided.below {around : List Tree} {s : Scopes} (h : ScopesDecided (inScope around) s)
    (t : Tree) : ScopesDecided (inScope (t :: around)) s :=
  h.mono (inScope_mono (List.subset_cons_self t around))

theorem Extent.loose_subset (x : Extent) (t : Tree) : x.loose t ⊆ declarations t := by
  have hinside : t.children.flatMap Java.loose ⊆ declarations t := fun d hd => by
    simp only [declarations, List.cons_append, List.mem_cons, List.mem_append]
    exact .inr (.inl (.inl (.inl hd)))
  cases x with
  | inBlock => exact hinside
  | whole =>
    intro d hd
    rw [Extent.loose, loose_eq] at hd
    rcases List.mem_append.mp hd with hd | hd
    · split at hd
      · cases List.mem_singleton.mp hd
        exact mem_declarations_self t
      · cases hd
    · split at hd
      · cases hd
      · exact hinside hd

/-- What a child adds to the block around it is added to the block around its parent too, unless the
    parent opens one. -/
theorem Extent.loose_child {x : Extent} (hu : u ∈ t.children)
    (hopens : t.kind.opensBlock = true → x = .inBlock) : Java.loose u ⊆ x.loose t := by
  have hinside : Java.loose u ⊆ t.children.flatMap Java.loose := fun d hd =>
    List.mem_flatMap.mpr ⟨u, hu, hd⟩
  cases x with
  | inBlock => exact hinside
  | whole =>
    have hclear : ¬ t.kind.opensBlock = true := fun hblock => by cases hopens hblock
    intro d hd
    rw [Extent.loose, loose_eq, if_neg hclear]
    exact List.mem_append_right _ (hinside hd)

end

/-! ## 2. Declarations -/

section Declarations

variable {t : Tree} (hwf : WellFormed t)

include hwf

/-- The type that is written for variables or fields. -/
theorem exists_typeOf? (hkind : t.kind = .fieldDeclaration ∨ t.kind = .localVariableDeclaration) :
    ∃ type, typeOf? t = some type ∧ type ≠ "" := by
  have hchild : ∃ u ∈ t.children, u.role = .type := by
    have hholds := (hwf t .self).holds
    rcases hkind with hkind | hkind
    all_goals
      rw [hkind] at hholds
      exact hholds
  obtain ⟨u, hu, hrole⟩ := hchild
  cases htype : typeOf? t with
  | some type => exact ⟨type, rfl, ne_empty_of_typeOf? hwf htype⟩
  | none =>
    have hnone : t.child? .type = none := by simpa [typeOf?, Tree.textOf?] using htype
    exact absurd (beq_iff_eq.mpr hrole) (List.find?_eq_none.mp hnone u hu)

/-- A name whose type is written has this type, unless it is left open. -/
theorem known_of_typeOf? {ds : List Tree} (ht : t ∈ ds) {name type : String}
    (htype : typeOf? t = some type) (hvar : typeOf? t = some "var" → leavesOpen t name = true) :
    Known ds (name, type) :=
  fun hopen => ⟨ne_empty_of_typeOf? hwf htype, fun h => hopen ⟨t, ht, hvar (h ▸ htype)⟩⟩

theorem decided_classNameOf (htype : t.kind.declaresType = true) (hvar : classNameOf t ≠ "var") :
    Decided (classNameOf t) := by
  refine ⟨?_, hvar⟩
  unfold classNameOf
  cases hname : t.textOf? .name with
  | none => decide
  | some name =>
    obtain ⟨u, hu, rfl⟩ := Option.map_eq_some_iff.mp hname
    have hrole : u.role = .name := by simpa using List.find?_some hu
    exact ((hwf t .self).holds.classPart htype u (Tree.mem_of_child? hu)).named hrole

/-- The fields that code in a class sees. -/
theorem namesDecided_classScope {body : Tree} (htype : t.kind.declaresType = true)
    (hbody : t.child? .body = some body) (name : String) :
    NamesDecided (declarations t) (classScope name (classNameOf t) (memberNodes body)).fields := by
  intro x hx
  obtain ⟨u, hu, hx⟩ := List.mem_flatMap.mp (List.mem_reverse.mp hx)
  have hin : u ∈ declarations t := mem_declarations_of_member htype hbody hu
  have hwfu : WellFormed u := hwf.of_within ((within_of_mem_memberNodes hu).trans (.of_child? hbody))
  unfold fieldNames at hx
  split at hx
  · next hkind =>
    obtain ⟨type, hwritten, _⟩ := exists_typeOf? hwfu (.inl hkind)
    obtain ⟨v, hv, hx⟩ := List.mem_filterMap.mp hx
    obtain ⟨field, hfield, rfl⟩ := Option.map_eq_some_iff.mp hx
    rw [hwritten]
    refine known_of_typeOf? hwfu hin hwritten fun hvar => ?_
    rw [leavesOpen, hkind]
    exact Bool.and_eq_true_iff.mpr ⟨beq_iff_eq.mpr hvar,
      List.any_eq_true.mpr ⟨v, hv, beq_iff_eq.mpr hfield⟩⟩
  · next hkind =>
    obtain ⟨constant, hconstant, rfl⟩ := Option.map_eq_some_iff.mp (Option.mem_toList.mp hx)
    exact fun hopen => decided_classNameOf hwf htype fun hvar => hopen
      ⟨t, mem_declarations_self t, leavesOpen_constant htype hvar hbody hu hkind hconstant⟩
  · cases hx

/-- The parameters in the body of a method. -/
theorem namesDecided_parameterNames (s : Scopes) :
    NamesDecided (declarations t) (parameterNames (parametersOf s t)) := by
  intro x hx
  obtain ⟨p, hp, rfl⟩ := List.mem_map.mp (List.mem_reverse.mp hx)
  unfold parametersOf at hp
  split at hp
  · next ps hps =>
    obtain ⟨u, hu, hp⟩ := List.mem_filterMap.mp hp
    have hin : u ∈ declarations t := mem_declarations_of_parameter hps hu
    have hwfu : WellFormed u := (hwf.of_child? hps).of_mem hu
    unfold parameter? at hp
    split at hp
    · next hkind =>
      simp only [Option.bind_eq_bind, Option.bind_eq_some_iff, Option.pure_def,
        Option.some.injEq] at hp
      obtain ⟨name, hname, type, htype, rfl⟩ := hp
      refine known_of_typeOf? hwfu hin htype fun hvar => ?_
      rw [leavesOpen, hkind]
      exact Bool.and_eq_true_iff.mpr ⟨beq_iff_eq.mpr hvar, beq_iff_eq.mpr hname⟩
    · simp only [Option.bind_eq_bind, Option.bind_eq_some_iff, Option.pure_def,
        Option.some.injEq] at hp
      obtain ⟨declarator, _, name, _, type, _, rfl⟩ := hp
      exact fun _ => decided_brackets _
    · cases hp
  · cases hp

/-- A variable with a written type, or with one that its value has. -/
theorem known_declaredType (hkind : t.kind = .localVariableDeclaration) {v : Tree}
    (hv : v ∈ t.ofKind .variableDeclarator) {name : String} (hname : v.textOf? .name = some name)
    (s : State) : Known (loose t) (name, declaredType s ((typeOf? t).getD "") v) := by
  intro hopen
  have ht : t ∈ loose t := by
    rw [loose_eq, if_pos hkind]
    exact List.mem_append_left _ List.mem_cons_self
  obtain ⟨written, hwritten, hne⟩ := exists_typeOf? hwf (.inr hkind)
  rw [hwritten, declaredType, Option.getD_some]
  split
  · next hvar =>
    have hown : (ownType? v).all (fun type => !decide (Decided type)) = false := by
      refine Bool.eq_false_iff.mpr fun hall => hopen ⟨t, ht, ?_⟩
      rw [leavesOpen, hkind]
      exact Bool.and_eq_true_iff.mpr ⟨beq_iff_eq.mpr (hvar ▸ hwritten),
        List.any_eq_true.mpr ⟨v, hv, Bool.and_eq_true_iff.mpr ⟨beq_iff_eq.mpr hname, hall⟩⟩⟩
    cases howned : ownType? v with
    | none =>
      rw [howned] at hown
      cases hown
    | some type =>
      obtain ⟨value, hvalue, htype⟩ := Option.bind_eq_some_iff.mp howned
      rw [hvalue, Option.bind_some, stays_expr s.scopes value type htype]
      rw [howned] at hown
      simpa using hown
  · next hvar => exact ⟨hne, hvar⟩

/-- The variable of a loop over elements. -/
theorem namesDecided_elementNames (hkind : t.kind = .enhancedForStatement) :
    NamesDecided (declarations t) (elementNames t) := by
  unfold elementNames
  split
  · next name type hname htype =>
    refine List.forall_mem_singleton.mpr
      (known_of_typeOf? hwf (mem_declarations_self t) htype fun hvar => ?_)
    rw [leavesOpen, hkind]
    exact Bool.and_eq_true_iff.mpr ⟨beq_iff_eq.mpr hvar, beq_iff_eq.mpr hname⟩
  · exact List.forall_mem_nil _

/-- The variable of a `catch` clause has the first of the types that are caught. -/
theorem known_of_caughtName? {ds : List Tree} (ht : t ∈ ds) (hkind : t.kind = .catchParameter)
    {x : String × String} (hx : caughtName? t = some x) : Known ds x := by
  obtain ⟨name, hname, rfl⟩ := Option.map_eq_some_iff.mp hx
  have htypes {u : Tree} (hu : u ∈ t.children) (hukind : u.kind = .catchType) :
      u.children ≠ [] ∧ ∀ v ∈ u.children, erase v.text ≠ "" := by
    have hholds := (hwf u (.of_mem hu)).holds
    rw [hukind] at hholds
    exact hholds
  have hsome : catchTypes t ≠ [] := by
    have hholds := (hwf t .self).holds
    rw [hkind] at hholds
    obtain ⟨u, hu, hukind⟩ := hholds
    obtain ⟨v, rest, hchildren⟩ := List.exists_cons_of_ne_nil (htypes hu hukind).1
    have hofKind : u ∈ t.ofKind .catchType := List.mem_filter.mpr ⟨hu, beq_iff_eq.mpr hukind⟩
    exact List.ne_nil_of_mem
      (List.mem_map_of_mem (List.mem_flatMap.mpr ⟨u, hofKind, hchildren ▸ List.mem_cons_self⟩))
  obtain ⟨type, rest, hcaught⟩ := List.exists_cons_of_ne_nil hsome
  rw [hcaught]
  refine fun hopen => ⟨?_, fun hvar => hopen ⟨t, ht, ?_⟩⟩
  · have hmem : type ∈ catchTypes t := hcaught ▸ List.mem_cons_self
    obtain ⟨v, hv, rfl⟩ := List.mem_map.mp hmem
    obtain ⟨u, hu, hv⟩ := List.mem_flatMap.mp hv
    exact (htypes (Tree.mem_of_ofKind hu) (beq_iff_eq.mp (List.mem_filter.mp hu).2)).2 v hv
  · rw [leavesOpen, hkind]
    exact Bool.and_eq_true_iff.mpr ⟨beq_iff_eq.mpr (by rw [hcaught]; exact congrArg some hvar),
      beq_iff_eq.mpr hname⟩

theorem namesDecided_openingNames : NamesDecided (declarations t) (openingNames t) := by
  unfold openingNames
  split
  · next hkind => exact namesDecided_elementNames hwf hkind
  · intro x hx
    obtain ⟨p, hp, hx⟩ := List.mem_filterMap.mp (List.mem_reverse.mp hx)
    exact known_of_caughtName? (hwf.of_mem (Tree.mem_of_ofKind hp)) (mem_declarations_of_caught hp)
      (beq_iff_eq.mp (List.mem_filter.mp hp).2) hx
  · exact List.forall_mem_nil _

theorem extends_declareVariables (hkind : t.kind = .localVariableDeclaration) (s : State) :
    Extends (loose t) s.scopes (declareVariables t s).scopes := by
  refine List.foldlRecOn (motive := fun s' : State => Extends (loose t) s.scopes s'.scopes) _ _
    (.refl _ _) fun s' hs v hv => ?_
  split
  · next hname => exact hs.trans (.declare (known_declaredType hwf hkind hv hname s'))
  · exact hs

end Declarations

/-! ## 3. What visits find -/

/-- **A visit adds names to the innermost block only, with types that are known unless a declaration
    in the node, but in no block of it, leaves them open.** -/
theorem Visit.extends {x : Extent} {t : Tree} {above : List Tree} {s s' : State} {fs : List Field}
    (h : Visit x t above s fs s') (hwf : WellFormed t) :
    Extends (x.loose t) s.scopes s'.scopes := by
  induction h with
  | stay | call | creation | field | empty => exact .refl _ _
  | seq _ _ ih ih' => exact (ih hwf).trans (ih' hwf)
  | locals hkind => exact extends_declareVariables hwf hkind _
  | child hu _ _ hopens _ ih => exact (ih (hwf.of_mem hu)).mono (Extent.loose_child hu hopens)
  | @block t above s s' _ ih =>
    show Extends _ s.scopes s'.scopes.leave
    rw [(ih hwf).leave_eq]
    exact .refl _ _
  | guarded hkind _ hbody _ ih =>
    refine (ih (hwf.of_child? hbody)).mono
      (Extent.loose_child (Tree.mem_of_child? hbody) fun hblock => ?_)
    rw [hkind] at hblock
    cases hblock
  | detached _ ih => exact ih hwf
  | @method t body above s s' _ _ _ _ hbody _ ih =>
    show Extends _ s.scopes s'.scopes.leave
    rw [(ih (hwf.of_child? hbody)).leave_eq]
    exact .refl _ _
  | declared _ _ _ _ _ _ ih => exact (ih hwf).leaveClass

/-- An expression stands at a place of a tree. If nothing in it is left open by what is in scope
    there, its types are known. -/
def ExprTyped (root : Tree) (e : Expr) : Prop :=
  ∃ s t above, At root t above ∧ e = expr s t ∧
    (Settled (inScope (t :: above)) t → TypesDecided e)

/-- A call stands at a place of a tree. If nothing before its dot is left open by what is in scope
    there and it creates no object of the type `var`, the type that it is made on is known. -/
def ReceiverTyped (root : Tree) (k : Call) : Prop :=
  ∃ t above, At root t above ∧ StandsAt k t ∧ ∀ name, k.receiver = .type name →
    (∀ object, t.child? .object = some object → Settled (inScope (t :: above)) object) →
      typeOf? t ≠ some "var" → Decided name

/-- The calls and fields that were found have known types, as far as they refer to nothing that is
    left open. -/
structure FoundTyped (root : Tree) (s : State) : Prop where
  args : ∀ k ∈ s.calls, ∀ e ∈ k.args, ExprTyped root e
  receivers : ∀ k ∈ s.calls, ReceiverTyped root k
  initializers : ∀ c ∈ s.classes, ∀ f ∈ c.fields, ∀ e ∈ f.initializer, ExprTyped root e

namespace FoundTyped

variable {root : Tree} {s s' : State}

theorem of_eq (h : FoundTyped root s) (hcalls : s'.calls = s.calls) (hclasses : s'.classes = s.classes) :
    FoundTyped root s' :=
  ⟨hcalls ▸ h.args, hcalls ▸ h.receivers, hclasses ▸ h.initializers⟩

theorem addCall (h : FoundTyped root s) {k : Call} (hargs : ∀ e ∈ k.args, ExprTyped root e)
    (hreceiver : ReceiverTyped root k) : FoundTyped root { s with calls := s.calls ++ [k] } :=
  ⟨List.forall_mem_append.mpr ⟨h.args, List.forall_mem_singleton.mpr hargs⟩,
    List.forall_mem_append.mpr ⟨h.receivers, List.forall_mem_singleton.mpr hreceiver⟩,
    h.initializers⟩

theorem addClass (h : FoundTyped root s) {c : ClassDecl}
    (hc : ∀ f ∈ c.fields, ∀ e ∈ f.initializer, ExprTyped root e) :
    FoundTyped root { s with classes := s.classes ++ [c] } :=
  ⟨h.args, h.receivers,
    List.forall_mem_append.mpr ⟨h.initializers, List.forall_mem_singleton.mpr hc⟩⟩

theorem declareVariables (h : FoundTyped root s) (t : Tree) :
    FoundTyped root (Java.declareVariables t s) := by
  refine List.foldlRecOn _ _ h fun s h v _ => ?_
  split
  · exact h.of_eq rfl rfl
  · exact h

end FoundTyped

section

variable {root t : Tree} {above : List Tree} {s : State} (hwf : WellFormed t)
  (hat : At root t above) (hs : ScopesDecided (inScope (t :: above)) s.scopes)

include hwf hat hs

theorem exprTyped {u : Tree} (hu : u.Within t) : ExprTyped root (expr s.scopes u) := by
  obtain ⟨above', hplace, hsub⟩ := hat.exists_of_within hu
  exact ⟨s.scopes, u, above', hplace, rfl,
    typesDecided_expr (hs.mono (inScope_mono hsub)) u (hwf.of_within hu)⟩

theorem exprTyped_arguments : ∀ e ∈ arguments s.scopes t, ExprTyped root e := by
  intro e he
  unfold arguments at he
  split at he
  · next args hargs =>
    rw [exprs_eq_map] at he
    obtain ⟨u, hu, rfl⟩ := List.mem_map.mp he
    exact exprTyped hwf hat hs ((Tree.Within.of_mem hu).trans (.of_child? hargs))
  · cases he

theorem receiverTyped_methodCall? (hkind : t.kind = .methodInvocation) {parent : Kind} {k : Call}
    (hk : methodCall? s parent t = some k) :
    (∀ e ∈ k.args, ExprTyped root e) ∧ ReceiverTyped root k := by
  obtain ⟨name, _, rfl⟩ := Option.map_eq_some_iff.mp hk
  refine ⟨exprTyped_arguments hwf hat hs, t, above, hat, ⟨.inl hkind, rfl⟩, ?_⟩
  intro type htype hobject _
  dsimp only at htype
  split at htype
  · next object hfound =>
    exact decided_of_receiver hs (hwf.of_child? hfound) (hobject object hfound) htype
  · cases htype

theorem receiverTyped_constructorCall? (hkind : t.kind = .objectCreation) {parent : Kind} {k : Call}
    (hk : constructorCall? s parent t = some k) :
    (∀ e ∈ k.args, ExprTyped root e) ∧ ReceiverTyped root k := by
  obtain ⟨u, hu, rfl⟩ := Option.map_eq_some_iff.mp hk
  refine ⟨exprTyped_arguments hwf hat hs, t, above, hat, ⟨.inr hkind, rfl⟩, ?_⟩
  intro type htype _ hvar
  cases htype
  have hwritten : typeOf? t = some (erase u.text) := by rw [typeOf?, Tree.textOf?, hu]; rfl
  exact ⟨ne_empty_of_typeOf? hwf hwritten, fun h => hvar (h ▸ hwritten)⟩

end

/-- **A visit that begins where all names have known types, unless they are left open by what is in
    scope, finds nothing else.** -/
theorem Visit.typed {root t : Tree} {x : Extent} {above : List Tree} {s s' : State}
    {fs : List Field} (h : Visit x t above s fs s') (hwf : WellFormed t) (hat : At root t above)
    (hs : ScopesDecided (inScope (t :: above)) s.scopes) (hfound : FoundTyped root s) :
    FoundTyped root s' ∧ ∀ f ∈ fs, ∀ e ∈ f.initializer, ExprTyped root e := by
  have hnone : ∀ f ∈ ([] : List Field), ∀ e ∈ f.initializer, ExprTyped root e :=
    List.forall_mem_nil _
  induction h with
  | stay => exact ⟨hfound, hnone⟩
  | @seq x t above _ _ _ _ _ hvisit _ ih ih' =>
    have hextends := (hvisit.extends hwf).mono
      (List.Subset.trans (x.loose_subset t) (declarations_subset_inScope t above))
    obtain ⟨hfirst, hfs⟩ := ih hwf hat hs hfound
    obtain ⟨hlast, hgs⟩ := ih' hwf hat (hextends.scopesDecided hs) hfirst
    exact ⟨hlast, List.forall_mem_append.mpr ⟨hfs, hgs⟩⟩
  | call _ hkind hk =>
    obtain ⟨hargs, hreceiver⟩ := receiverTyped_methodCall? hwf hat hs hkind hk
    exact ⟨hfound.addCall hargs hreceiver, hnone⟩
  | creation _ hkind hk =>
    obtain ⟨hargs, hreceiver⟩ := receiverTyped_constructorCall? hwf hat hs hkind hk
    exact ⟨hfound.addCall hargs hreceiver, hnone⟩
  | locals => exact ⟨hfound.declareVariables _, hnone⟩
  | field hvalue =>
    refine ⟨hfound, List.forall_mem_singleton.mpr fun e he => ?_⟩
    obtain ⟨u, hu, rfl⟩ := hvalue e he
    exact exprTyped hwf hat hs hu
  | child hu _ _ _ _ ih =>
    exact ih (hwf.of_mem hu) (hat.child hu) (hs.below _) hfound
  | @block t above _ _ _ ih =>
    have hnames := (namesDecided_openingNames hwf).around above
    obtain ⟨hinside, _⟩ := ih hwf hat (hs.enter hnames) (hfound.of_eq rfl rfl)
    exact ⟨hinside.of_eq rfl rfl, hnone⟩
  | guarded _ _ hbody _ ih =>
    obtain ⟨hinside, _⟩ := ih (hwf.of_child? hbody) (hat.child (Tree.mem_of_child? hbody))
      (hs.below _) (hfound.of_eq rfl rfl)
    exact ⟨hinside.of_eq rfl rfl, hnone⟩
  | detached _ ih =>
    obtain ⟨hinside, _⟩ := ih hwf hat hs (hfound.of_eq rfl rfl)
    exact ⟨hinside.of_eq rfl rfl, hnone⟩
  | @method t body above s _ _ _ _ _ hbody _ ih =>
    have hnames := (namesDecided_parameterNames hwf s.scopes).around above
    obtain ⟨hinside, _⟩ := ih (hwf.of_child? hbody) (hat.child (Tree.mem_of_child? hbody))
      ((hs.enter hnames).below _) (hfound.of_eq rfl rfl)
    exact ⟨hinside.of_eq rfl rfl, hnone⟩
  | @declared t body above _ _ _ name c htype hbody hfields _ ih =>
    have hnames := (namesDecided_classScope hwf htype hbody name).around above
    obtain ⟨hinside, hfs⟩ := ih hwf hat (hs.enterClass hnames) (hfound.of_eq rfl rfl)
    exact ⟨(hinside.addClass (hfields ▸ hfs)).of_eq rfl rfl, hnone⟩
  | empty c hfields => exact ⟨hfound.addClass (hfields ▸ hnone), hnone⟩

/-! ## 4. Whole trees -/

theorem typed_foldl_walkTop {root : Tree} (hwf : WellFormed root) :
    FoundTyped root (root.children.foldl walkTop State.initial) := by
  have hend : (root.children.foldl walkTop State.initial).scopes = .empty ∧
      FoundTyped root (root.children.foldl walkTop State.initial) := by
    refine foldl_walkTop_induction (I := fun s => s.scopes = .empty ∧ FoundTyped root s) hwf
      (fun s _ hs => ⟨hs.1, hs.2.of_eq rfl rfl⟩) (fun t ht s s' hvisit hs => ?_)
      ⟨rfl, List.forall_mem_nil _, List.forall_mem_nil _, List.forall_mem_nil _⟩
    have hwft : WellFormed t := hwf.of_mem ht
    have hscopes : ScopesDecided (inScope [t, root]) s.scopes := by
      rw [hs.1]
      exact ⟨List.forall_mem_nil _, List.forall_mem_nil _⟩
    have hextends := hvisit.extends hwft
    rw [hs.1] at hextends
    exact ⟨hextends.eq_empty, (hvisit.typed hwft (.child .top ht) hscopes hs.2).1⟩
  exact hend.2

/-- **The types of arguments, of the values of fields and of what calls are made on are known, if
    they are recorded at all, except where an expression refers to a name that a declaration in scope
    leaves open.** So an argument that is reported for its type has a known type, unless it refers
    to such a name. -/
theorem typesDecided_unitOf {root : Tree} (hwf : WellFormed root) (path : Path) :
    (∀ k ∈ (unitOf path root).calls, (∀ e ∈ k.args, ExprTyped root e) ∧ ReceiverTyped root k) ∧
    (∀ c ∈ (unitOf path root).classes, ∀ f ∈ c.fields, ∀ e ∈ f.initializer, ExprTyped root e) ∧
    ∀ k ∈ (unitOf path root).calls, ∀ location first strings i,
      Check.wrongType? location first (k.args.drop first) strings = some i →
        ∃ e ∈ k.args, ∃ type, e.type = some type ∧
          (∃ s t above, At root t above ∧ e = expr s t ∧
            (Settled (inScope (t :: above)) t → Decided type)) ∧
          ∃ f ∈ strings, ∃ spec index position,
            Check.accepts spec (unbox (erase type)) = false ∧
              i = Check.wrongType location f index position spec (unbox (erase type)) := by
  have htyped := typed_foldl_walkTop hwf
  refine ⟨fun k hk => ⟨htyped.args k hk, htyped.receivers k hk⟩, htyped.initializers, ?_⟩
  intro k hk location first strings i hi
  obtain ⟨f, hf, e, he, type, htype, hreport⟩ := Check.exists_of_wrongType? hi
  obtain ⟨written, hwritten, rfl⟩ := Option.map_eq_some_iff.mp htype
  have hmem : e ∈ k.args := List.mem_of_mem_drop he
  obtain ⟨s, t, above, hat, heq, hdecided⟩ := htyped.args k hk e hmem
  refine ⟨e, hmem, written, hwritten, ⟨s, t, above, hat, heq, fun hsettled => ?_⟩, f, hf, hreport⟩
  exact (typesDecided_iff.mp (hdecided hsettled)).1 written hwritten

/-- **So it is for the calls and fields of every file.** -/
theorem typesDecided_compilationUnit (path : Path) (contents : List Char) :
    (∀ k ∈ (compilationUnit path contents).calls,
      (∀ e ∈ k.args, ExprTyped (parse contents) e) ∧ ReceiverTyped (parse contents) k) ∧
    (∀ c ∈ (compilationUnit path contents).classes, ∀ f ∈ c.fields, ∀ e ∈ f.initializer,
      ExprTyped (parse contents) e) ∧
    ∀ k ∈ (compilationUnit path contents).calls, ∀ location first strings i,
      Check.wrongType? location first (k.args.drop first) strings = some i →
        ∃ e ∈ k.args, ∃ type, e.type = some type ∧
          (∃ s t above, At (parse contents) t above ∧ e = expr s t ∧
            (Settled (inScope (t :: above)) t → Decided type)) ∧
          ∃ f ∈ strings, ∃ spec index position,
            Check.accepts spec (unbox (erase type)) = false ∧
              i = Check.wrongType location f index position spec (unbox (erase type)) :=
  typesDecided_unitOf (wellFormed_parse contents) path

theorem range_expr (s : Scopes) (t : Tree) : (expr s t).range = t.range := by
  rw [expr]
  dsimp only
  split
  case h_8 => split <;> rfl
  case h_14 => split <;> rfl
  all_goals rfl

mutual

/-- Whether something holds at all places in a node, given the nodes above it. -/
def holdsThroughout (p : Tree → List Tree → Bool) (above : List Tree) (t : Tree) : Bool :=
  match t with
  | ⟨kind, role, range, text, children⟩ =>
    p ⟨kind, role, range, text, children⟩ above &&
      allHoldThroughout p (⟨kind, role, range, text, children⟩ :: above) children

/-- Whether something holds at all places in some nodes. -/
def allHoldThroughout (p : Tree → List Tree → Bool) (above : List Tree) (ts : List Tree) : Bool :=
  match ts with
  | [] => true
  | t :: rest => holdsThroughout p above t && allHoldThroughout p above rest

end

theorem At.of_holdsThroughout {root t : Tree} {above : List Tree} {p : Tree → List Tree → Bool}
    (h : holdsThroughout p [] root = true) (hat : At root t above) : p t above = true := by
  have hall (above : List Tree) {ts : List Tree} {u : Tree} (hu : u ∈ ts)
      (h : allHoldThroughout p above ts = true) : holdsThroughout p above u = true := by
    induction ts with
    | nil => cases hu
    | cons t ts ih =>
      rw [allHoldThroughout, Bool.and_eq_true] at h
      rcases List.mem_cons.mp hu with rfl | hu
      · exact h.1
      · exact ih hu h.2
  have hbelow : holdsThroughout p above t = true := by
    induction hat with
    | top => exact h
    | @child t u above _ hu ih =>
      cases t
      rw [holdsThroughout, Bool.and_eq_true] at ih
      exact hall _ hu ih.2
  cases t
  rw [holdsThroughout, Bool.and_eq_true] at hbelow
  exact hbelow.1

/-- A variable with the type of its value, whose name another method leaves open. -/
def inferredText : List Char :=
  "class A{int m=1;void f(){var x=foo();h(x);}void i(){var x=1;g(x,m);}}".toList

theorem typesDecided_compilationUnit_inferred :
    LeftOpen (parse inferredText).preorder "x" ∧
      ∃ k ∈ (compilationUnit ⟨"src/A.java"⟩ inferredText).calls, k.name = "g" ∧
        k.args.map (·.type) = [some "int", some "int"] ∧ ∀ e ∈ k.args, TypesDecided e := by
  have hcomputed : LeftOpen (parse inferredText).preorder "x" ∧
      (compilationUnit ⟨"src/A.java"⟩ inferredText).calls.any (fun k =>
        k.name == "g" && k.args.map (·.type) == [some "int", some "int"] &&
          k.args.all fun e => holdsThroughout (fun t above =>
            t.range != e.range || decide (Settled (inScope (t :: above)) t)) []
            (parse inferredText)) = true := by
    decide +kernel
  obtain ⟨k, hk, hfound⟩ := List.any_eq_true.mp hcomputed.2
  simp only [Bool.and_eq_true, beq_iff_eq, List.all_eq_true] at hfound
  obtain ⟨⟨hname, htypes⟩, hsettled⟩ := hfound
  refine ⟨hcomputed.1, k, hk, hname, htypes, fun e he => ?_⟩
  obtain ⟨s, t, above, hat, heq, hdecided⟩ :=
    ((typesDecided_compilationUnit ⟨"src/A.java"⟩ inferredText).1 k hk).1 e he
  have hrange : t.range = e.range := by rw [heq, range_expr]
  have hchecked := hat.of_holdsThroughout (hsettled e he)
  rw [hrange, bne_self_eq_false, Bool.false_or] at hchecked
  exact hdecided (of_decide_eq_true hchecked)

/-- A variable whose value has no known type, and the elements of a list. -/
def openText : List Char :=
  "class A{void f(L xs){var x=foo();g(x);x.h();for(var y:xs)g(y);}}".toList

/-- Types that are left open are recorded as the empty type and the type `var`, none of which suits
    a specifier for numbers. -/
theorem types_left_open_recorded :
    (compilationUnit ⟨"src/A.java"⟩ openText).calls.map
        (fun k => (k.name, k.args.map (·.type), k.receiver)) =
      [("foo", [], .implicit), ("g", [some ""], .implicit), ("h", [], .type ""),
        ("g", [some "var"], .implicit)] ∧
    ∀ spec : Format.Specifier, spec.conversionClass = .integer →
      Check.accepts spec (unbox (erase "")) = false ∧
        Check.accepts spec (unbox (erase "var")) = false := by
  refine ⟨by decide +kernel, fun spec hclass => ?_⟩
  unfold Check.accepts
  rw [hclass]
  decide

end AndroidLint.Java
