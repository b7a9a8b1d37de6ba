/-
  File:      AndroidLint/Proofs/JavaVisits.lean
  Subject:   What a walk through a Java file does, place by place.

  `Visit` says what the walk may do at a node, apart from the order in which it goes through the
  tree: meet a call, declare variables, go to a child, enter a block, the body of a `try`, a method
  or a class, and leave it again. Facts about what the walk finds are inductions over `Visit`.

  * `At`:            a node stands at a place of a tree, below the nodes it stands in;
  * `isMember`:      a node is a method that the walk enters as one;
  * `openingNames`:  the names with which the block of a node begins;
  * `Visit`:         the steps of a walk;
  * `visits`:        the walk takes no other steps;
  * `foldl_walkTop_induction`:   what visits keep holds of a whole file.
-/
import AndroidLint.Proofs.JavaScopes
import AndroidLint.Proofs.JavaShapes

namespace AndroidLint.Java

open Source Syntax

/-! ## 1. Places -/

/-- A node stands in a tree below the nodes `above`, the innermost of which comes first. -/
inductive At (root : Tree) : Tree → List Tree → Prop where
  | top : At root root []
  | child {t u : Tree} {above : List Tree} : At root t above → u ∈ t.children →
      At root u (t :: above)

theorem At.within {root t : Tree} {above : List Tree} (h : At root t above) : t.Within root := by
  induction h with
  | top => exact .self
  | child _ hu ih => exact (Tree.Within.of_mem hu).trans ih

/-- What stands in a node at a place stands below everything that is around the node. -/
theorem At.exists_of_within {root t u : Tree} {above : List Tree} (h : At root t above)
    (hu : u.Within t) : ∃ above', At root u above' ∧ t :: above ⊆ u :: above' := by
  induction hu generalizing above with
  | self => exact ⟨above, h, List.Subset.refl _⟩
  | @child t v hv _ ih =>
    obtain ⟨above', hat, hsub⟩ := ih (h.child hv)
    exact ⟨above', hat, fun n hn => hsub (List.mem_cons_of_mem v hn)⟩

/-- Whether a node is the body of a class. -/
def isClassBody (t : Tree) : List Tree → Bool
  | [] => false
  | owner :: _ => t.role == .body && owner.kind.declaresType

/-- Whether what stands directly below some nodes belongs to a class with a name. -/
def inClass : List Tree → Bool
  | [] => false
  | [body] => isClassBody body []
  | body :: outer :: above => isClassBody body (outer :: above) ||
      (body.kind == .enumBodyDeclarations && isClassBody outer above)

/-- Whether what stands directly below some nodes belongs to a class without a name. -/
def inCreation : List Tree → Bool
  | body :: creation :: _ => body.kind == .classBody && creation.kind == .objectCreation
  | _ => false

/-- Whether a node is a method or a constructor of a class with a name, or a method of one without.
    The methods in the body of an enumeration's constant are none of these. -/
def isMember (t : Tree) (above : List Tree) : Bool :=
  (t.kind.declaresMethod && inClass above) || (t.kind == .methodDeclaration && inCreation above)

/-- Nothing directly below a node is a member. -/
structure Passive (t : Tree) (above : List Tree) : Prop where
  notInClass : inClass (t :: above) = false
  notInCreation : inCreation (t :: above) = false

theorem isMember_eq_false {t : Tree} (h : t.kind.declaresMethod = false) (above : List Tree) :
    isMember t above = false := by
  have hmethod : (t.kind == .methodDeclaration) = false := by
    rw [beq_eq_false_iff_ne]
    intro hk
    rw [hk] at h
    cases h
  rw [isMember, h, hmethod, Bool.false_and, Bool.false_and, Bool.or_false]

theorem Passive.not_isMember {t : Tree} {above : List Tree} (h : Passive t above) (u : Tree) :
    isMember u (t :: above) = false := by
  rw [isMember, h.notInClass, h.notInCreation, Bool.and_false, Bool.and_false, Bool.or_false]

theorem isClassBody_eq_false {t p : Tree} (hp : p.kind.declaresType = false) (above : List Tree) :
    isClassBody t (p :: above) = false := by
  rw [isClassBody, hp, Bool.and_false]

/-- Below a node that is no class only a list of members or the body of a class holds members. -/
theorem passive_of_kind {t p : Tree} (hp : p.kind.declaresType = false)
    (hlist : t.kind ≠ .enumBodyDeclarations) (hbody : t.kind ≠ .classBody) (above : List Tree) :
    Passive t (p :: above) where
  notInClass := by
    rw [inClass, isClassBody_eq_false hp, beq_eq_false_iff_ne.mpr hlist, Bool.false_and,
      Bool.or_false]
  notInCreation := by rw [inCreation, beq_eq_false_iff_ne.mpr hbody, Bool.false_and]

/-- If nothing directly below a node is a member, that is so below its children too, unless the
    node is a class or creates an object of one. -/
theorem Passive.child {t u : Tree} {above : List Tree} (h : Passive t above)
    (htype : t.kind.declaresType = false)
    (hcreation : u.kind = .classBody → t.kind ≠ .objectCreation) : Passive u (t :: above) where
  notInClass := by
    have hnot := h.notInClass
    have hclass : isClassBody t above = false := by
      cases above with
      | nil => rfl
      | cons p above => exact (Bool.or_eq_false_iff.mp hnot).1
    rw [inClass, isClassBody_eq_false htype, hclass, Bool.and_false, Bool.or_false]
  notInCreation := by
    rw [inCreation, Bool.and_eq_false_iff]
    by_cases hu : u.kind = .classBody
    · exact .inr (beq_eq_false_iff_ne.mpr (hcreation hu))
    · exact .inl (beq_eq_false_iff_ne.mpr hu)

/-! ## 2. Blocks -/

/-- The variable of a loop over elements. -/
def elementNames (t : Tree) : Names :=
  match t.textOf? .name, typeOf? t with
  | some name, some type => [(name, type)]
  | _, _ => []

/-- The names with which the block of a node begins. -/
def openingNames (t : Tree) : Names :=
  match t.kind with
  | .enhancedForStatement => elementNames t
  | .catchClause => ((t.ofKind .catchParameter).filterMap caughtName?).reverse
  | _ => []

theorem openingNames_eq_nil {t : Tree} (helement : t.kind ≠ .enhancedForStatement)
    (hcatch : t.kind ≠ .catchClause) : openingNames t = [] := by
  unfold openingNames
  split
  · contradiction
  · contradiction
  · rfl

theorem declareElement_enter {t : Tree} (hkind : t.kind = .enhancedForStatement) (s : State) :
    declareElement t (s.enter []) = s.enter (openingNames t) := by
  rw [openingNames, hkind]
  unfold declareElement elementNames
  cases t.textOf? .name <;> cases typeOf? t <;> rfl

theorem declareCaught_enter {t : Tree} (hkind : t.kind = .catchClause) (s : State) :
    declareCaught t (s.enter []) = s.enter (openingNames t) := by
  have hdeclared (added names : Names) :
      added.foldl (fun s x => s.declare x.1 x.2) (s.enter names) =
        s.enter (added.reverse ++ names) := by
    induction added generalizing names with
    | nil => rfl
    | cons x added ih =>
      rw [List.foldl_cons, List.reverse_cons, List.append_assoc]
      exact ih (x :: names)
  rw [openingNames, hkind]
  exact (hdeclared _ []).trans (congrArg s.enter (List.append_nil _))

/-! ## 3. Visits -/

/-- How much of a node is gone through. -/
inductive Extent where
  | whole
  /-- What stands in the block that the node opens. -/
  | inBlock

/-- What a walk may do at a node below the nodes `above`: it goes from one state to another and
    gives fields to the class around. -/
inductive Visit : Extent → Tree → List Tree → State → List Field → State → Prop where
  | stay {x : Extent} {t : Tree} {above : List Tree} {s : State} : Visit x t above s [] s
  | seq {x : Extent} {t : Tree} {above : List Tree} {s s' s'' : State} {fs gs : List Field} :
      Visit x t above s fs s' → Visit x t above s' gs s'' → Visit x t above s (fs ++ gs) s''
  | call {t : Tree} {above : List Tree} {s : State} {k : Call} (parent : Kind) :
      t.kind = .methodInvocation → methodCall? s parent t = some k →
      Visit .whole t above s [] { s with calls := s.calls ++ [k] }
  | creation {t : Tree} {above : List Tree} {s : State} {k : Call} (parent : Kind) :
      t.kind = .objectCreation → constructorCall? s parent t = some k →
      Visit .whole t above s [] { s with calls := s.calls ++ [k] }
  | locals {t : Tree} {above : List Tree} {s : State} : t.kind = .localVariableDeclaration →
      Visit .whole t above s [] (declareVariables t s)
  /-- A field, whose value is an expression in its declaration. -/
  | field {t : Tree} {above : List Tree} {s : State} {f : Field} :
      (∀ e ∈ f.initializer, ∃ u, u.Within t ∧ e = expr s.scopes u) → Visit .whole t above s [f] s
  | child {x : Extent} {t u : Tree} {above : List Tree} {s s' : State} {fs : List Field} :
      u ∈ t.children → isMember t above = false → (t.kind = .tryStatement → u.role ≠ .body) →
      (t.kind.opensBlock = true → x = .inBlock) →
      Visit .whole u (t :: above) s fs s' → Visit x t above s fs s'
  | block {t : Tree} {above : List Tree} {s s' : State} :
      Visit .inBlock t above (s.enter (openingNames t)) [] s' → Visit .whole t above s [] s'.leave
  /-- The body of a `try`. -/
  | guarded {x : Extent} {t body : Tree} {above : List Tree} {s s' : State} :
      t.kind = .tryStatement → isMember t above = false → t.child? .body = some body →
      Visit .whole body (t :: above) { s with caught := s.caught ++ caughtBy t } [] s' →
      Visit x t above s [] { s' with caught := s'.caught.take s.caught.length }
  | detached {t : Tree} {above : List Tree} {s s' : State} :
      Visit .whole t above { s with caller := none } [] s' →
      Visit .whole t above s [] { s' with caller := s.caller }
  | method {t body : Tree} {above : List Tree} {s s' : State} (r : Caller) (owner : String)
      (inInterface : Bool) : isMember t above = true → t.child? .body = some body →
      Visit .whole body (t :: above) (({ s with caller := some r, caught := [] } : State).enter
        (parameterNames (methodOf s t owner inInterface).parameters)) [] s' →
      Visit .whole t above s [] { s'.leave with caller := s.caller, caught := s.caught }
  | declared {t body : Tree} {above : List Tree} {s s' : State} {fs : List Field} (name : String)
      (c : ClassDecl) : t.kind.declaresType = true → t.child? .body = some body →
      c.fields = fs →
      Visit .whole t above { s with
        scopes := s.scopes.enterClass (classScope name (classNameOf t) (memberNodes body)) } fs s' →
      Visit .whole t above s []
        { s' with scopes := s'.scopes.leaveClass, classes := s'.classes ++ [c] }
  /-- A class without a body. -/
  | empty {t : Tree} {above : List Tree} {s : State} (c : ClassDecl) : c.fields = [] →
      Visit .whole t above s [] { s with classes := s.classes ++ [c] }

namespace Visit

variable {x : Extent} {t : Tree} {above : List Tree} {s s' s'' : State}

/-- Two parts of a walk, neither of which gives fields. -/
theorem trans (h : Visit x t above s [] s') (h' : Visit x t above s' [] s'') :
    Visit x t above s [] s'' :=
  h.seq h'

theorem foldl {α : Type} {f : State → α → State} {ys : List α}
    (h : ∀ y ∈ ys, ∀ s, Visit x t above s [] (f s y)) (s : State) :
    Visit x t above s [] (ys.foldl f s) := by
  induction ys generalizing s with
  | nil => exact .stay
  | cons y ys ih =>
    obtain ⟨hy, hys⟩ := List.forall_mem_cons.mp h
    exact (hy s).trans (ih hys (f s y))

end Visit

/-- Whether a node is neither a method nor a `try` and opens no block. -/
def Kind.isInert (k : Kind) : Bool := !k.declaresMethod && !k.opensBlock && k != .tryStatement

theorem Kind.isInert_of_declaresType {k : Kind} (h : k.declaresType = true) : k.isInert = true := by
  cases k <;> first | rfl | cases h

/-- Such a node is passed on the way to its children. -/
theorem Visit.pass {t u : Tree} {above : List Tree} {s s' : State} {fs : List Field}
    (ht : t.kind.isInert = true) (hu : u ∈ t.children)
    (h : Visit .whole u (t :: above) s fs s') : Visit .whole t above s fs s' := by
  simp only [Kind.isInert, Bool.and_eq_true, Bool.not_eq_true', bne_iff_ne] at ht
  obtain ⟨⟨hmethod, hblock⟩, htry⟩ := ht
  exact .child hu (isMember_eq_false hmethod above) (fun hk => absurd hk htry)
    (fun hk => absurd (hblock.symm.trans hk) Bool.false_ne_true) h

/-! ## 4. Statements and expressions -/

/-- The walk through a node that is no member takes the steps of `Visit` only. -/
def Visits (t : Tree) : Prop :=
  ∀ above, WellFormed t → isMember t above = false → Passive t above → ∀ parent s,
    Visit .whole t above s [] (walk parent t s)

theorem WellFormed.of_within {t u : Tree} (h : WellFormed t) (hu : u.Within t) : WellFormed u :=
  fun v hv => h v (hv.trans hu)

theorem WellFormed.of_mem {t u : Tree} (h : WellFormed t) (hu : u ∈ t.children) : WellFormed u :=
  h.of_within (.of_mem hu)

theorem WellFormed.of_child? {t u : Tree} {role : Role} (h : WellFormed t)
    (hu : t.child? role = some u) : WellFormed u :=
  h.of_mem (Tree.mem_of_child? hu)

section

variable {x : Extent} {t : Tree} {above : List Tree}
  (ih : ∀ u ∈ t.children, ∀ v, v.Within u → Visits v)
  (hwf : WellFormed t) (hnot : isMember t above = false) (hpassive : Passive t above)
  (htype : t.kind.declaresType = false) (hopens : t.kind.opensBlock = true → x = .inBlock)

include ih hwf hnot hpassive htype hopens

/-- The walk through a child that is neither the body of a `try` nor that of a class. -/
theorem visit_child {u : Tree} (hu : u ∈ t.children)
    (hcreation : u.kind = .classBody → t.kind ≠ .objectCreation)
    (htry : t.kind = .tryStatement → u.role ≠ .body) (parent : Kind) (s : State) :
    Visit x t above s [] (walk parent u s) :=
  .child hu hnot htry hopens <| ih u hu u .self _ (hwf.of_mem hu) (hpassive.not_isMember u)
    (hpassive.child htype hcreation) parent s

theorem visit_walkAll (hcreation : t.kind ≠ .objectCreation) (htry : t.kind ≠ .tryStatement)
    (s : State) : Visit x t above s [] (walkAll t.kind t.children s) := by
  rw [walkAll_eq_foldl]
  exact .foldl (fun u hu s => visit_child ih hwf hnot hpassive htype hopens hu
    (fun _ => hcreation) (fun hk => absurd hk htry) t.kind s) s

theorem visit_walkPart (hcreation : t.kind ≠ .objectCreation) {role : Role}
    (hrole : role ≠ .body ∨ t.kind ≠ .tryStatement) (s : State) :
    Visit x t above s [] (walkPart role t s) := by
  unfold walkPart
  split
  · next u hu =>
    have hplays : u.role = role := by simpa using List.find?_some hu
    refine visit_child ih hwf hnot hpassive htype hopens (Tree.mem_of_child? hu)
      (fun _ => hcreation) (fun hk => ?_) t.kind s
    rw [hplays]
    exact hrole.resolve_right (not_not_intro hk)
  · exact .stay

omit hopens in
theorem visit_tryStatement (hkind : t.kind = .tryStatement) (parent : Kind) (s : State) :
    Visit .whole t above s [] (walk parent t s) := by
  have hcreation : t.kind ≠ .objectCreation := by rw [hkind]; decide
  have hopens (x : Extent) : t.kind.opensBlock = true → x = .inBlock := fun hblock => by
    rw [hkind] at hblock
    cases hblock
  have hholds := (hwf t .self).holds
  rw [hkind] at hholds
  have hresources (s : State) : Visit .inBlock t above s [] (walkPart .resources t s) :=
    visit_walkPart ih hwf hnot hpassive htype (hopens _) hcreation (.inl (by decide)) _
  have hnames : s.enter [] = s.enter (openingNames t) :=
    congrArg s.enter (openingNames_eq_nil (by rw [hkind]; decide) (by rw [hkind]; decide)).symm
  rw [walk_tryStatement parent hkind, walkClauses_eq_foldl, hnames]
  refine (Visit.block ((hresources _).trans ?_)).trans (.foldl (fun u hu s => ?_) _)
  · unfold walkGuarded
    split
    · next body hbody =>
      refine .guarded hkind hnot hbody ?_
      exact ih body (Tree.mem_of_child? hbody) body .self _ (hwf.of_child? hbody)
        (hpassive.not_isMember body) (hpassive.child htype fun _ => hcreation) t.kind _
    · exact .stay
  · split
    · next hclause =>
      refine visit_child ih hwf hnot hpassive htype (hopens _) hu (fun _ => hcreation) (fun _ => ?_)
        t.kind s
      rw [hholds u hu hclause]
      decide
    · exact .stay

end

/-! ## 5. Methods and classes -/

theorem Kind.declaresType_of_declaresMethod {k : Kind} (h : k.declaresMethod = true) :
    k.declaresType = false := by
  cases k <;> first | rfl | cases h

theorem Kind.declaresMethod_of_declaresType {k : Kind} (h : k.declaresType = true) :
    k.declaresMethod = false := by
  cases k <;> first | rfl | cases h

/-- Nothing directly below a method is a member. -/
theorem passive_of_declaresMethod {t p : Tree} (h : t.kind.declaresMethod = true)
    (hp : p.kind.declaresType = false) (above : List Tree) : Passive t (p :: above) := by
  refine passive_of_kind hp (fun hk => ?_) (fun hk => ?_) above
  all_goals
    rw [hk] at h
    cases h

theorem visit_walkMethod {t p : Tree} {above : List Tree} (hwf : WellFormed t)
    (ih : ∀ body, t.child? .body = some body → Visits body) (hkind : t.kind.declaresMethod = true)
    (hp : p.kind.declaresType = false) (hmember : isMember t (p :: above) = true) (owner : String)
    (inInterface : Bool) (s : State) :
    Visit .whole t (p :: above) s [] (walkMethod t owner inInterface s) := by
  rw [walkMethod]
  split
  · exact .stay
  · next body hbody =>
    have hpassive := passive_of_declaresMethod hkind hp above
    have hinside : Passive body (t :: p :: above) := by
      refine hpassive.child (Kind.declaresType_of_declaresMethod hkind) fun _ hk => ?_
      rw [hk] at hkind
      cases hkind
    exact .method _ owner inInterface hmember hbody
      (ih body hbody _ (hwf.of_child? hbody) (hpassive.not_isMember body) hinside t.kind _)

/-- The body of a class without a name. -/
theorem visit_walkAnonymous {t creation : Tree} {above : List Tree} (hwf : WellFormed t)
    (ih : ∀ u, u.Within t → Visits u) (hbody : t.kind = .classBody)
    (hcreation : creation.kind = .objectCreation) (owner : String) (s : State) :
    Visit .whole t (creation :: above) s [] (walkAnonymous owner t.kind t.children s) := by
  have htype : t.kind.declaresType = false := by rw [hbody]; rfl
  have hclass : inClass (t :: creation :: above) = false := by
    rw [inClass, isClassBody_eq_false (by rw [hcreation]; rfl), hbody]
    rfl
  rw [walkAnonymous_eq_foldl]
  refine .foldl (fun u hu s => .pass (by rw [hbody]; rfl) hu ?_) s
  split
  · next hmethod =>
    have hvisits (body : Tree) (hb : u.child? .body = some body) : Visits body :=
      ih body ((Tree.Within.of_child? hb).trans (.of_mem hu))
    refine visit_walkMethod (hwf.of_mem hu) hvisits (by rw [hmethod]; rfl) htype ?_ owner false s
    rw [isMember, inCreation, hmethod, hbody, hcreation]
    exact Bool.or_true _
  · next hmethod =>
    refine ih u (.of_mem hu) _ (hwf.of_mem hu) ?_ ⟨?_, ?_⟩ t.kind s
    · rw [isMember, hclass, beq_eq_false_iff_ne.mpr hmethod, Bool.and_false, Bool.false_and,
        Bool.or_false]
    · rw [inClass, isClassBody_eq_false htype, isClassBody_eq_false (by rw [hcreation]; rfl),
        Bool.and_false, Bool.or_false]
    · rw [inCreation, hbody, Bool.and_comm]
      rfl

/-- A member stands below some nodes of the body of its class. -/
inductive MemberAt (body : Tree) : Tree → List Tree → Prop where
  | direct {u : Tree} : u ∈ body.children → MemberAt body u [body]
  | listed {u c : Tree} : c ∈ body.children → c.kind = .enumBodyDeclarations → u ∈ c.children →
      MemberAt body u [c, body]

theorem exists_memberAt {body u : Tree} (h : u ∈ memberNodes body) :
    ∃ between, MemberAt body u between := by
  obtain ⟨c, hc, hu⟩ := List.mem_flatMap.mp h
  split at hu
  · next hkind => exact ⟨[c, body], .listed hc hkind hu⟩
  · cases List.mem_singleton.mp hu
    exact ⟨[body], .direct hc⟩

/-- What is known of the body of a class. -/
structure BodyOf (t body : Tree) : Prop where
  type : t.kind.declaresType = true
  mem : body ∈ t.children
  role : body.role = .body
  kind : body.kind = .classBody ∨ body.kind = .other

namespace BodyOf

variable {t body u : Tree} {between above : List Tree}

theorem of_child? (hwf : WellFormed t) (htype : t.kind.declaresType = true)
    (hbody : t.child? .body = some body) : BodyOf t body := by
  have hrole : body.role = .body := by simpa using List.find?_some hbody
  have hmem := Tree.mem_of_child? hbody
  exact ⟨htype, hmem, hrole, ((hwf t .self).holds.classPart htype body hmem).body hrole⟩

theorem kind_declaresType (h : BodyOf t body) : body.kind.declaresType = false := by
  rcases h.kind with hk | hk <;> rw [hk] <;> rfl

theorem isClassBody (h : BodyOf t body) (above : List Tree) :
    Java.isClassBody body (t :: above) = true := by
  rw [Java.isClassBody, h.role, h.type]
  rfl

/-- What is done at a member is done in its class. -/
theorem visit (h : BodyOf t body) (hu : MemberAt body u between) {s s' : State} {fs : List Field}
    (hvisit : Visit .whole u (between ++ t :: above) s fs s') : Visit .whole t above s fs s' := by
  have hbody : body.kind.isInert = true := by rcases h.kind with hk | hk <;> rw [hk] <;> rfl
  refine .pass (Kind.isInert_of_declaresType h.type) h.mem ?_
  cases hu with
  | direct hu => exact .pass hbody hu hvisit
  | @listed c hc hkind hu => exact .pass hbody hc (.pass (by rw [hkind]; rfl) hu hvisit)

/-- A member stands in the body of its class, or in a list in it. -/
theorem exists_parent (h : BodyOf t body) (hu : MemberAt body u between) (above : List Tree) :
    ∃ p rest, between ++ t :: above = p :: rest ∧ p.kind.declaresType = false := by
  cases hu with
  | direct hu => exact ⟨body, t :: above, rfl, h.kind_declaresType⟩
  | @listed c _ hkind hu => exact ⟨c, body :: t :: above, rfl, by rw [hkind]; rfl⟩

theorem inClass (h : BodyOf t body) (hu : MemberAt body u between) :
    Java.inClass (between ++ t :: above) = true := by
  cases hu with
  | direct hu =>
    show Java.inClass (body :: t :: above) = true
    rw [Java.inClass, h.isClassBody]
    rfl
  | @listed c _ hkind hu =>
    show Java.inClass (c :: body :: t :: above) = true
    rw [Java.inClass, hkind, h.isClassBody]
    exact Bool.or_true _

end BodyOf

/-- The values of a field are code outside all methods. -/
theorem visit_walkFields {t : Tree} {above : List Tree} (hwf : WellFormed t)
    (ih : ∀ u, u.Within t → Visits u) (hkind : t.kind = .fieldDeclaration) (inInterface : Bool)
    {vs : List Tree} (hvs : ∀ v ∈ vs, v ∈ t.children ∧ v.kind = .variableDeclarator) (s : State) :
    Visit .whole t above s (walkFields t inInterface vs s).1
      (walkFields t inInterface vs s).2 := by
  have htype : t.kind.declaresType = false := by rw [hkind]; rfl
  induction vs generalizing s with
  | nil =>
    rw [walkFields]
    exact .stay
  | cons v rest ihrest =>
    obtain ⟨⟨hv, hvkind⟩, hrest⟩ := List.forall_mem_cons.mp hvs
    rw [walkFields]
    split
    · exact ihrest hrest s
    · split
      · refine .seq (.field fun e he => ?_) (ihrest hrest s)
        exact absurd he (Option.not_mem_none e)
      · next value hvalue =>
        have hvtype : v.kind.declaresType = false := by rw [hvkind]; rfl
        have hvpassive : Passive v (t :: above) :=
          passive_of_kind htype (by rw [hvkind]; decide) (by rw [hvkind]; decide) above
        have hin : value.Within t := (Tree.Within.of_child? hvalue).trans (.of_mem hv)
        have hwalk (s : State) : Visit .whole t above s [] (walk v.kind value s) := by
          refine .pass (by rw [hkind]; rfl) hv
            (.pass (by rw [hvkind]; rfl) (Tree.mem_of_child? hvalue) ?_)
          exact ih value hin _ ((hwf.of_mem hv).of_child? hvalue) (hvpassive.not_isMember value)
            (hvpassive.child hvtype fun _ => by rw [hvkind]; decide) v.kind s
        have hdetached : Visit .whole t above s [] (walkDetached v.kind value s) := by
          rw [walkDetached]
          exact .detached (hwalk _)
        refine .seq hdetached (.seq (.field fun e he => ?_) (ihrest hrest _))
        exact ⟨value, hin, (Option.some.inj he).symm⟩

theorem visit_walkMembers {t body : Tree} {above : List Tree} (hbody : BodyOf t body)
    (hwf : WellFormed t) (ih : ∀ u ∈ t.children, ∀ v, v.Within u → Visits v)
    (className owner : String) (inInterface : Bool) {us : List Tree}
    (hus : ∀ u ∈ us, u ∈ memberNodes body) (members : Members) (s : State) :
    ∃ fs, (walkMembers className owner inInterface us members s).1.fields = members.fields ++ fs ∧
      Visit .whole t above s fs (walkMembers className owner inInterface us members s).2 := by
  induction us generalizing members s with
  | nil =>
    rw [walkMembers]
    exact ⟨[], (List.append_nil _).symm, .stay⟩
  | cons u rest ihrest =>
    obtain ⟨hu, hrest⟩ := List.forall_mem_cons.mp hus
    obtain ⟨between, hplace⟩ := exists_memberAt hu
    obtain ⟨p, outer, habove, hp⟩ := hbody.exists_parent hplace above
    have hin : u.Within body := within_of_mem_memberNodes hu
    have hwfu : WellFormed u := hwf.of_within (hin.trans (.of_mem hbody.mem))
    have hvisits (v : Tree) (hv : v.Within u) : Visits v := ih body hbody.mem v (hv.trans hin)
    -- Members that are gone through as any other node.
    have hplain (hmethod : u.kind.declaresMethod = false) (hlist : u.kind ≠ .enumBodyDeclarations)
        (hnotBody : u.kind ≠ .classBody) (s : State) :
        Visit .whole t above s [] (walk .other u s) := by
      refine hbody.visit hplace (hvisits u .self _ hwfu (isMember_eq_false hmethod _) ?_ .other s)
      rw [habove]
      exact passive_of_kind hp hlist hnotBody outer
    have hdetached (hmethod : u.kind.declaresMethod = false)
        (hlist : u.kind ≠ .enumBodyDeclarations) (hnotBody : u.kind ≠ .classBody) :
        Visit .whole t above s [] (walkDetached .other u s) := by
      rw [walkDetached]
      exact .detached (hplain hmethod hlist hnotBody _)
    have hnext {pair : Members × State} (fs : List Field)
        (hfields : pair.1.fields = members.fields ++ fs)
        (hvisit : Visit .whole t above s fs pair.2) :
        ∃ fs, (walkMembers className owner inInterface rest pair.1 pair.2).1.fields =
            members.fields ++ fs ∧
          Visit .whole t above s fs
            (walkMembers className owner inInterface rest pair.1 pair.2).2 := by
      obtain ⟨gs, hgs, hvisit'⟩ := ihrest hrest pair.1 pair.2
      exact ⟨fs ++ gs, by rw [hgs, hfields, List.append_assoc], hvisit.seq hvisit'⟩
    have hnone : members.fields = members.fields ++ [] := (List.append_nil _).symm
    rw [walkMembers]
    dsimp only
    split
    · next hkind =>
      refine hnext (walkFields u inInterface (u.ofKind .variableDeclarator) s).1 rfl
        (hbody.visit hplace (visit_walkFields hwfu hvisits hkind inInterface (fun v hv => ?_) s))
      exact ⟨Tree.mem_of_ofKind hv, beq_iff_eq.mp (List.mem_filter.mp hv).2⟩
    split
    · next hkind =>
      have hconstant := hdetached (by rw [hkind]; rfl) (by rw [hkind]; decide)
        (by rw [hkind]; decide)
      refine hnext ((u.textOf? .name).map (enumField className)).toList rfl ?_
      cases u.textOf? .name with
      | none => exact hconstant
      | some name => exact hconstant.seq (.field fun e he => absurd he (Option.not_mem_none e))
    split
    · next hkind =>
      have hmethod : u.kind.declaresMethod = true := by
        rcases hkind with hk | hk <;> rw [hk] <;> rfl
      refine hnext [] hnone (hbody.visit hplace ?_)
      have hmember : isMember u (between ++ t :: above) = true := by
        rw [isMember, hmethod, hbody.inClass hplace]
        rfl
      rw [habove] at hmember ⊢
      exact visit_walkMethod hwfu (fun b hb => hvisits b (.of_child? hb)) hmethod hp hmember owner
        inInterface s
    split
    · next htype =>
      have hclass := hplain (Kind.declaresMethod_of_declaresType htype)
        (fun hk => by rw [hk] at htype; cases htype) (fun hk => by rw [hk] at htype; cases htype) s
      rw [walk_eq_walkClass .other htype] at hclass
      exact hnext [] hnone hclass
    split
    · next hkind =>
      refine hnext [] hnone (hdetached ?_ ?_ ?_)
      · rcases hkind with hk | hk <;> rw [hk] <;> rfl
      · rcases hkind with hk | hk <;> rw [hk] <;> decide
      · rcases hkind with hk | hk <;> rw [hk] <;> decide
    · exact hnext [] hnone .stay

theorem visit_walkClass {t : Tree} (hwf : WellFormed t)
    (ih : ∀ u ∈ t.children, ∀ v, v.Within u → Visits v) (htype : t.kind.declaresType = true)
    (above : List Tree) (s : State) : Visit .whole t above s [] (walkClass t s) := by
  rw [walkClass]
  split
  · exact .empty _ rfl
  · next body hbody =>
    let scope := classScope (s.qualify (classNameOf t)) (classNameOf t) (memberNodes body)
    let inside : State := { s with scopes := s.scopes.enterClass scope }
    obtain ⟨fs, hfields, hvisit⟩ := visit_walkMembers (.of_child? hwf htype hbody) hwf ih
      (classNameOf t) (s.qualify (classNameOf t)) (t.kind == .interfaceDeclaration) (fun _ => id)
      ⟨[], []⟩ inside
    exact .declared _ _ htype hbody hfields hvisit

/-! ## 6. Whole walks -/

theorem visits_of_within {t : Tree} (ih : ∀ u ∈ t.children, ∀ v, v.Within u → Visits v) :
    Visits t := by
  intro above hwf hnot hpassive parent s
  by_cases htype : t.kind.declaresType = true
  · rw [walk_eq_walkClass parent htype]
    exact visit_walkClass hwf ih htype above s
  have htype : t.kind.declaresType = false := Bool.not_eq_true _ ▸ htype
  by_cases htry : t.kind = .tryStatement
  · exact visit_tryStatement ih hwf hnot hpassive htype htry parent s
  by_cases hcatch : t.kind = .catchClause
  · rw [walk_catchClause parent hcatch, declareCaught_enter hcatch]
    exact .block (visit_walkPart ih hwf hnot hpassive htype (fun _ => rfl)
      (by rw [hcatch]; decide) (.inr htry) _)
  have hplain (helement : t.kind ≠ .enhancedForStatement) :
      s.enter [] = s.enter (openingNames t) :=
    congrArg s.enter (openingNames_eq_nil helement hcatch).symm
  by_cases hlambda : t.kind = .lambda
  · rw [walk_lambda parent hlambda, hplain (by rw [hlambda]; decide)]
    exact .block (visit_walkPart ih hwf hnot hpassive htype (fun _ => rfl)
      (by rw [hlambda]; decide) (.inr htry) _)
  have hopen (hclear : t.kind.opensBlock = false) (hcreation : t.kind ≠ .objectCreation)
      (s : State) : Visit .whole t above s [] (walkAll t.kind t.children s) :=
    visit_walkAll ih hwf hnot hpassive htype
      (fun hblock => absurd (hclear.symm.trans hblock) Bool.false_ne_true) hcreation htry s
  have hinside (hcreation : t.kind ≠ .objectCreation) (s : State) :
      Visit .inBlock t above s [] (walkAll t.kind t.children s) :=
    visit_walkAll ih hwf hnot hpassive htype (fun _ => rfl) hcreation htry s
  have hblock (helement : t.kind ≠ .enhancedForStatement) (hcreation : t.kind ≠ .objectCreation) :
      Visit .whole t above s [] (walkAll t.kind t.children (s.enter [])).leave := by
    rw [hplain helement]
    exact .block (hinside hcreation _)
  rw [walk]
  split
  · next hkind =>
    have hmet : Visit .whole t above s [] (s.addCall (methodCall? s parent t)) := by
      cases hcall : methodCall? s parent t with
      | none => exact .stay
      | some k => exact .call parent hkind hcall
    exact hmet.trans (hopen (by rw [hkind]; rfl) (by rw [hkind]; decide) _)
  · next hkind =>
    have hmet : Visit .whole t above s [] (s.addCall (constructorCall? s parent t)) := by
      cases hcall : constructorCall? s parent t with
      | none => exact .stay
      | some k => exact .creation parent hkind hcall
    have hopens : t.kind.opensBlock = true → Extent.whole = .inBlock := fun hk => by
      rw [hkind] at hk
      cases hk
    rw [walkCreation_eq_foldl]
    refine hmet.trans (.foldl (fun u hu s => ?_) _)
    split
    · next hbody =>
      exact .pass (by rw [hkind]; rfl) hu
        (visit_walkAnonymous (hwf.of_mem hu) (ih u hu) hbody hkind s.owner s)
    · next hbody =>
      exact visit_child ih hwf hnot hpassive htype hopens hu (fun hk => absurd hk hbody)
        (fun hk => absurd hk htry) t.kind s
  · next hkind =>
    exact (hopen (by rw [hkind]; rfl) (by rw [hkind]; decide) s).trans (.locals hkind)
  · next hkind => exact hblock (by rw [hkind]; decide) (by rw [hkind]; decide)
  · next hkind => exact hblock (by rw [hkind]; decide) (by rw [hkind]; decide)
  · next hkind => exact hblock (by rw [hkind]; decide) (by rw [hkind]; decide)
  · next hkind => exact hblock (by rw [hkind]; decide) (by rw [hkind]; decide)
  · next hkind =>
    rw [declareElement_enter hkind]
    exact .block (hinside (by rw [hkind]; decide) _)
  · contradiction
  · contradiction
  · contradiction
  · next hcreation _ _ _ _ _ _ _ _ _ =>
    have hclear : t.kind.opensBlock = false := by
      unfold Kind.opensBlock
      split <;> simp_all
    rw [if_neg (by rw [htype]; decide)]
    exact hopen hclear hcreation s

theorem visits (t : Tree) : Visits t :=
  Tree.induction_within (fun _ => visits_of_within) t

/-- **What every visit of a class keeps holds behind a whole file.** -/
theorem foldl_walkTop_induction {root : Tree} (hwf : WellFormed root) {I : State → Prop}
    (hpackage : ∀ s package, I s → I { s with package })
    (hclass : ∀ t ∈ root.children, ∀ s s', Visit .whole t [root] s [] s' → I s → I s')
    {s : State} (hs : I s) : I (root.children.foldl walkTop s) := by
  refine List.foldlRecOn root.children walkTop hs fun s hs t ht => ?_
  unfold walkTop
  split
  · exact hpackage s _ hs
  split
  · next htype =>
    exact hclass t ht s _
      (visit_walkClass (hwf.of_mem ht) (fun _ _ v _ => visits v) htype [root] s) hs
  · exact hs

end AndroidLint.Java
