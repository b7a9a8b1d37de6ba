/-
  File:      AndroidLint/Proofs/JavaScopes.lean
  Subject:   A walk through a Java file leaves every place as it came to it.

  The walk enters and leaves classes, blocks, methods and `try` bodies. What it may do to its state
  is said once, in `Walked`, and shown of each part of the walk:

  * `Walked`:                   names are added to the innermost block, classes and calls to what
                                was found, and everything else stays;
  * `walksSoundly_of_within`:   a walk through a node does only that, if the walks through the nodes
                                below do;
  * `walk_balanced`:            so do all walks. Names are added only for variables that are
                                declared in no block of the node, and calls are attributed to
                                methods and `try` bodies that hold them.
-/
import AndroidLint.Proofs.JavaPlaces

namespace AndroidLint.Java

open Source Syntax

/-! ## 1. What a walk may change -/

theorem Scopes.classes_declare (s : Scopes) (name type : String) :
    (s.declare name type).classes = s.classes := by
  unfold declare
  split <;> rfl

/-- Blocks of which the innermost has got more names, of each of which `P` holds with its type. -/
inductive Widened (P : String × String → Prop) : List Names → List Names → Prop where
  | outside : Widened P [] []
  | inside {added innermost : Names} {outer : List Names} : (∀ x ∈ added, P x) →
      Widened P (innermost :: outer) ((added ++ innermost) :: outer)

namespace Widened

variable {P P' : String × String → Prop} {ls ls' ls'' : List Names}

theorem refl (P : String × String → Prop) (ls : List Names) : Widened P ls ls := by
  cases ls with
  | nil => exact .outside
  | cons innermost outer =>
    show Widened P (innermost :: outer) (([] ++ innermost) :: outer)
    exact .inside fun _ h => absurd h List.not_mem_nil

theorem trans (h : Widened P ls ls') (h' : Widened P ls' ls'') : Widened P ls ls'' := by
  cases h with
  | outside => exact h'
  | inside hadded =>
    cases h' with
    | inside hadded' =>
      rw [← List.append_assoc]
      exact .inside fun x hx => (List.mem_append.mp hx).elim (hadded' x) (hadded x)

theorem mono (hsub : ∀ x, P x → P' x) (h : Widened P ls ls') : Widened P' ls ls' := by
  cases h with
  | outside => exact .outside
  | inside hadded => exact .inside fun x hx => hsub _ (hadded x hx)

theorem tail_eq (h : Widened P ls ls') : ls'.tail = ls.tail := by
  cases h <;> rfl

theorem declare {name type : String} (s : Scopes) (h : P (name, type)) :
    Widened P s.locals (s.declare name type).locals := by
  unfold Scopes.declare
  split
  · exact .refl P _
  · next innermost outer hlocals =>
    rw [hlocals]
    show Widened P (innermost :: outer) (([(name, type)] ++ innermost) :: outer)
    exact .inside fun x hx => List.mem_singleton.mp hx ▸ h

theorem eq_of_forall_not (hnone : ∀ x, ¬ P x) (h : Widened P ls ls') : ls' = ls := by
  cases h with
  | outside => rfl
  | @inside added innermost outer hadded =>
    have hnil : added = [] := List.eq_nil_iff_forall_not_mem.mpr fun x hx => hnone _ (hadded x hx)
    rw [hnil, List.nil_append]

end Widened

/-- What a walk may do to a state: it adds names to the innermost block, complete classes, and
    calls, and leaves everything else. -/
structure Walked (named : String → Prop) (met : Call → Prop) (s s' : State) : Prop where
  package : s'.package = s.package
  classScopes : s'.scopes.classes = s.scopes.classes
  locals : Widened (fun x => named x.1) s.scopes.locals s'.scopes.locals
  caller : s'.caller = s.caller
  caught : s'.caught = s.caught
  classes : s.classes <+: s'.classes
  calls : ∃ new, s'.calls = s.calls ++ new ∧ ∀ k ∈ new, met k

namespace Walked

variable {named named' : String → Prop} {met met' : Call → Prop} {s s' s'' : State}

theorem refl (named : String → Prop) (met : Call → Prop) (s : State) : Walked named met s s where
  package := rfl
  classScopes := rfl
  locals := .refl _ _
  caller := rfl
  caught := rfl
  classes := List.prefix_rfl
  calls := ⟨[], (List.append_nil _).symm, fun _ h => absurd h List.not_mem_nil⟩

theorem trans (h : Walked named met s s') (h' : Walked named met s' s'') :
    Walked named met s s'' where
  package := h'.package.trans h.package
  classScopes := h'.classScopes.trans h.classScopes
  locals := h.locals.trans h'.locals
  caller := h'.caller.trans h.caller
  caught := h'.caught.trans h.caught
  classes := h.classes.trans h'.classes
  calls := by
    obtain ⟨new, hnew, hmet⟩ := h.calls
    obtain ⟨new', hnew', hmet'⟩ := h'.calls
    refine ⟨new ++ new', by rw [hnew', hnew, List.append_assoc], fun k hk => ?_⟩
    exact (List.mem_append.mp hk).elim (hmet k) (hmet' k)

theorem mono (hnamed : ∀ x, named x → named' x) (hmet : ∀ k, met k → met' k)
    (h : Walked named met s s') : Walked named' met' s s' :=
  { h with
    locals := h.locals.mono fun x => hnamed x.1
    calls := by
      obtain ⟨new, hnew, hall⟩ := h.calls
      exact ⟨new, hnew, fun k hk => hmet k (hall k hk)⟩ }

theorem surroundings (h : Walked named met s s') : s'.surroundings = s.surroundings := by
  simp only [State.surroundings, State.owner, h.classScopes, h.caller, h.caught]

/-- Where no name can be added, the same names are visible afterwards. -/
theorem scopes_eq (h : Walked named met s s') (hnone : ∀ x, ¬ named x) : s'.scopes = s.scopes := by
  show Scopes.mk s'.scopes.classes s'.scopes.locals = s.scopes
  rw [h.classScopes, h.locals.eq_of_forall_not fun x => hnone x.1]

/-- A block takes the names that are declared in it with it. -/
theorem scopes_leave {names : Names} (h : Walked named met (s.enter names) s') :
    s'.leave.scopes = s.scopes := by
  have hlocals : s'.scopes.locals.tail = s.scopes.locals := h.locals.tail_eq
  have hclasses : s'.scopes.classes = s.scopes.classes := h.classScopes
  show Scopes.mk s'.scopes.classes s'.scopes.locals.tail = s.scopes
  rw [hlocals, hclasses]

theorem leave {names : Names} (h : Walked named met (s.enter names) s') :
    Walked named' met s s'.leave where
  package := h.package
  classScopes := h.classScopes
  locals := by rw [h.scopes_leave]; exact .refl _ _
  caller := h.caller
  caught := h.caught
  classes := h.classes
  calls := h.calls

theorem addCall {k : Option Call} (h : ∀ c, k = some c → met c) :
    Walked named met s (s.addCall k) := by
  cases k with
  | none => exact .refl _ _ _
  | some c =>
    exact { Walked.refl named met s with
      calls := ⟨[c], rfl, fun k hk => List.mem_singleton.mp hk ▸ h c rfl⟩ }

theorem declare {name : String} (type : String) (h : named name) :
    Walked named met s (s.declare name type) :=
  { Walked.refl named met s with
    classScopes := s.scopes.classes_declare name type
    locals := .declare s.scopes h }

/-- Every step of a loop starts in the surroundings in which the loop does. -/
theorem foldl {α : Type} {f : State → α → State} {xs : List α} {a : Surroundings}
    (h : ∀ x ∈ xs, ∀ s, s.surroundings = a → Walked named met s (f s x))
    (hs : s.surroundings = a) : Walked named met s (xs.foldl f s) := by
  induction xs generalizing s with
  | nil => exact .refl _ _ s
  | cons x xs ih =>
    obtain ⟨hx, hxs⟩ := List.forall_mem_cons.mp h
    have hfirst := hx s hs
    exact hfirst.trans (ih hxs (hfirst.surroundings.trans hs))

/-- What is caught and who calls is put back after a part of the walk that sets them. -/
theorem putBack {caller : Option Caller} {caught : List String}
    (h : Walked named met { s with caller, caught } s') :
    Walked named met s { s' with caller := s.caller, caught := s.caught } :=
  { h with caller := rfl, caught := rfl }

/-- A class is complete when its members are. -/
theorem leaveClass {c : ClassScope} (k : ClassDecl)
    (h : Walked named met { s with scopes := s.scopes.enterClass c } s') :
    Walked named met s
      { s' with scopes := s'.scopes.leaveClass, classes := s'.classes ++ [k] } where
  package := h.package
  classScopes := congrArg List.tail h.classScopes
  locals := h.locals
  caller := h.caller
  caught := h.caught
  classes := h.classes.trans (List.prefix_append _ _)
  calls := h.calls

end Walked

theorem declareVariables_walked {named : String → Prop} {met : Call → Prop} {t : Tree}
    (h : ∀ v ∈ t.ofKind .variableDeclarator, ∀ name, v.textOf? .name = some name → named name)
    (s : State) : Walked named met s (declareVariables t s) := by
  refine Walked.foldl (fun v hv s _ => ?_) rfl
  split
  · next name hname => exact .declare _ (h v hv name hname)
  · exact .refl _ _ s

theorem declareCaught_walked (met : Call → Prop) (t : Tree) (s : State) :
    Walked (fun _ => True) met s (declareCaught t s) :=
  Walked.foldl (fun _ _ _ _ => .declare _ trivial) rfl

theorem declareElement_walked (met : Call → Prop) (t : Tree) (s : State) :
    Walked (fun _ => True) met s (declareElement t s) := by
  unfold declareElement
  split
  · exact .declare _ trivial
  · exact .refl _ _ s

/-! ## 2. Walks through several nodes -/

/-- Going through a node that stands in the surroundings `a` does no more than it may. -/
def Sound (named : String → Prop) (met : Call → Prop) (a : Surroundings) (t : Tree) : Prop :=
  ∀ parent s, s.surroundings = a → Walked named met s (walk parent t s)

section

variable {named : String → Prop} {met : Call → Prop} {a : Surroundings}

theorem Sound.mono {named' : String → Prop} {met' : Call → Prop} {t : Tree}
    (h : Sound named met a t) (hnamed : ∀ x, named x → named' x) (hmet : ∀ k, met k → met' k) :
    Sound named' met' a t :=
  fun parent s hs => (h parent s hs).mono hnamed hmet

theorem walkAll_eq_foldl (parent : Kind) (ts : List Tree) (s : State) :
    walkAll parent ts s = ts.foldl (fun s t => walk parent t s) s := by
  induction ts generalizing s with
  | nil => rw [walkAll, List.foldl_nil]
  | cons t rest ih => rw [walkAll, ih, List.foldl_cons]

theorem walkClauses_eq_foldl (parent : Kind) (ts : List Tree) (s : State) :
    walkClauses parent ts s = ts.foldl (fun s t =>
      if t.kind = .catchClause ∨ t.kind = .finallyClause then walk parent t s else s) s := by
  induction ts generalizing s with
  | nil => rw [walkClauses, List.foldl_nil]
  | cons t rest ih => rw [walkClauses, ih, List.foldl_cons]

theorem walkAnonymous_eq_foldl (owner : String) (parent : Kind) (ts : List Tree) (s : State) :
    walkAnonymous owner parent ts s = ts.foldl (fun s t =>
      if t.kind = .methodDeclaration then walkMethod t owner false s else walk parent t s) s := by
  induction ts generalizing s with
  | nil => rw [walkAnonymous, List.foldl_nil]
  | cons t rest ih => rw [walkAnonymous, ih, List.foldl_cons]

theorem walkCreation_eq_foldl (parent : Kind) (ts : List Tree) (s : State) :
    walkCreation parent ts s = ts.foldl (fun s t =>
      if t.kind = .classBody then walkAnonymous s.owner t.kind t.children s
      else walk parent t s) s := by
  induction ts generalizing s with
  | nil => rw [walkCreation, List.foldl_nil]
  | cons t rest ih => rw [walkCreation, ih, List.foldl_cons]

theorem walkAll_walked {ts : List Tree} (h : ∀ t ∈ ts, Sound named met a t) (parent : Kind)
    {s : State} (hs : s.surroundings = a) : Walked named met s (walkAll parent ts s) := by
  rw [walkAll_eq_foldl]
  exact .foldl (fun t ht => h t ht parent) hs

theorem walkClauses_walked {ts : List Tree}
    (h : ∀ t ∈ ts, t.kind = .catchClause ∨ t.kind = .finallyClause → Sound named met a t)
    (parent : Kind) {s : State} (hs : s.surroundings = a) :
    Walked named met s (walkClauses parent ts s) := by
  rw [walkClauses_eq_foldl]
  refine .foldl (fun t ht s hs => ?_) hs
  split
  · next hkind => exact h t ht hkind parent s hs
  · exact .refl _ _ s

theorem walkAnonymous_walked {ts : List Tree} (h : ∀ t ∈ ts, Sound named met a t)
    (hmethods : ∀ t ∈ ts, t.kind = .methodDeclaration → ∀ s, s.surroundings = a →
      Walked named met s (walkMethod t a.owner false s))
    (parent : Kind) {s : State} (hs : s.surroundings = a) :
    Walked named met s (walkAnonymous a.owner parent ts s) := by
  rw [walkAnonymous_eq_foldl]
  refine .foldl (fun t ht s hs => ?_) hs
  split
  · next hkind => exact hmethods t ht hkind s hs
  · exact h t ht parent s hs

theorem walkCreation_walked {ts : List Tree} (h : ∀ t ∈ ts, Sound named met a t)
    (hbodies : ∀ t ∈ ts, t.kind = .classBody → ∀ s, s.surroundings = a →
      Walked named met s (walkAnonymous s.owner t.kind t.children s))
    (parent : Kind) {s : State} (hs : s.surroundings = a) :
    Walked named met s (walkCreation parent ts s) := by
  rw [walkCreation_eq_foldl]
  refine .foldl (fun t ht s hs => ?_) hs
  split
  · next hkind => exact hbodies t ht hkind s hs
  · exact h t ht parent s hs

theorem walkFields_walked {ts : List Tree} (declaration : Tree) (inInterface : Bool)
    (h : ∀ t ∈ ts, ∀ value, t.child? .value = some value → ∀ s, s.surroundings = a →
      Walked named met s (walkDetached t.kind value s))
    {s : State} (hs : s.surroundings = a) :
    Walked named met s (walkFields declaration inInterface ts s).2 := by
  induction ts generalizing s with
  | nil => rw [walkFields]; exact .refl _ _ s
  | cons t rest ih =>
    obtain ⟨ht, hrest⟩ := List.forall_mem_cons.mp h
    rw [walkFields]
    split
    · exact ih hrest hs
    · split
      · exact ih hrest hs
      · next value hvalue =>
        have hfirst := ht value hvalue s hs
        exact hfirst.trans (ih hrest (hfirst.surroundings.trans hs))

end

/-! ## 3. Walks through declarations -/

/-- Going through a node exposes and meets only what stands in it. -/
def WalksSoundly (t : Tree) : Prop := ∀ a, Sound (Exposed t) (Attributed t a) a t

theorem walkDetached_walked {t : Tree} (h : WalksSoundly t) (parent : Kind) (s : State) :
    Walked (Exposed t) (Attributed t { s.surroundings with caller := none }) s
      (walkDetached parent t s) := by
  have hwalk := h _ parent { s with caller := none } rfl
  rw [walkDetached]
  exact { hwalk with caller := rfl }

theorem walkMethod_walked {t : Tree} (hkind : t.kind.declaresMethod = true)
    (h : ∀ body, t.child? .body = some body → WalksSoundly body) (inInterface : Bool) (s : State) :
    Walked (fun _ => False) (Attributed t s.surroundings) s
      (walkMethod t s.owner inInterface s) := by
  rw [walkMethod]
  split
  · exact .refl _ _ s
  · next body hbody =>
    let r : Caller :=
      { owner := s.owner, method := (methodOf s t s.owner inInterface).name
        annotations := (methodOf s t s.owner inInterface).annotations
        checksPermission := checksPermission body }
    have hr : IsCaller t t body s.owner r :=
      ⟨.self, hkind, hbody, .inl rfl, rfl, ⟨s.scopes, rfl⟩, rfl⟩
    let inside : State := { s with caller := some r, caught := [] }
    let names := parameterNames (methodOf s t s.owner inInterface).parameters
    have hwalk := h body hbody _ t.kind (inside.enter names) rfl
    have hmet := hwalk.mono (fun _ => id) fun k (hk : Attributed body ⟨s.owner, some r, []⟩ k) =>
      Attributed.methodBody (a := s.surroundings) hr hk
    exact hmet.leave.putBack

/-- A class without a name stands in the surroundings of its creation. -/
theorem walkClassBody_walked {t : Tree} (hclass : t.kind = .classBody)
    (h : ∀ u, u.Within t → WalksSoundly u) (parent : Kind) (s : State) :
    Walked (Exposed t) (Attributed t s.surroundings) s
      (walkAnonymous s.owner parent t.children s) := by
  refine walkAnonymous_walked (fun u hu => ?_) (fun u hu hmethod s' hs => ?_) parent rfl
  · have hexposed d (hd : Exposes u d) : Exposes t d := .child (by rw [hclass]; rfl) hu hd
    exact (h u (.of_mem hu) _).mono (fun _ => Exposed.imp hexposed) fun _ => .lift (.of_mem hu)
  · have hbody body (hb : u.child? .body = some body) : WalksSoundly body :=
      h body ((Tree.Within.of_child? hb).trans (.of_mem hu))
    rw [← hs]
    exact (walkMethod_walked (by rw [hmethod]; rfl) hbody false s').mono (fun _ => False.elim)
      fun _ => .lift (.of_mem hu)

/-- The values of a field are code outside all methods. -/
theorem walkFieldDeclaration_walked {t : Tree} (hkind : t.kind = .fieldDeclaration)
    (h : ∀ u, u.Within t → WalksSoundly u) (inInterface : Bool) (s : State) :
    Walked (Exposed t) (Attributed t { s.surroundings with caller := none }) s
      (walkFields t inInterface (t.ofKind .variableDeclarator) s).2 := by
  refine walkFields_walked t inInterface (fun v hv value hvalue s' hs => ?_) rfl
  have hchild : v ∈ t.children := Tree.mem_of_ofKind hv
  have hvkind : v.kind = .variableDeclarator := beq_iff_eq.mp (List.mem_filter.mp hv).2
  have hin : value.Within t := (Tree.Within.of_child? hvalue).trans (.of_mem hchild)
  have hexposed d (hd : Exposes value d) : Exposes t d :=
    .child (by rw [hkind]; rfl) hchild (.child (by rw [hvkind]; rfl) (Tree.mem_of_child? hvalue) hd)
  rw [← hs]
  exact (walkDetached_walked (h value hin) v.kind s').mono (fun _ => Exposed.imp hexposed)
    fun _ => Attributed.lift hin

/-- A class in a class is gone through as anywhere else. -/
theorem walk_eq_walkClass (parent : Kind) {t : Tree} (h : t.kind.declaresType = true) (s : State) :
    walk parent t s = walkClass t s := by
  rw [walk]
  split <;> simp_all [Kind.declaresType]

theorem walkMembers_walked {named : String → Prop} {met : Call → Prop} {a : Surroundings}
    (className : String) (inInterface : Bool) {ts : List Tree}
    (h : ∀ t ∈ ts, ∀ u, u.Within t → WalksSoundly u)
    (hnamed : ∀ t ∈ ts, ∀ x, Exposed t x → named x)
    (hmet : ∀ t ∈ ts, ∀ k, Attributed t a k → met k)
    (hdetached : ∀ t ∈ ts, t.kind.declaresMethod = false →
      ∀ k, Attributed t { a with caller := none } k → met k)
    (members : Members) {s : State} (hs : s.surroundings = a) :
    Walked named met s (walkMembers className a.owner inInterface ts members s).2 := by
  induction ts generalizing members s with
  | nil => rw [walkMembers]; exact .refl _ _ s
  | cons t rest ih =>
    subst hs
    have ht : t ∈ t :: rest := List.mem_cons_self
    have hrest {pair : Members × State} (hfirst : Walked named met s pair.2) :
        Walked named met s
          (walkMembers className s.surroundings.owner inInterface rest pair.1 pair.2).2 :=
      hfirst.trans (ih (fun u hu => h u (.tail t hu)) (fun u hu => hnamed u (.tail t hu))
        (fun u hu => hmet u (.tail t hu)) (fun u hu => hdetached u (.tail t hu)) pair.1
        hfirst.surroundings)
    have hinitializer (hkind : t.kind.declaresMethod = false) :
        Walked named met s (walkDetached .other t s) :=
      (walkDetached_walked (h t ht t .self) .other s).mono (hnamed t ht) (hdetached t ht hkind)
    rw [walkMembers]
    dsimp only
    refine hrest ?_
    split
    · next hkind =>
      exact (walkFieldDeclaration_walked hkind (h t ht) inInterface s).mono (hnamed t ht)
        (hdetached t ht (by rw [hkind]; rfl))
    split
    · next hkind => exact hinitializer (by rw [hkind]; rfl)
    split
    · next hkind =>
      have hmethod : t.kind.declaresMethod = true := by
        rcases hkind with hk | hk <;> rw [hk] <;> rfl
      have hbody body (hb : t.child? .body = some body) : WalksSoundly body :=
        h t ht body (.of_child? hb)
      exact (walkMethod_walked hmethod hbody inInterface s).mono (fun _ => False.elim) (hmet t ht)
    split
    · next htype =>
      rw [← walk_eq_walkClass .other htype s]
      exact (h t ht t .self _ .other s rfl).mono (hnamed t ht) (hmet t ht)
    split
    · next hkind => exact hinitializer (by rcases hkind with hk | hk <;> rw [hk] <;> rfl)
    · exact .refl _ _ s

theorem within_of_mem_memberNodes {body u : Tree} (h : u ∈ memberNodes body) : u.Within body := by
  obtain ⟨c, hc, hu⟩ := List.mem_flatMap.mp h
  split at hu
  · exact .child hc (.of_mem hu)
  · cases List.mem_singleton.mp hu
    exact .of_mem hc

theorem walkClass_walked {t : Tree} (htype : t.kind.declaresType = true)
    (ih : ∀ u ∈ t.children, ∀ v, v.Within u → WalksSoundly v) (s : State) :
    Walked (Exposed t) (Attributed t s.surroundings) s (walkClass t s) := by
  rw [walkClass]
  split
  · exact { Walked.refl _ _ s with classes := List.prefix_append _ _ }
  · next body hbody =>
    have hin {u : Tree} (hu : u ∈ memberNodes body) : u.Within t :=
      (within_of_mem_memberNodes hu).trans (.of_child? hbody)
    let scope := classScope (s.qualify (classNameOf t)) (classNameOf t) (memberNodes body)
    let inside : State := { s with scopes := s.scopes.enterClass scope }
    have hmembers : Walked (Exposed t) (Attributed t s.surroundings) inside
        (walkMembers (classNameOf t) inside.surroundings.owner (t.kind == .interfaceDeclaration)
          (memberNodes body) ⟨[], []⟩ inside).2 := by
      refine walkMembers_walked _ _ (fun u hu v hv => ?_) (fun u hu x => ?_) (fun u hu k hk => ?_)
        (fun u hu hkind k hk => ?_) _ rfl
      · exact ih body (Tree.mem_of_child? hbody) v (hv.trans (within_of_mem_memberNodes hu))
      · exact Exposed.imp fun d hd => .member htype hbody hu hd
      · exact .member s htype (hin hu) hk
      · exact .initializer s htype hbody hu (hin hu) hkind hk
    exact hmembers.leaveClass _

/-! ## 4. Walks through statements and expressions -/

/-- Go through the child that plays a part, if there is one. -/
def walkPart (role : Role) (t : Tree) (s : State) : State :=
  match t.child? role with
  | some u => walk t.kind u s
  | none => s

/-- Go through the body of a `try`, where what its clauses catch is caught too. -/
def walkGuarded (t : Tree) (s : State) : State :=
  match t.child? .body with
  | some body =>
    let after := walk t.kind body { s with caught := s.caught ++ caughtBy t }
    { after with caught := after.caught.take s.caught.length }
  | none => s

theorem walk_lambda (parent : Kind) {t : Tree} (h : t.kind = .lambda) (s : State) :
    walk parent t s = (walkPart .body t (s.enter [])).leave := by
  rw [walk, walkPart]
  simp only [h]
  cases t.child? .body <;> rfl

theorem walk_catchClause (parent : Kind) {t : Tree} (h : t.kind = .catchClause) (s : State) :
    walk parent t s = (walkPart .body t (declareCaught t (s.enter []))).leave := by
  rw [walk, walkPart]
  simp only [h]
  cases t.child? .body <;> rfl

theorem walk_tryStatement (parent : Kind) {t : Tree} (h : t.kind = .tryStatement) (s : State) :
    walk parent t s = walkClauses t.kind t.children
      (walkGuarded t (walkPart .resources t (s.enter []))).leave := by
  rw [walk, walkPart, walkGuarded]
  simp only [h]
  cases t.child? .resources <;> cases t.child? .body <;> rfl

theorem standsHere_of_methodCall? {s : State} {parent : Kind} {t : Tree} {k : Call}
    (h : methodCall? s parent t = some k) :
    k.range = t.range ∧ k.caller = s.caller ∧ k.caught = s.caught := by
  obtain ⟨name, _, rfl⟩ := Option.map_eq_some_iff.mp h
  exact ⟨rfl, rfl, rfl⟩

theorem standsHere_of_constructorCall? {s : State} {parent : Kind} {t : Tree} {k : Call}
    (h : constructorCall? s parent t = some k) :
    k.range = t.range ∧ k.caller = s.caller ∧ k.caught = s.caught := by
  obtain ⟨type, _, rfl⟩ := Option.map_eq_some_iff.mp h
  exact ⟨rfl, rfl, rfl⟩

/-- A call is met at its own node, in the surroundings of the node. -/
theorem addCall_walked {named : String → Prop} {s : State} {t : Tree} {k : Option Call}
    (hkind : t.kind = .methodInvocation ∨ t.kind = .objectCreation)
    (h : ∀ c, k = some c → c.range = t.range ∧ c.caller = s.caller ∧ c.caught = s.caught) :
    Walked named (Attributed t s.surroundings) s (s.addCall k) := by
  refine .addCall fun c hc => ?_
  obtain ⟨hrange, hcaller, hcaught⟩ := h c hc
  exact .outside t .self ⟨hkind, hrange⟩ hcaller
    ⟨[], hcaught.trans (List.append_nil _).symm, fun _ he => absurd he List.not_mem_nil⟩

section

variable {t : Tree} (ih : ∀ u ∈ t.children, ∀ v, v.Within u → WalksSoundly v)

include ih

/-- In a block of its own a child may declare what it likes. -/
theorem sound_in_block {u : Tree} (hu : u ∈ t.children) (a : Surroundings) :
    Sound (fun _ => True) (Attributed t a) a u :=
  (ih u hu u .self a).mono (fun _ _ => trivial) fun _ => .lift (.of_mem hu)

theorem sound_of_isTransparent (ht : t.kind.isTransparent = true) {u : Tree} (hu : u ∈ t.children)
    (a : Surroundings) : Sound (Exposed t) (Attributed t a) a u :=
  (ih u hu u .self a).mono (fun _ => Exposed.imp fun _ => .child ht hu) fun _ => .lift (.of_mem hu)

theorem walkPart_walked (role : Role) (s : State) :
    Walked (fun _ => True) (Attributed t s.surroundings) s (walkPart role t s) := by
  unfold walkPart
  split
  · next u hu => exact sound_in_block ih (Tree.mem_of_child? hu) _ _ s rfl
  · exact .refl _ _ s

/-- Behind the body of a `try` as much is caught as before it. -/
theorem walkGuarded_walked (hkind : t.kind = .tryStatement) (s : State) :
    Walked (fun _ => True) (Attributed t s.surroundings) s (walkGuarded t s) := by
  unfold walkGuarded
  split
  · next body hbody =>
    let inside : State := { s with caught := s.caught ++ caughtBy t }
    have hwalk : Walked (fun _ => True) (Attributed t s.surroundings) inside
        (walk t.kind body inside) :=
      (ih body (Tree.mem_of_child? hbody) body .self _ t.kind inside rfl).mono
        (fun _ _ => trivial) fun _ => Attributed.tryBody hkind hbody
    have hcaught : (walk t.kind body inside).caught.take s.caught.length = s.caught := by
      rw [hwalk.caught]
      exact List.take_left
    exact { hwalk with caught := hcaught }
  · exact .refl _ _ s

/-- The clauses of a `try` stand outside its block. -/
theorem walkTry_walked (hkind : t.kind = .tryStatement) (parent : Kind) (s : State) :
    Walked (Exposed t) (Attributed t s.surroundings) s (walk parent t s) := by
  have hresources := walkPart_walked ih .resources (s.enter [])
  have hguarded := walkGuarded_walked ih hkind (walkPart .resources t (s.enter []))
  rw [hresources.surroundings] at hguarded
  have hleft : Walked (Exposed t) (Attributed t s.surroundings) s
      (walkGuarded t (walkPart .resources t (s.enter []))).leave :=
    (hresources.trans hguarded).leave
  rw [walk_tryStatement parent hkind]
  refine hleft.trans (walkClauses_walked (fun u hu hclause => ?_) _ hleft.surroundings)
  refine (ih u hu u .self _).mono (fun x hx => ?_) fun _ => .lift (.of_mem hu)
  rcases hclause with hcatch | hfinally
  · exact absurd hx (not_exposed_of_opensBlock (by rw [hcatch]; rfl) x)
  · exact hx.imp fun _ => .clause hkind hfinally hu

end

/-- **Going through a node does no more than it may, if that holds of all nodes below.** -/
theorem walksSoundly_of_within {t : Tree}
    (ih : ∀ u ∈ t.children, ∀ v, v.Within u → WalksSoundly v) : WalksSoundly t := by
  intro a parent s hs
  subst hs
  have hblock {s' : State}
      (h : Walked (fun _ => True) (Attributed t s.surroundings) (s.enter []) s') :
      Walked (Exposed t) (Attributed t s.surroundings) s (walkAll t.kind t.children s').leave :=
    (h.trans (walkAll_walked (fun _ hu => sound_in_block ih hu _) _ h.surroundings)).leave
  have hopen (ht : t.kind.isTransparent = true) {s' : State}
      (h : Walked (Exposed t) (Attributed t s.surroundings) s s') :
      Walked (Exposed t) (Attributed t s.surroundings) s (walkAll t.kind t.children s') :=
    h.trans (walkAll_walked (fun _ hu => sound_of_isTransparent ih ht hu _) _ h.surroundings)
  by_cases htry : t.kind = .tryStatement
  · exact walkTry_walked ih htry parent s
  by_cases hcatch : t.kind = .catchClause
  · have hdeclared := declareCaught_walked (Attributed t s.surroundings) t (s.enter [])
    have hbody := walkPart_walked ih .body (declareCaught t (s.enter []))
    rw [hdeclared.surroundings] at hbody
    rw [walk_catchClause parent hcatch]
    exact (hdeclared.trans hbody).leave
  by_cases hlambda : t.kind = .lambda
  · rw [walk_lambda parent hlambda]
    exact (walkPart_walked ih .body (s.enter [])).leave
  rw [walk]
  split
  · next hkind =>
    exact hopen (by rw [hkind]; rfl)
      (addCall_walked (.inl hkind) fun _ => standsHere_of_methodCall?)
  · next hkind =>
    have hcall : Walked (Exposed t) (Attributed t s.surroundings) s
        (s.addCall (constructorCall? s parent t)) :=
      addCall_walked (.inr hkind) fun _ => standsHere_of_constructorCall?
    refine hcall.trans (walkCreation_walked (fun u hu => ?_) (fun u hu hclass s' hs => ?_) _
      hcall.surroundings)
    · exact sound_of_isTransparent ih (by rw [hkind]; rfl) hu _
    · have hexposed d (hd : Exposes u d) : Exposes t d := .child (by rw [hkind]; rfl) hu hd
      rw [← hs]
      exact (walkClassBody_walked hclass (ih u hu) u.kind s').mono (fun _ => Exposed.imp hexposed)
        fun _ => .lift (.of_mem hu)
  · next hkind =>
    refine (hopen (by rw [hkind]; rfl) (.refl _ _ s)).trans (declareVariables_walked ?_ _)
    exact fun v hv name hname => ⟨t, .self hkind, v, hv, hname⟩
  -- Blocks, bodies of constructors, `switch` blocks and `for` statements.
  · exact hblock (.refl _ _ _)
  · exact hblock (.refl _ _ _)
  · exact hblock (.refl _ _ _)
  · exact hblock (.refl _ _ _)
  · exact hblock (declareElement_walked _ t (s.enter []))
  · contradiction
  · contradiction
  · contradiction
  · split
    · next htype => exact walkClass_walked htype ih s
    · next htype =>
      have hclear : t.kind.isTransparent = true := by
        unfold Kind.isTransparent Kind.opensBlock
        split <;> simp_all
      exact hopen hclear (.refl _ _ s)

theorem walksSoundly (t : Tree) : WalksSoundly t :=
  Tree.induction_within (fun _ => walksSoundly_of_within) t

/-! ## 5. Whole files -/

/-- Outside all classes. -/
def Surroundings.outermost : Surroundings := ⟨"", none, []⟩

/-- Between the declarations of a file the walk is outside all classes, and has met calls of the
    file alone. -/
structure BetweenDeclarations (root : Tree) (s : State) : Prop where
  outside : s.surroundings = .outermost
  calls : ∀ k ∈ s.calls, Attributed root .outermost k

theorem BetweenDeclarations.walkTop {root t : Tree} {s : State} (h : BetweenDeclarations root s)
    (ht : t ∈ root.children) : BetweenDeclarations root (walkTop s t) := by
  unfold Java.walkTop
  split
  · exact ⟨h.outside, h.calls⟩
  split
  · next htype =>
    have hwalk := walkClass_walked htype (fun _ _ v _ => walksSoundly v) s
    obtain ⟨new, hcalls, hnew⟩ := hwalk.calls
    refine ⟨hwalk.surroundings.trans h.outside, fun k hk => ?_⟩
    rw [hcalls] at hk
    rcases List.mem_append.mp hk with hk | hk
    · exact h.calls k hk
    · exact h.outside ▸ (hnew k hk).lift (.of_mem ht)
  · exact h

theorem attributed_of_mem_calls (path : Path) (root : Tree) :
    ∀ k ∈ (unitOf path root).calls, Attributed root .outermost k := by
  have hstart : BetweenDeclarations root State.initial :=
    ⟨rfl, fun _ h => absurd h List.not_mem_nil⟩
  have hend : BetweenDeclarations root (root.children.foldl walkTop State.initial) :=
    List.foldlRecOn _ _ hstart fun _ h _ ht => h.walkTop ht
  exact hend.calls

/-- **Every walk leaves the classes around, the caller and the exceptions caught as they were, and
    all blocks but the innermost, to which it adds the names that are declared in no block of the
    node.** A block or a method leaves all blocks as they were. No call is attributed to a method or
    a `try` body that does not hold it, in a node or in a whole file. -/
theorem walk_balanced :
    (∀ (t : Tree) (s : State),
      (∀ parent, Walked (Exposed t) (Attributed t s.surroundings) s (walk parent t s)) ∧
      (∀ parent, Walked (Exposed t) (Attributed t { s.surroundings with caller := none }) s
        (walkDetached parent t s)) ∧
      (t.kind.declaresType = true →
        Walked (Exposed t) (Attributed t s.surroundings) s (walkClass t s)) ∧
      (t.kind.declaresMethod = true → ∀ inInterface,
        Walked (fun _ => False) (Attributed t s.surroundings) s
          (walkMethod t s.owner inInterface s)) ∧
      (t.kind = .classBody → ∀ parent,
        Walked (Exposed t) (Attributed t s.surroundings) s
          (walkAnonymous s.owner parent t.children s)) ∧
      (t.kind.opensBlock = true → ∀ parent, (walk parent t s).scopes = s.scopes) ∧
      (t.kind.declaresMethod = true → ∀ inInterface,
        (walkMethod t s.owner inInterface s).scopes = s.scopes)) ∧
    ∀ path contents, ∀ k ∈ (compilationUnit path contents).calls,
      Attributed (parse contents) .outermost k := by
  refine ⟨fun t s => ⟨fun parent => ?_, fun parent => ?_, fun htype => ?_,
    fun hmethod inInterface => ?_, fun hclass parent => ?_, fun hblock parent => ?_,
    fun hmethod inInterface => ?_⟩, fun path contents => attributed_of_mem_calls path (parse contents)⟩
  · exact walksSoundly t _ parent s rfl
  · exact walkDetached_walked (walksSoundly t) parent s
  · exact walkClass_walked htype (fun _ _ v _ => walksSoundly v) s
  · exact walkMethod_walked hmethod (fun body _ => walksSoundly body) inInterface s
  · exact walkClassBody_walked hclass (fun u _ => walksSoundly u) parent s
  · exact (walksSoundly t _ parent s rfl).scopes_eq (not_exposed_of_opensBlock hblock)
  · exact (walkMethod_walked hmethod (fun body _ => walksSoundly body) inInterface s).scopes_eq
      fun _ => id

end AndroidLint.Java
