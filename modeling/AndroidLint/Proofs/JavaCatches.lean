/-
  File:      AndroidLint/Proofs/JavaCatches.lean
  Subject:   The exceptions that are caught around a call.

  The walk adds what a `try` catches when it goes into its body, and forgets everything when it
  enters a method. Seen from a call these are the `try` statements between it and the method around
  it, so far as the call stands in their bodies.

  * `caughtAround`:          what the `try` statements around a node catch;
  * `Visit.kept`:            every visit leaves what is caught as it is, and meets calls for which
                             just that is caught;
  * `caught_of_mem_calls`:   so it is for every call of a well-formed tree. Where no `try` holds the
                             call in its resources and the method around it is a member of a class,
                             these are the exceptions that the language says are caught;
  * `caught_eq_caughtByBodies`:   the tree of a file is one.
-/
import AndroidLint.Proofs.JavaFiles
import AndroidLint.Proofs.JavaVisits

namespace AndroidLint.Java

open Source Syntax

/-! ## 1. What is caught around a node -/

/-- The exceptions that the `try` statements around a node catch, the outermost first: those that
    hold it in one of the `parts`, up to the innermost node that is an `end` of the search. -/
def caughtAround (parts : List Role) (isEnd : Tree → List Tree → Bool) :
    Tree → List Tree → List String
  | _, [] => []
  | n, t :: above =>
    if isEnd t above then []
    else caughtAround parts isEnd t above ++
      if t.kind = .tryStatement ∧ n.role ∈ parts then caughtBy t else []

/-- What the walk takes as caught: what is caught by the `try` statements with the node in their
    body, in the innermost method that is a member of a class. -/
def caughtByBodies : Tree → List Tree → List String := caughtAround [.body] isMember

/-- What the language says is caught: resources belong to a `try` too, and every method counts. -/
def caughtByRule : Tree → List Tree → List String :=
  caughtAround [.body, .resources] fun t _ => t.kind.declaresMethod

/-- No `try` around a node, in the innermost method, holds it in its resources, and this method is a
    member of a class. -/
def Ordinary : Tree → List Tree → Prop
  | _, [] => True
  | n, t :: above => (t.kind = .tryStatement → n.role ≠ .resources) ∧
      if t.kind.declaresMethod then isMember t above = true else Ordinary t above

theorem caughtByBodies_eq_caughtByRule {n : Tree} {above : List Tree} (h : Ordinary n above) :
    caughtByBodies n above = caughtByRule n above := by
  induction above generalizing n with
  | nil => rfl
  | cons t above ih =>
    obtain ⟨hresources, hrest⟩ := h
    rw [caughtByBodies, caughtByRule, caughtAround, caughtAround]
    split at hrest
    · next hmethod => rw [if_pos hrest, if_pos hmethod]
    · next hmethod =>
      have hnot := isMember_eq_false (Bool.not_eq_true _ ▸ hmethod) above
      have hparts : (t.kind = .tryStatement ∧ n.role ∈ [Role.body]) ↔
          (t.kind = .tryStatement ∧ n.role ∈ [Role.body, .resources]) := by
        simp only [List.mem_cons, List.not_mem_nil, or_false]
        exact and_congr_right fun htry => (or_iff_left (hresources htry)).symm
      have hbefore : caughtAround [.body] isMember t above = caughtByRule t above := ih hrest
      rw [hnot, if_neg Bool.false_ne_true, if_neg hmethod, hbefore]
      simp only [hparts]
      rfl

section

variable {t u : Tree} {above : List Tree}

/-- What is caught does not change on the way to a part that is not guarded. -/
theorem caughtByBodies_child (hnot : isMember t above = false)
    (htry : t.kind = .tryStatement → u.role ≠ .body) :
    caughtByBodies u (t :: above) = caughtByBodies t above := by
  have hpart : ¬ (t.kind = .tryStatement ∧ u.role ∈ [Role.body]) := fun h =>
    htry h.1 (List.mem_singleton.mp h.2)
  rw [caughtByBodies, caughtAround, hnot, if_neg Bool.false_ne_true, if_neg hpart, List.append_nil]

theorem caughtByBodies_body (hnot : isMember t above = false) (htry : t.kind = .tryStatement)
    (hbody : u.role = .body) :
    caughtByBodies u (t :: above) = caughtByBodies t above ++ caughtBy t := by
  have hpart : t.kind = .tryStatement ∧ u.role ∈ [Role.body] :=
    ⟨htry, List.mem_singleton.mpr hbody⟩
  rw [caughtByBodies, caughtAround, hnot, if_neg Bool.false_ne_true, if_pos hpart]

theorem caughtByBodies_member (h : isMember t above = true) :
    caughtByBodies u (t :: above) = [] := by
  rw [caughtByBodies, caughtAround, if_pos h]

end

/-! ## 2. What visits find -/

/-- A call is the one that is met at a node. -/
def MetAt (k : Call) (n : Tree) : Prop :=
  ∃ s parent, n.kind = .methodInvocation ∧ methodCall? s parent n = some k ∨
    n.kind = .objectCreation ∧ constructorCall? s parent n = some k

/-- A call is met in a tree with what is caught at its node. -/
def Placed (root : Tree) (k : Call) : Prop :=
  ∃ n above, At root n above ∧ MetAt k n ∧ k.caught = caughtByBodies n above

/-- What is caught stays, and calls are added that are placed. -/
structure Kept (root : Tree) (s s' : State) : Prop where
  caught : s'.caught = s.caught
  calls : ∀ k ∈ s'.calls, k ∈ s.calls ∨ Placed root k

namespace Kept

variable {root : Tree} {s s' s'' : State}

theorem refl (root : Tree) (s : State) : Kept root s s := ⟨rfl, fun _ => .inl⟩

theorem trans (h : Kept root s s') (h' : Kept root s' s'') : Kept root s s'' :=
  ⟨h'.caught.trans h.caught, fun k hk => (h'.calls k hk).elim (h.calls k) .inr⟩

/-- A walk that meets no call. -/
theorem of_walked {named : String → Prop} (h : Walked named (fun _ => False) s s') :
    Kept root s s' := by
  obtain ⟨new, hcalls, hnew⟩ := h.calls
  refine ⟨h.caught, fun k hk => ?_⟩
  rw [hcalls] at hk
  exact (List.mem_append.mp hk).imp_right fun hk => (hnew k hk).elim

theorem addCall {t : Tree} {above : List Tree} {k : Call} (hat : At root t above)
    (hmet : MetAt k t) (hcaught : k.caught = caughtByBodies t above) :
    Kept root s { s with calls := s.calls ++ [k] } := by
  refine ⟨rfl, fun c hc => ?_⟩
  refine (List.mem_append.mp hc).imp_right fun hc => ?_
  cases List.mem_singleton.mp hc
  exact ⟨t, above, hat, hmet, hcaught⟩

end Kept

/-- **A visit that begins with what is caught at its node keeps it, and meets calls for which what is
    caught at their nodes is caught.** -/
theorem Visit.kept {root t : Tree} {x : Extent} {above : List Tree} {s s' : State}
    {fs : List Field} (h : Visit x t above s fs s') (hat : At root t above)
    (hs : s.caught = caughtByBodies t above) : Kept root s s' := by
  induction h with
  | stay => exact .refl root _
  | seq _ _ ih ih' =>
    have hfirst := ih hat hs
    exact hfirst.trans (ih' hat (hfirst.caught.trans hs))
  | call parent hkind hk =>
    exact .addCall hat ⟨_, parent, .inl ⟨hkind, hk⟩⟩ ((standsHere_of_methodCall? hk).2.2.trans hs)
  | creation parent hkind hk =>
    exact .addCall hat ⟨_, parent, .inr ⟨hkind, hk⟩⟩
      ((standsHere_of_constructorCall? hk).2.2.trans hs)
  | locals => exact .of_walked (declareVariables_walked (fun _ _ _ _ => trivial) _)
  | field => exact .refl root _
  | child hu hnot htry _ _ ih =>
    exact ih (hat.child hu) (hs.trans (caughtByBodies_child hnot htry).symm)
  | block _ ih =>
    have hinside := ih hat hs
    exact ⟨hinside.caught, hinside.calls⟩
  | @guarded _ t body above s s' hkind hnot hbody _ ih =>
    have hrole : body.role = .body := by simpa using List.find?_some hbody
    have hinside := ih (hat.child (Tree.mem_of_child? hbody))
      (by rw [caughtByBodies_body hnot hkind hrole, ← hs])
    refine ⟨?_, hinside.calls⟩
    show s'.caught.take s.caught.length = s.caught
    rw [hinside.caught]
    exact List.take_left
  | detached _ ih =>
    have hinside := ih hat hs
    exact ⟨hinside.caught, hinside.calls⟩
  | method r owner inInterface hmember hbody _ ih =>
    have hinside := ih (hat.child (Tree.mem_of_child? hbody)) (caughtByBodies_member hmember).symm
    exact ⟨rfl, hinside.calls⟩
  | declared name c _ _ _ _ ih =>
    have hinside := ih hat hs
    exact ⟨hinside.caught, hinside.calls⟩
  | empty => exact ⟨rfl, fun _ => .inl⟩

/-! ## 3. Whole trees -/

/-- The clauses of a `try` are neither its body nor its resources. -/
theorem At.clause_plain {root n : Tree} {above : List Tree} (h : At root n above)
    (hwf : WellFormed root) : ∀ p ∈ (n :: above).zip above, p.2.kind = .tryStatement →
      p.1.kind = .catchClause ∨ p.1.kind = .finallyClause → p.1.role = .plain := by
  induction h with
  | top => exact List.forall_mem_nil _
  | @child t u above hat hu ih =>
    refine List.forall_mem_cons.mpr ⟨fun htry hclause => ?_, ih⟩
    have hholds := (hwf t hat.within).holds
    rw [htry] at hholds
    exact hholds u hu hclause

theorem placed_of_mem_calls {root : Tree} (hwf : WellFormed root)
    (hroot : root.kind ≠ .tryStatement) (path : Path) :
    ∀ k ∈ (unitOf path root).calls, Placed root k := by
  have htop (t : Tree) : caughtByBodies t [root] = [] :=
    caughtByBodies_child (by simp [isMember, inClass, inCreation]) fun hk => absurd hk hroot
  have hend : (root.children.foldl walkTop State.initial).caught = [] ∧
      ∀ k ∈ (root.children.foldl walkTop State.initial).calls, Placed root k := by
    refine foldl_walkTop_induction (I := fun s => s.caught = [] ∧ ∀ k ∈ s.calls, Placed root k) hwf
      (fun s _ hs => hs) (fun t ht s s' hvisit hs => ?_) ⟨rfl, List.forall_mem_nil _⟩
    have hkept := hvisit.kept (.child .top ht) (hs.1.trans (htop t).symm)
    exact ⟨hkept.caught.trans hs.1, fun k hk => (hkept.calls k hk).elim (hs.2 k) id⟩
  exact hend.2

/-- **For a call just those exceptions count as caught that are named by the `try` statements whose
    body holds the call, up to the innermost method that is a member of a class, the outermost
    first.** The clauses of a `try` do not stand in its body. The resources do not either, though
    the language lets the `try` catch what they throw: so it is by the rule of the language only
    where no `try` holds the call in its resources, and where the innermost method around the call
    is no method of an enumeration's constant and no constructor in a class without a name. -/
theorem caught_of_mem_calls {root : Tree} (hwf : WellFormed root)
    (hroot : root.kind ≠ .tryStatement) (path : Path) :
    ∀ k ∈ (unitOf path root).calls, ∃ n above, At root n above ∧
      MetAt k n ∧ k.caught = caughtByBodies n above ∧
      (Ordinary n above → k.caught = caughtByRule n above) ∧
      ∀ p ∈ (n :: above).zip above, p.2.kind = .tryStatement →
        p.1.kind = .catchClause ∨ p.1.kind = .finallyClause → p.1.role = .plain := by
  intro k hk
  obtain ⟨n, above, hat, hmet, hcaught⟩ := placed_of_mem_calls hwf hroot path k hk
  exact ⟨n, above, hat, hmet, hcaught,
    fun hordinary => hcaught.trans (caughtByBodies_eq_caughtByRule hordinary),
    hat.clause_plain hwf⟩

/-- **So it is for the calls of every file.** -/
theorem caught_eq_caughtByBodies (path : Path) (contents : List Char) :
    ∀ k ∈ (compilationUnit path contents).calls, ∃ n above, At (parse contents) n above ∧
      MetAt k n ∧ k.caught = caughtByBodies n above ∧
      (Ordinary n above → k.caught = caughtByRule n above) ∧
      ∀ p ∈ (n :: above).zip above, p.2.kind = .tryStatement →
        p.1.kind = .catchClause ∨ p.1.kind = .finallyClause → p.1.role = .plain :=
  caught_of_mem_calls (wellFormed_parse contents) (show Kind.other ≠ .tryStatement by decide) path

/-- A call in a `try` in a method that is created in another `try`. -/
def nestedText : List Char :=
  "class A{void f(){try{new B(){void g(){try{h();}catch(C|D e){}}};}catch(E e){i();}}}".toList

theorem caught_eq_caughtByBodies_nested :
    ∃ k ∈ (compilationUnit ⟨"src/A.java"⟩ nestedText).calls, k.name = "h" ∧
      k.caught = ["C", "D"] ∧ ∃ n above, At (parse nestedText) n above ∧ MetAt k n ∧
        caughtByBodies n above = ["C", "D"] := by
  have hany : (compilationUnit ⟨"src/A.java"⟩ nestedText).calls.any (fun k =>
      k.name == "h" && k.caught == ["C", "D"]) = true := by decide +kernel
  obtain ⟨k, hk, hfound⟩ := List.any_eq_true.mp hany
  obtain ⟨hname, hcaught⟩ := Bool.and_eq_true_iff.mp hfound
  have hcaught : k.caught = ["C", "D"] := beq_iff_eq.mp hcaught
  obtain ⟨n, above, hat, hmet, heq, _⟩ := caught_eq_caughtByBodies ⟨"src/A.java"⟩ nestedText k hk
  exact ⟨k, hk, beq_iff_eq.mp hname, hcaught, n, above, hat, hmet, heq.symm.trans hcaught⟩

/-- The node that is reached by going to the child at each of some places. -/
def followed? : List Nat → Tree → List Tree → Option (Tree × List Tree)
  | [], t, above => some (t, above)
  | i :: is, t, above => t.children[i]?.bind fun u => followed? is u (t :: above)

theorem At.followed {root t n : Tree} {above above' : List Tree} {is : List Nat}
    (h : At root t above) (hn : followed? is t above = some (n, above')) : At root n above' := by
  induction is generalizing t above with
  | nil =>
    cases hn
    exact h
  | cons i is ih =>
    obtain ⟨u, hu, hrest⟩ := Option.bind_eq_some_iff.mp hn
    exact ih (h.child (List.mem_of_getElem? hu)) hrest

/-- A `try` whose resource is opened by a call. -/
def resourceText : List Char :=
  "class A{void f(){try(R r=open()){use();}catch(SecurityException e){close();}}}".toList

/-- What a resource throws is caught by the clauses of its `try`, but does not count as caught. -/
theorem caught_not_in_resources :
    ∃ k ∈ (compilationUnit ⟨"src/A.java"⟩ resourceText).calls, ∃ n above,
      At (parse resourceText) n above ∧ StandsAt k n ∧ k.caught = [] ∧
        caughtByRule n above = ["SecurityException"] := by
  have hfound : (followed? [0, 1, 0, 3, 0, 0, 0, 2] (parse resourceText) []).any (fun p =>
      (compilationUnit ⟨"src/A.java"⟩ resourceText).calls.any (fun k =>
        p.1.kind == .methodInvocation && k.range == p.1.range && k.caught == [] &&
          caughtByRule p.1 p.2 == ["SecurityException"])) = true := by decide +kernel
  obtain ⟨p, hp, hcalls⟩ := (Option.any_eq_true _ _).mp hfound
  obtain ⟨k, hk, hall⟩ := List.any_eq_true.mp hcalls
  simp only [Bool.and_eq_true, beq_iff_eq] at hall
  obtain ⟨⟨⟨hkind, hrange⟩, hcaught⟩, hrule⟩ := hall
  exact ⟨k, hk, p.1, p.2, At.top.followed hp, ⟨.inl hkind, hrange⟩, hcaught, hrule⟩

end AndroidLint.Java
