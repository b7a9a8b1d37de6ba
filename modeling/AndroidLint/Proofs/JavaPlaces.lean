/-
  File:      AndroidLint/Proofs/JavaPlaces.lean
  Subject:   What surrounds a place in a Java syntax tree.

  * `Tree.Within`:    a node is another one or stands below it (`Tree.mem_preorder_iff`: it is one of
                      finitely many);
  * `Exposed`:        a local variable is declared in a node, but in no block of it;
  * `Attributed`:     a call is said to stand in a method and in `try` bodies that really hold it.

  Calls are attributed relative to the surroundings of a node. The lemmas on `Attributed` say how
  the surroundings change on the way from a node to its parts: `tryBody`, `methodBody`, `member` and
  `initializer`; everywhere else they stay (`lift`).
-/
import AndroidLint.Java.Walk

namespace AndroidLint.Syntax.Tree

variable {κ : Type}

/-! ## 1. Places in a tree -/

/-- A node is another one or stands below it. -/
inductive Within (n : Tree κ) : Tree κ → Prop where
  | self : Within n n
  | child {t u : Tree κ} : u ∈ t.children → Within n u → Within n t

theorem Within.trans {n u t : Tree κ} (h : n.Within u) (hu : u.Within t) : n.Within t := by
  induction hu with
  | self => exact h
  | child hmem _ ih => exact .child hmem ih

theorem Within.of_mem {u t : Tree κ} (h : u ∈ t.children) : u.Within t := .child h .self

theorem Within.of_child? {u t : Tree κ} {role : Role} (h : t.child? role = some u) : u.Within t :=
  .of_mem (mem_of_child? h)

theorem Within.size_le {n t : Tree κ} (h : n.Within t) : n.size ≤ t.size := by
  induction h with
  | self => exact Nat.le_refl _
  | child hmem _ ih => exact Nat.le_trans ih (Nat.le_of_lt (size_lt_of_mem hmem))

/-- What holds of a node as soon as it holds of all nodes below holds of every node. -/
theorem induction_within {P : Tree κ → Prop}
    (step : ∀ t, (∀ u ∈ t.children, ∀ v, v.Within u → P v) → P t) (t : Tree κ) : P t :=
  step t fun u hu v hv =>
    have : v.size < t.size := Nat.lt_of_le_of_lt hv.size_le (size_lt_of_mem hu)
    induction_within step v
termination_by t.size

mutual

/-- A node and all nodes below it, in the order of the text. -/
def preorder (t : Tree κ) : List (Tree κ) :=
  match t with
  | ⟨kind, role, range, text, children⟩ =>
    ⟨kind, role, range, text, children⟩ :: preorders children

/-- Several nodes and all nodes below them. -/
def preorders (ts : List (Tree κ)) : List (Tree κ) :=
  match ts with
  | [] => []
  | t :: rest => preorder t ++ preorders rest

end

theorem preorder_eq (t : Tree κ) : t.preorder = t :: preorders t.children := by
  cases t
  rw [preorder]

theorem mem_preorders {d : Tree κ} {ts : List (Tree κ)} :
    d ∈ preorders ts ↔ ∃ t ∈ ts, d ∈ t.preorder := by
  induction ts with
  | nil => simp [preorders]
  | cons t ts ih => simp [preorders, ih]

theorem mem_preorder_iff {d : Tree κ} (t : Tree κ) : d ∈ t.preorder ↔ d.Within t := by
  induction t using induction_within with
  | step t ih =>
    rw [preorder_eq, List.mem_cons, mem_preorders]
    constructor
    · intro h
      rcases h with rfl | ⟨u, hu, hd⟩
      · exact .self
      · exact .child hu ((ih u hu u .self).mp hd)
    · intro h
      cases h with
      | self => exact .inl rfl
      | child hu hd => exact .inr ⟨_, hu, (ih _ hu _ .self).mpr hd⟩

end AndroidLint.Syntax.Tree

namespace AndroidLint.Java

open Source Syntax

/-! ## 2. Variables that are seen outside a node -/

/-- Whether what is declared directly below a node is seen in it alone. -/
def Kind.opensBlock : Kind → Bool
  | .block | .constructorBody | .switchBlock | .forStatement | .enhancedForStatement
  | .catchClause | .lambda => true
  | _ => false

/-- Whether what is declared in a child of a node is seen outside the node too. -/
def Kind.isTransparent (k : Kind) : Bool :=
  !k.opensBlock && !k.declaresType && k != .tryStatement

/-- A declaration of local variables stands in a node, but in no block of it. -/
inductive Exposes : Tree → Tree → Prop where
  | self {d : Tree} : d.kind = .localVariableDeclaration → Exposes d d
  | child {t u d : Tree} : t.kind.isTransparent = true → u ∈ t.children → Exposes u d → Exposes t d
  | clause {t u d : Tree} : t.kind = .tryStatement → u.kind = .finallyClause → u ∈ t.children →
      Exposes u d → Exposes t d
  | member {t body u d : Tree} : t.kind.declaresType = true → t.child? .body = some body →
      u ∈ memberNodes body → Exposes u d → Exposes t d

/-- A name is declared in a node, but in no block of it. -/
def Exposed (t : Tree) (name : String) : Prop :=
  ∃ d, Exposes t d ∧ ∃ v ∈ d.ofKind .variableDeclarator, v.textOf? .name = some name

theorem Exposed.imp {t u : Tree} (h : ∀ d, Exposes u d → Exposes t d) {name : String}
    (hu : Exposed u name) : Exposed t name := by
  obtain ⟨d, hd, hrest⟩ := hu
  exact ⟨d, h d hd, hrest⟩

theorem Kind.declaresType_of_opensBlock {k : Kind} (h : k.opensBlock = true) :
    k.declaresType = false := by
  cases k <;> first | rfl | cases h

/-- A block exposes nothing. -/
theorem not_exposed_of_opensBlock {t : Tree} (ht : t.kind.opensBlock = true) (name : String) :
    ¬ Exposed t name := by
  rintro ⟨d, hd, _⟩
  cases hd with
  | self hkind => rw [hkind] at ht; cases ht
  | child hclear => simp [Kind.isTransparent, ht] at hclear
  | clause hkind => rw [hkind] at ht; cases ht
  | member htype => rw [Kind.declaresType_of_opensBlock ht] at htype; cases htype

/-! ## 3. The surroundings of a call -/

/-- The class, the method and the exceptions caught around some place. -/
structure Surroundings where
  owner : String
  caller : Option Caller
  caught : List String

/-- What is around the place that the walk has reached. -/
def State.surroundings (s : State) : Surroundings := ⟨s.owner, s.caller, s.caught⟩

/-- Whether a node declares a method or a constructor. -/
def Kind.declaresMethod : Kind → Bool
  | .methodDeclaration | .constructorDeclaration => true
  | _ => false

/-- An exception is caught at a node by a `try` in `t` whose body holds the node. -/
def CaughtAround (t n : Tree) (e : String) : Prop :=
  ∃ u body, u.Within t ∧ u.kind = .tryStatement ∧ u.child? .body = some body ∧ n.Within body ∧
    e ∈ caughtBy u

/-- The exceptions caught at a node in `t` are those caught around `t` and some caught in `t` around
    the node. -/
def CaughtBeside (t n : Tree) (outer caught : List String) : Prop :=
  ∃ inner, caught = outer ++ inner ∧ ∀ e ∈ inner, CaughtAround t n e

/-- A node stands in a member of a class in `t` that is no method. -/
def InInitializer (t n : Tree) : Prop :=
  ∃ c body d : Tree, c.Within t ∧ c.kind.declaresType = true ∧ c.child? .body = some body ∧
    d ∈ memberNodes body ∧ d.kind.declaresMethod = false ∧ n.Within d

/-- A caller is the method that a node `m` in `t` declares: its class is that around `t` or one
    that is declared in `t` around `m`. -/
structure IsCaller (t m body : Tree) (owner : String) (r : Caller) : Prop where
  within : m.Within t
  kind : m.kind.declaresMethod = true
  found : m.child? .body = some body
  owner : r.owner = owner ∨ ∃ d st, d.Within t ∧ d.kind.declaresType = true ∧ m.Within d ∧
    r.owner = State.qualify st (classNameOf d)
  method : r.method = (m.textOf? .name).getD "<init>"
  annotations : ∃ scopes, r.annotations = annotationsOf scopes m
  checks : r.checksPermission = checksPermission body

/-- A call stands at a node. -/
def StandsAt (k : Call) (n : Tree) : Prop :=
  (n.kind = .methodInvocation ∨ n.kind = .objectCreation) ∧ k.range = n.range

/-- A call that stands in a node is attributed to what holds it: to the method around the node; or
    to none, in an initializer; or to a method declared in the node, and then to the `try` bodies in
    that method alone. -/
inductive Attributed (t : Tree) (a : Surroundings) (k : Call) : Prop where
  | outside (n : Tree) : n.Within t → StandsAt k n → k.caller = a.caller →
      CaughtBeside t n a.caught k.caught → Attributed t a k
  | detached (n : Tree) : n.Within t → StandsAt k n → k.caller = none → InInitializer t n →
      (∀ e ∈ k.caught, e ∈ a.caught ∨ CaughtAround t n e) → Attributed t a k
  | inMethod (n m body : Tree) (r : Caller) : n.Within body → StandsAt k n → k.caller = some r →
      IsCaller t m body a.owner r → (∀ e ∈ k.caught, CaughtAround body n e) → Attributed t a k

theorem CaughtAround.lift {t u n : Tree} {e : String} (hu : u.Within t)
    (h : CaughtAround u n e) : CaughtAround t n e := by
  obtain ⟨w, body, hw, hrest⟩ := h
  exact ⟨w, body, hw.trans hu, hrest⟩

theorem CaughtBeside.lift {t u n : Tree} {outer caught : List String} (hu : u.Within t)
    (h : CaughtBeside u n outer caught) : CaughtBeside t n outer caught := by
  obtain ⟨inner, hcaught, hinner⟩ := h
  exact ⟨inner, hcaught, fun e he => (hinner e he).lift hu⟩

theorem CaughtBeside.mem {t n : Tree} {outer caught : List String}
    (h : CaughtBeside t n outer caught) {e : String} (he : e ∈ caught) :
    e ∈ outer ∨ CaughtAround t n e := by
  obtain ⟨inner, rfl, hinner⟩ := h
  exact (List.mem_append.mp he).imp_right (hinner e)

theorem InInitializer.lift {t u n : Tree} (hu : u.Within t) (h : InInitializer u n) :
    InInitializer t n := by
  obtain ⟨c, body, d, hc, hrest⟩ := h
  exact ⟨c, body, d, hc.trans hu, hrest⟩

theorem IsCaller.lift {t u m body : Tree} {owner : String} {r : Caller} (hu : u.Within t)
    (h : IsCaller u m body owner r) : IsCaller t m body owner r where
  within := h.within.trans hu
  kind := h.kind
  found := h.found
  owner := by
    rcases h.owner with howner | ⟨d, st, hd, hrest⟩
    · exact .inl howner
    · exact .inr ⟨d, st, hd.trans hu, hrest⟩
  method := h.method
  annotations := h.annotations
  checks := h.checks

/-- Inside a class its methods belong to it, whatever is around it. -/
theorem IsCaller.member {t u m body : Tree} {st : State} {owner : String} {r : Caller}
    (ht : t.kind.declaresType = true) (hu : u.Within t)
    (h : IsCaller u m body (st.qualify (classNameOf t)) r) : IsCaller t m body owner r :=
  { h.lift hu with
    owner := by
      rcases (h.lift hu).owner with howner | howner
      · exact .inr ⟨t, st, .self, ht, h.within.trans hu, howner⟩
      · exact .inr howner }

namespace Attributed

variable {t u : Tree} {a : Surroundings} {k : Call}

theorem lift (hu : u.Within t) (h : Attributed u a k) : Attributed t a k := by
  cases h with
  | outside n hn hk hcaller hcaught =>
    exact .outside n (hn.trans hu) hk hcaller (hcaught.lift hu)
  | detached n hn hk hcaller hinit hcaught =>
    exact .detached n (hn.trans hu) hk hcaller (hinit.lift hu) fun e he =>
      (hcaught e he).imp_right (·.lift hu)
  | inMethod n m body r hn hk hcaller hr hcaught =>
    exact .inMethod n m body r hn hk hcaller (hr.lift hu) hcaught

/-- The body of a `try` is surrounded by what its clauses catch. -/
theorem tryBody {body : Tree} (ht : t.kind = .tryStatement) (hbody : t.child? .body = some body)
    (h : Attributed body { a with caught := a.caught ++ caughtBy t } k) : Attributed t a k := by
  have hin : body.Within t := .of_child? hbody
  have hhere {n : Tree} (hn : n.Within body) {e : String} (he : e ∈ caughtBy t) :
      CaughtAround t n e := ⟨t, body, .self, ht, hbody, hn, he⟩
  cases h with
  | outside n hn hk hcaller hcaught =>
    obtain ⟨inner, hcaught, hinner⟩ := hcaught
    refine .outside n (hn.trans hin) hk hcaller ⟨caughtBy t ++ inner, ?_, fun e he => ?_⟩
    · rw [hcaught, List.append_assoc]
    · rcases List.mem_append.mp he with he | he
      · exact hhere hn he
      · exact (hinner e he).lift hin
  | detached n hn hk hcaller hinit hcaught =>
    refine .detached n (hn.trans hin) hk hcaller (hinit.lift hin) fun e he => ?_
    rcases hcaught e he with he | he
    · exact (List.mem_append.mp he).imp_right (hhere hn)
    · exact .inr (he.lift hin)
  | inMethod n m inner r hn hk hcaller hr hcaught =>
    exact .inMethod n m inner r hn hk hcaller (hr.lift hin) hcaught

/-- The body of a method is surrounded by the method alone. -/
theorem methodBody {body : Tree} {r : Caller} (hr : IsCaller t t body a.owner r)
    (h : Attributed body ⟨a.owner, some r, []⟩ k) : Attributed t a k := by
  have hin : body.Within t := .of_child? hr.found
  cases h with
  | outside n hn hk hcaller hcaught =>
    exact .inMethod n t body r hn hk hcaller hr fun e he =>
      (hcaught.mem he).resolve_left List.not_mem_nil
  | detached n hn hk hcaller hinit hcaught =>
    exact .detached n (hn.trans hin) hk hcaller (hinit.lift hin) fun e he =>
      .inr (((hcaught e he).resolve_left List.not_mem_nil).lift hin)
  | inMethod n m inner r' hn hk hcaller hr' hcaught =>
    exact .inMethod n m inner r' hn hk hcaller (hr'.lift hin) hcaught

/-- The members of a class are surrounded by it. -/
theorem member (st : State) (ht : t.kind.declaresType = true) (hu : u.Within t)
    (h : Attributed u { a with owner := st.qualify (classNameOf t) } k) : Attributed t a k := by
  cases h with
  | outside n hn hk hcaller hcaught => exact lift hu (.outside n hn hk hcaller hcaught)
  | detached n hn hk hcaller hinit hcaught =>
    exact lift hu (.detached n hn hk hcaller hinit hcaught)
  | inMethod n m body r hn hk hcaller hr hcaught =>
    exact .inMethod n m body r hn hk hcaller (hr.member ht hu) hcaught

/-- The initializers of a class are surrounded by no method. -/
theorem initializer {body : Tree} (st : State) (ht : t.kind.declaresType = true)
    (hbody : t.child? .body = some body) (hu : u ∈ memberNodes body) (hin : u.Within t)
    (hkind : u.kind.declaresMethod = false)
    (h : Attributed u ⟨st.qualify (classNameOf t), none, a.caught⟩ k) : Attributed t a k := by
  cases h with
  | outside n hn hk hcaller hcaught =>
    exact .detached n (hn.trans hin) hk hcaller ⟨t, body, u, .self, ht, hbody, hu, hkind, hn⟩
      fun e he => (hcaught.mem he).imp_right (·.lift hin)
  | detached n hn hk hcaller hinit hcaught =>
    exact lift hin (.detached n hn hk hcaller hinit hcaught)
  | inMethod n m inner r hn hk hcaller hr hcaught =>
    exact .inMethod n m inner r hn hk hcaller (hr.member ht hin) hcaught

end Attributed

end AndroidLint.Java
