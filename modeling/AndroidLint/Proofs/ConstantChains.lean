/-
  File:      AndroidLint/Proofs/ConstantChains.lean
  Subject:   The literal that a constant comes down to.

  A name leads to the initializer of the final field that it means. What stands there is read in the
  code of the class that has the field, so that every step may change the file and the class in
  which the next name is looked up:

  * `LeadsTo.unique`:              a name leads to one site at most;
  * `not_leadsIn_of_literal`:      what leads to a literal never comes back;
  * `valueWithin?_eq_some_iff`:    a literal is found exactly if the allowed steps lead to it;
  * `findField?_owned`:            the field that a name means is one of the class it is found in;
  * `constant?_chain`:             what the search for a constant finds, and where it looks.
-/
import AndroidLint.Proofs.ClassChains

namespace AndroidLint.Source

/-! ## 1. Steps -/

/-- An expression in the code of a class of a file. -/
structure Site where
  unit : CompilationUnit
  owner : Option ClassDecl
  expr : Expr

/-- How an expression writes a literal out. -/
def Literal.kind : Literal → ExprKind Expr
  | int v => .int v
  | float v => .float v
  | str v => .str v
  | bool v => .bool v
  | char v => .char v

/-- The site is a literal. -/
def Site.IsLiteral (p : Site) (v : Literal) : Prop := p.expr.kind = v.kind

theorem Literal.kind_ne_name (v : Literal) (path : String) : v.kind ≠ .name path := by
  cases v <;> simp [kind]

namespace Sources

/-- A site is a name, and the final field that it means has the other site as its initializer. -/
def LeadsTo (s : Sources) (p q : Site) : Prop :=
  ∃ path k field, p.expr.kind = .name path ∧
    s.findField? p.unit p.owner path = some (k, field) ∧ field.isFinal = true ∧
    field.initializer = some q.expr ∧ s.unitOf? k = some q.unit ∧ q.owner = some k

/-- A site leads to another one in so many steps. -/
inductive LeadsIn (s : Sources) : Nat → Site → Site → Prop
  | here (p : Site) : LeadsIn s 0 p p
  | next {n : Nat} {p q r : Site} : s.LeadsTo p q → LeadsIn s n q r → LeadsIn s (n + 1) p r

theorem LeadsTo.unique {s : Sources} {p q r : Site} (hq : s.LeadsTo p q) (hr : s.LeadsTo p r) :
    q = r := by
  obtain ⟨path, k, field, hname, hfield, _, hvalue, hhome, howner⟩ := hq
  obtain ⟨path', k', field', hname', hfield', _, hvalue', hhome', howner'⟩ := hr
  cases hname.symm.trans hname'
  cases hfield.symm.trans hfield'
  obtain ⟨qu, qo, qe⟩ := q
  obtain ⟨ru, ro, re⟩ := r
  cases hvalue.symm.trans hvalue'
  cases hhome.symm.trans hhome'
  cases howner.trans howner'.symm
  rfl

theorem LeadsTo.not_isLiteral {s : Sources} {p q : Site} (h : s.LeadsTo p q) (v : Literal) :
    ¬ p.IsLiteral v := by
  obtain ⟨path, _, _, hname, _⟩ := h
  exact fun hv => v.kind_ne_name path (hv.symm.trans hname)

theorem LeadsIn.snoc {s : Sources} {n : Nat} {p q r : Site} (h : s.LeadsIn n p q)
    (hstep : s.LeadsTo q r) : s.LeadsIn (n + 1) p r := by
  induction h with
  | here p => exact .next hstep (.here r)
  | next hfirst _ ih => exact .next hfirst (ih hstep)

/-! ## 2. Ways that end in a literal -/

/-- Every site on the way to a literal leads to it. -/
theorem LeadsIn.leads_on {s : Sources} {n m : Nat} {p q r : Site} {v : Literal}
    (hq : s.LeadsIn n p q) (hr : s.LeadsIn m p r) (hv : r.IsLiteral v) :
    ∃ k, s.LeadsIn k q r := by
  induction hq generalizing m with
  | here p => exact ⟨m, hr⟩
  | next hstep _ ih =>
    cases hr with
    | here => exact absurd hv (hstep.not_isLiteral v)
    | next hstep' hrest =>
      cases hstep.unique hstep'
      exact ih hrest

/-- **What leads to a literal never comes back.** -/
theorem not_leadsIn_of_literal {s : Sources} {n : Nat} {p r : Site} {v : Literal}
    (h : s.LeadsIn n p r) (hv : r.IsLiteral v) (m : Nat) : ¬ s.LeadsIn (m + 1) p p := by
  induction h with
  | here p =>
    intro hback
    cases hback with
    | next hstep _ => exact hstep.not_isLiteral v hv
  | next hstep _ ih =>
    intro hback
    cases hback with
    | next hstep' hrest =>
      -- The way back begins with the same step, so it can be entered one site later.
      cases hstep.unique hstep'
      exact ih hv (hrest.snoc hstep)

/-! ## 3. The search for a literal -/

/-- The search on a site. -/
def valueWithin? (s : Sources) (n : Nat) (p : Site) : Option Literal :=
  s.constantWithin? n p.unit p.owner p.expr

theorem valueWithin?_zero_iff {s : Sources} {p : Site} {v : Literal} :
    s.valueWithin? 0 p = some v ↔ p.IsLiteral v := by
  rw [valueWithin?, constantWithin?, Site.IsLiteral]
  cases p.expr.kind <;> cases v <;> simp [Literal.kind]

theorem valueWithin?_succ_iff {s : Sources} {n : Nat} {p : Site} {v : Literal} :
    s.valueWithin? (n + 1) p = some v ↔
      p.IsLiteral v ∨ ∃ q, s.LeadsTo p q ∧ s.valueWithin? n q = some v := by
  cases hkind : p.expr.kind with
  | name path =>
    have hnot : ¬ p.IsLiteral v := fun hv => v.kind_ne_name path (hv.symm.trans hkind)
    rw [or_iff_right hnot, valueWithin?, constantWithin?, hkind]
    simp only [Option.bind_eq_bind, Option.bind_eq_some_iff, LeadsTo, hkind, valueWithin?]
    constructor
    · rintro ⟨⟨k, field⟩, hfield, h⟩
      cases hfinal : field.isFinal with
      | false => simp [hfinal] at h
      | true =>
        simp only [hfinal, Bool.not_true, Bool.false_eq_true, if_false] at h
        obtain ⟨value, hvalue, h⟩ := Option.bind_eq_some_iff.mp h
        obtain ⟨home, hhome, h⟩ := Option.bind_eq_some_iff.mp h
        exact ⟨⟨home, some k, value⟩, ⟨path, k, field, rfl, hfield, hfinal, hvalue, hhome, rfl⟩, h⟩
    · rintro ⟨q, ⟨path', k, field, hname, hfield, hfinal, hvalue, hhome, howner⟩, h⟩
      cases hname
      refine ⟨(k, field), hfield, ?_⟩
      rw [howner] at h
      simpa [hfinal, hvalue, hhome] using h
  | _ =>
    have hno (q : Site) : ¬ s.LeadsTo p q := by
      rintro ⟨path, _, _, hname, _⟩
      cases hkind.symm.trans hname
    rw [valueWithin?, constantWithin?, Site.IsLiteral, hkind]
    simp only [hno, false_and, exists_false, or_false]
    cases v <;> simp [Literal.kind]

/-- **A literal is found exactly if the steps that are allowed lead to it.** -/
theorem valueWithin?_eq_some_iff {s : Sources} {n : Nat} {p : Site} {v : Literal} :
    s.valueWithin? n p = some v ↔ ∃ m ≤ n, ∃ q, s.LeadsIn m p q ∧ q.IsLiteral v := by
  induction n generalizing p with
  | zero =>
    rw [valueWithin?_zero_iff]
    constructor
    · exact fun hv => ⟨0, Nat.le_refl 0, p, .here p, hv⟩
    · rintro ⟨m, hm, q, hleads, hv⟩
      cases Nat.le_zero.mp hm
      cases hleads
      exact hv
  | succ n ih =>
    simp only [valueWithin?_succ_iff, ih]
    constructor
    · rintro (hv | ⟨q, hstep, m, hm, r, hleads, hv⟩)
      · exact ⟨0, Nat.zero_le _, p, .here p, hv⟩
      · exact ⟨m + 1, Nat.succ_le_succ hm, r, .next hstep hleads, hv⟩
    · rintro ⟨m, hm, r, hleads, hv⟩
      cases hleads with
      | here => exact Or.inl hv
      | next hstep hrest =>
        exact Or.inr ⟨_, hstep, _, Nat.le_of_succ_le_succ hm, r, hrest, hv⟩

/-! ## 4. The fields that names mean -/

/-- The class is the one that its qualified name means. -/
def IsDeclared (s : Sources) (c : ClassDecl) : Prop := ∃ unit, s.DeclaredIn unit c

theorem isDeclared_of_mem_hierarchy {s : Sources} {c d : ClassDecl} (hc : s.IsDeclared c)
    (hd : d ∈ s.hierarchy c) : s.IsDeclared d := by
  obtain ⟨n, _, hn, _⟩ := s.hierarchy_isReached c
  have hclimbed := (climbed_of_rounds hn).1
  cases hchain : s.hierarchy c with
  | nil =>
    rw [hchain] at hd
    cases hd
  | cons a chain =>
    rw [hchain] at hd hclimbed
    rcases List.mem_cons.mp hd with rfl | hd
    · cases hclimbed.head
      exact hc
    · obtain ⟨e, name, _, hfind⟩ := exists_extends_of_isChain hclimbed.linked hd
      exact declaredIn_of_find? hfind

theorem isDeclared_of_mem_enclosing {s : Sources} {c d : ClassDecl} (hd : d ∈ s.enclosing c) :
    s.IsDeclared d := by
  obtain ⟨found, hfound, hid⟩ := List.mem_filterMap.mp hd
  obtain ⟨name, _, rfl⟩ := List.mem_map.mp ((List.takeWhile_sublist _).subset hfound)
  obtain ⟨⟨unit, e⟩, hdeclared, rfl⟩ := Option.map_eq_some_iff.mp hid
  exact ⟨unit, declaredIn_of_declared? hdeclared⟩

theorem isDeclared_of_mem_fieldScopes {s : Sources} {c d : ClassDecl} (hc : s.IsDeclared c)
    (hd : d ∈ s.fieldScopes c) : s.IsDeclared d := by
  rcases List.mem_append.mp hd with hd | hd
  · exact isDeclared_of_mem_hierarchy hc hd
  · obtain ⟨outer, houter, hd⟩ := List.mem_flatMap.mp hd
    exact isDeclared_of_mem_hierarchy (isDeclared_of_mem_enclosing houter) hd

/-- **The field that a name means is one of the class it is found in.** That class is one that its
    qualified name means, if the class in whose code the name stands is. -/
theorem findField?_owned {s : Sources} {unit : CompilationUnit} {c : Option ClassDecl}
    {path : String} {k : ClassDecl} {field : Field}
    (h : s.findField? unit c path = some (k, field)) :
    field ∈ k.fields ∧ ((∀ d, c = some d → s.IsDeclared d) → s.IsDeclared k) := by
  have hfieldOf {d : ClassDecl} {name : String} (hfound : d.field? name = some field) :
      field ∈ d.fields := List.mem_of_find?_eq_some hfound
  unfold findField? at h
  split at h
  · next ownerName name _ =>
    obtain ⟨owner, howner, h⟩ := Option.bind_eq_some_iff.mp h
    obtain ⟨d, hd, hfound⟩ := List.exists_of_findSome?_eq_some h
    obtain ⟨f, hf, hpair⟩ := Option.map_eq_some_iff.mp hfound
    cases hpair
    exact ⟨hfieldOf hf, fun _ => isDeclared_of_mem_hierarchy (declaredIn_of_find? howner) hd⟩
  · obtain ⟨d, hdeclared, h⟩ := Option.bind_eq_some_iff.mp h
    obtain ⟨e, he, hfound⟩ := List.exists_of_findSome?_eq_some h
    obtain ⟨f, hf, hpair⟩ := Option.map_eq_some_iff.mp hfound
    cases hpair
    exact ⟨hfieldOf (Option.filter_eq_some_iff.mp hf).1,
      fun hc => isDeclared_of_mem_fieldScopes (hc d hdeclared) he⟩

/-- The site is the initializer of a final field, in the file that declares the class with the
    field. -/
def IsConstantOf (s : Sources) (p : Site) : Prop :=
  ∃ k, p.owner = some k ∧ s.DeclaredIn p.unit k ∧
    ∃ field ∈ k.fields, field.isFinal = true ∧ field.initializer = some p.expr

theorem LeadsTo.isConstantOf {s : Sources} {p q : Site} (h : s.LeadsTo p q)
    (hp : ∀ d, p.owner = some d → s.IsDeclared d) : s.IsConstantOf q := by
  obtain ⟨path, k, field, _, hfield, hfinal, hvalue, hhome, howner⟩ := h
  obtain ⟨hmem, hdeclared⟩ := findField?_owned hfield
  obtain ⟨unit, hunit⟩ := hdeclared hp
  cases hunit.unitOf?_eq.symm.trans hhome
  exact ⟨k, howner, hunit, field, hmem, hfinal, hvalue⟩

/-- Every site that is led to is a constant of the project. -/
theorem LeadsIn.isConstantOf {s : Sources} {n : Nat} {p q : Site} (h : s.LeadsIn (n + 1) p q)
    (hp : ∀ d, p.owner = some d → s.IsDeclared d) : s.IsConstantOf q := by
  induction n generalizing p with
  | zero =>
    cases h with
    | next hstep hrest =>
      cases hrest
      exact hstep.isConstantOf hp
  | succ n ih =>
    cases h with
    | next hstep hrest =>
      refine ih hrest fun d hd => ?_
      obtain ⟨k, howner, hunit, _⟩ := hstep.isConstantOf hp
      cases howner.symm.trans hd
      exact ⟨_, hunit⟩

/-- **A constant comes down to the literal that at most eight steps lead to, and to nothing else.**
    Where the steps run into a circle there is none. Each step leads to a final field of a class of
    the project and goes on in the file that declares this class, as long as the class in whose code
    the expression stands is one that its qualified name means. -/
theorem constant?_chain (s : Sources) (unit : CompilationUnit) (c : Option ClassDecl) (e : Expr) :
    (∀ v, s.constant? unit c e = some v ↔
      ∃ n ≤ 8, ∃ q, s.LeadsIn n ⟨unit, c, e⟩ q ∧ q.expr.kind = v.kind) ∧
    (∀ v, s.constant? unit c e = some v → ∀ path, v.kind ≠ .name path) ∧
    (∀ n q, s.LeadsIn n ⟨unit, c, e⟩ q → ∀ m, s.LeadsIn (m + 1) q q →
      s.constant? unit c e = none) ∧
    ((∀ d, c = some d → s.IsDeclared d) →
      ∀ n q, s.LeadsIn (n + 1) ⟨unit, c, e⟩ q → s.IsConstantOf q) := by
  have hiff (v : Literal) : s.constant? unit c e = some v ↔
      ∃ n ≤ 8, ∃ q, s.LeadsIn n ⟨unit, c, e⟩ q ∧ q.IsLiteral v :=
    valueWithin?_eq_some_iff (p := ⟨unit, c, e⟩)
  refine ⟨hiff, fun v _ => v.kind_ne_name, fun n q hq m hback => ?_, fun hc n q hq => ?_⟩
  · refine Option.eq_none_iff_forall_ne_some.mpr fun v hv => ?_
    obtain ⟨_, _, r, hr, hliteral⟩ := (hiff v).mp hv
    obtain ⟨k, hon⟩ := hq.leads_on hr hliteral
    exact not_leadsIn_of_literal hon hliteral m hback
  · exact hq.isConstantOf hc

end Sources

end AndroidLint.Source
