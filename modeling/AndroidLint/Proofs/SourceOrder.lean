/-
  File:      AndroidLint/Proofs/SourceOrder.lean
  Subject:   What names in source code mean does not depend on the order of the files.

  Everything that is looked up among the classes of a project goes through two questions: which
  class has a qualified name, and which one alone ends in a name. Where classes have different
  qualified names, both have the same answers in every order of the files:

  * `agrees_of_perm`:             the answers are the same in every order;
  * `contractIncidentsOf_over`:   so is all that is wrong with a call.
-/
import AndroidLint.Check.Contracts

namespace AndroidLint

/-! ## 1. Searches in another order -/

/-- A search that has an answer at one place at most finds it in every order. -/
theorem findSome?_eq_of_perm {α β : Type} {f : α → Option β} {l₁ l₂ : List α} (hp : l₁.Perm l₂)
    (hone : l₁.Pairwise fun a b => f a = none ∨ f b = none) : l₁.findSome? f = l₂.findSome? f := by
  induction hp with
  | nil => rfl
  | cons a _ ih =>
    rw [List.findSome?_cons, List.findSome?_cons, ih (List.pairwise_cons.mp hone).2]
  | swap a b l =>
    have hab := (List.pairwise_cons.mp hone).1 a List.mem_cons_self
    simp only [List.findSome?_cons]
    rcases hab with h | h
    · rw [h]
    · rw [h]
  | trans h₁ _ ih₁ ih₂ =>
    exact (ih₁ hone).trans (ih₂ ((h₁.pairwise_iff Or.symm).mp hone))

/-- The same for the search of an element by a key that no other one has. -/
theorem find?_eq_of_perm {α β : Type} [BEq β] [LawfulBEq β] {key : α → β} {l₁ l₂ : List α}
    (hp : l₁.Perm l₂) (hkey : l₁.Pairwise fun a b => key a ≠ key b) (k : β) :
    l₁.find? (key · == k) = l₂.find? (key · == k) := by
  rw [List.find?_eq_findSome?_guard, List.find?_eq_findSome?_guard]
  refine findSome?_eq_of_perm hp (hkey.imp fun {a b} hab => ?_)
  by_cases ha : key a = k
  · have hb : key b ≠ k := fun hb => hab (ha.trans hb.symm)
    exact Or.inr (by simp [Option.guard, hb])
  · exact Or.inl (by simp [Option.guard, ha])

namespace Source.Sources

/-! ## 2. Classes -/

/-- The two have the same answers to both questions. -/
structure Agrees (s t : Sources) : Prop where
  declared? : ∀ q, s.declared? q = t.declared? q
  onlyEnding? : ∀ name, s.onlyEnding? name = t.onlyEnding? name

theorem declarations_perm {s t : Sources} (hp : s.units.Perm t.units) :
    s.declarations.Perm t.declarations :=
  (List.reverse_perm _).trans ((hp.flatMap_right _).trans (List.reverse_perm _).symm)

/-- A list without repeats has none to drop. -/
theorem eraseDups_of_nodup {names : List String} (h : names.Nodup) : names.eraseDups = names := by
  induction names with
  | nil => rfl
  | cons a names ih =>
    obtain ⟨ha, hn⟩ := List.nodup_cons.mp h
    have hkeep : names.filter (fun b => !(b == a)) = names := by
      refine List.filter_eq_self.mpr fun b hb => ?_
      have hne : b ≠ a := fun e => ha (e ▸ hb)
      simp [hne]
    rw [List.eraseDups_cons, hkeep, ih hn]

/-- **Where classes have different names, the order of the files does not matter.** -/
theorem agrees_of_perm {s t : Sources} (hp : s.units.Perm t.units) (hd : s.qualifiedNames.Nodup) :
    s.Agrees t := by
  have hdecl : ∀ q, s.declared? q = t.declared? q := by
    intro q
    exact find?_eq_of_perm (declarations_perm hp) (List.pairwise_map.mp hd) q
  refine ⟨hdecl, fun name => ?_⟩
  have hnames : s.qualifiedNames.Perm t.qualifiedNames := (declarations_perm hp).map _
  have hends := hnames.filter (Text.hasTail ("." ++ name) ·)
  have hs : (s.qualifiedNames.filter (Text.hasTail ("." ++ name) ·)).Nodup := hd.filter _
  unfold onlyEnding?
  rw [eraseDups_of_nodup hs, eraseDups_of_nodup (hends.nodup_iff.mp hs)]
  cases hl : s.qualifiedNames.filter (Text.hasTail ("." ++ name) ·) with
  | nil =>
    rw [hl] at hends
    rw [hends.symm.eq_nil]
  | cons q rest =>
    rw [hl] at hends
    cases rest with
    | nil =>
      rw [List.perm_singleton.mp hends.symm]
      exact congrArg (Option.map _) (hdecl q)
    | cons r rest =>
      -- a list of two or more names stays one
      have hlen := hends.length_eq
      split
      · next h => cases h
      · split
        · next h => rw [h] at hlen; simp at hlen
        · rfl

namespace Agrees

variable {s t : Sources} (h : s.Agrees t)

include h

theorem unitOf? (c : ClassDecl) : s.unitOf? c = t.unitOf? c := by
  unfold Sources.unitOf?
  rw [h.declared?]

theorem find? (name : String) (context : Option CompilationUnit) :
    s.find? name context = t.find? name context := by
  have hdecl : s.declared? = t.declared? := funext h.declared?
  unfold Sources.find?
  rw [hdecl, h.onlyEnding?]

theorem superclass? (c : ClassDecl) : s.superclass? c = t.superclass? c := by
  unfold Sources.superclass?
  simp only [h.find?, h.unitOf?]

theorem hierarchyFrom (seen : List String) (c : ClassDecl) :
    s.hierarchyFrom seen c = t.hierarchyFrom seen c := by
  fun_induction Sources.hierarchyFrom s seen c with
  | case1 seen c hnone =>
    rw [h.superclass?] at hnone
    rw [Sources.hierarchyFrom]
    split
    · rfl
    · next hsome => rw [hnone] at hsome; cases hsome
  | case2 seen c d hsome hseen =>
    rw [h.superclass?] at hsome
    rw [Sources.hierarchyFrom]
    split
    · rfl
    · next e he =>
      cases hsome.symm.trans he
      rw [dif_pos hseen]
  | case3 seen c d hsome hnew ih =>
    rw [h.superclass?] at hsome
    rw [Sources.hierarchyFrom.eq_def t]
    split
    · next hnone => rw [hsome] at hnone; cases hnone
    · next e he =>
      cases hsome.symm.trans he
      rw [dif_neg hnew, ih]

theorem hierarchy (c : ClassDecl) : s.hierarchy c = t.hierarchy c := h.hierarchyFrom _ c

theorem enclosing (c : ClassDecl) : s.enclosing c = t.enclosing c := by
  unfold Sources.enclosing
  simp only [h.declared?]

theorem findMethod? (c : ClassDecl) (name : String) (arity : Nat) :
    s.findMethod? c name arity = t.findMethod? c name arity := by
  unfold Sources.findMethod?
  rw [h.hierarchy]

/-! ## 3. Fields and constants -/

theorem fieldScopes (c : ClassDecl) : s.fieldScopes c = t.fieldScopes c := by
  have hh : s.hierarchy = t.hierarchy := funext h.hierarchy
  unfold Sources.fieldScopes
  rw [h.enclosing, hh]

theorem findField? (unit : CompilationUnit) (c : Option ClassDecl) (path : String) :
    s.findField? unit c path = t.findField? unit c path := by
  unfold Sources.findField?
  simp only [h.find?, h.hierarchy, h.fieldScopes]

theorem constantWithin? (steps : Nat) (unit : CompilationUnit) (c : Option ClassDecl) (e : Expr) :
    s.constantWithin? steps unit c e = t.constantWithin? steps unit c e := by
  induction steps generalizing unit c e with
  | zero =>
    unfold Sources.constantWithin?
    rfl
  | succ steps ih =>
    unfold Sources.constantWithin?
    simp only [h.findField?, h.unitOf?, ih]

theorem constant? (unit : CompilationUnit) (c : Option ClassDecl) (e : Expr) :
    s.constant? unit c e = t.constant? unit c e := h.constantWithin? 8 unit c e

end Agrees

end Source.Sources

namespace Contract

open Source

/-! ## 4. The methods that calls mean -/

section Sources
variable {s t : Sources} (h : s.Agrees t)

include h

theorem callerClass?_eq (unit : CompilationUnit) (c : Call) :
    callerClass? s unit c = callerClass? t unit c := by
  unfold callerClass?
  simp only [h.find?]

theorem candidates_eq (unit : CompilationUnit) (c : Call) :
    candidates s unit c = candidates t unit c := by
  have hsuper : s.superclass? = t.superclass? := funext h.superclass?
  unfold candidates
  simp only [callerClass?_eq h, h.enclosing, hsuper, h.find?]

theorem resolve?_eq (unit : CompilationUnit) (c : Call) :
    resolve? s unit c = resolve? t unit c := by
  unfold resolve?
  simp only [candidates_eq h, h.find?, h.findMethod?]

/-! ## 5. Annotations -/

theorem fieldValue?_eq (owner : ClassDecl) (field : Field) :
    fieldValue? s owner field = fieldValue? t owner field := by
  unfold fieldValue?
  simp only [h.unitOf?, h.constant?]

theorem allowed?_eq (type : ClassDecl) (value : AnnotationValue) :
    allowed? s type value = allowed? t type value := by
  unfold allowed?
  simp only [h.unitOf?, h.findField?, fieldValue?_eq h]

theorem constantSet?_eq (unit : CompilationUnit) (a : AnnotationUse) :
    constantSet? s unit a = constantSet? t unit a := by
  have hallowed : allowed? s = allowed? t := funext fun k => funext (allowed?_eq h k)
  unfold constantSet?
  simp only [h.find?, hallowed]

theorem permissionName?_eq (unit : CompilationUnit) (c : Option ClassDecl)
    (value : AnnotationValue) :
    permissionName? s unit c value = permissionName? t unit c value := by
  unfold permissionName?
  simp only [h.findField?, h.unitOf?, h.constant?]

theorem ofUse?_eq (unit : CompilationUnit) (c : Option ClassDecl) (a : AnnotationUse) :
    Requirement.ofUse? s unit c a = Requirement.ofUse? t unit c a := by
  have hname : permissionName? s unit c = permissionName? t unit c :=
    funext (permissionName?_eq h unit c)
  unfold Requirement.ofUse?
  rw [hname]

end Sources

/-! ## 6. What is wrong with a call -/

/-- The call among other source files. -/
def ResolvedCall.over (c : ResolvedCall) (t : Sources) : ResolvedCall := { c with sources := t }

section Calls
variable {c : ResolvedCall} {t : Sources}

theorem sources_over : (c.over t).sources = t := rfl
theorem unit_over : (c.over t).unit = c.unit := rfl
theorem call_over : (c.over t).call = c.call := rfl
theorem method_over : (c.over t).method = c.method := rfl
theorem owner_over : (c.over t).owner = c.owner := rfl
theorem arguments_over : (c.over t).arguments = c.arguments := rfl
theorem methodName_over : (c.over t).methodName = c.methodName := rfl
theorem locate_over (range : ByteRange) : (c.over t).locate range = c.locate range := rfl
theorem location_over : (c.over t).location = c.location := rfl

variable (h : c.sources.Agrees t)

include h

theorem caller?_over : (c.over t).caller? = c.caller? := (callerClass?_eq h c.unit c.call).symm

theorem constant?_over (e : Expr) : (c.over t).constant? e = c.constant? e := by
  unfold ResolvedCall.constant?
  rw [caller?_over h, sources_over, unit_over, h.constant?]

theorem rangeIncidents_over : rangeIncidents (c.over t) = rangeIncidents c := by
  have hfault : rangeFault? (c.over t) = rangeFault? c := by
    funext e annotations
    unfold rangeFault? sizeOf?
    simp only [constant?_over h]
  unfold rangeIncidents
  simp only [hfault, arguments_over, locate_over]

theorem constantIncidents_over : constantIncidents (c.over t) = constantIncidents c := by
  have hset : constantSet? c.sources = constantSet? t :=
    funext fun unit => funext (constantSet?_eq h unit)
  have hallowed : isAllowed? (c.over t) = isAllowed? c := by
    funext set e
    unfold isAllowed?
    simp only [caller?_over h, sources_over, unit_over, h.findField?]
  have hwrong : wrongConstant? (c.over t) = wrongConstant? c := by
    funext home e parameter
    unfold wrongConstant?
    simp only [hallowed, hset, sources_over, locate_over]
  unfold constantIncidents
  simp only [hwrong, sources_over, owner_over, arguments_over, h.unitOf?]

theorem requirement?_over : requirement? (c.over t) = requirement? c := by
  unfold requirement?
  simp only [sources_over, owner_over, method_over, h.unitOf?, ofUse?_eq h]

theorem permissionIncidents_over (g : Grants) :
    permissionIncidents g (c.over t) = permissionIncidents g c := by
  have hdeclared : declaredPermissions (c.over t) = declaredPermissions c := by
    unfold declaredPermissions
    simp only [call_over, sources_over, unit_over, caller?_over h, ofUse?_eq h]
  have hfault : permissionFault? g (c.over t) = permissionFault? g c := by
    funext r
    unfold permissionFault? missingPermissions needsRevocable handlesRefusal
    simp only [hdeclared, call_over, owner_over, methodName_over]
  unfold permissionIncidents
  simp only [requirement?_over h, hfault, location_over]

theorem threadIncident?_over : threadIncident? (c.over t) = threadIncident? c := by
  unfold threadIncident?
  simp only [call_over, method_over, owner_over, methodName_over, location_over, caller?_over h]

theorem visibilityIncident?_over (isTest : Bool) :
    visibilityIncident? isTest (c.over t) = visibilityIncident? isTest c := by
  have hpackage : inSamePackage (c.over t) = inSamePackage c := by
    unfold inSamePackage
    simp only [unit_over, sources_over, owner_over, h.unitOf?]
  have hadmits : ∀ (scope : IntendedScope) (caller : ClassDecl),
      scope.admits (c.over t) caller = scope.admits c caller := by
    intro scope caller
    unfold IntendedScope.admits
    simp only [hpackage, sources_over, owner_over, h.hierarchy]
  unfold visibilityIncident?
  simp only [method_over, call_over, locate_over, caller?_over h, hadmits]

/-- **What is wrong with a call is the same among other files that agree on the classes.** -/
theorem contractIncidentsOf_over (g : Grants) (isTest : Bool) :
    Check.contractIncidentsOf g isTest (c.over t) = Check.contractIncidentsOf g isTest c := by
  have hresource : resourceTypeIncidents (c.over t) = resourceTypeIncidents c := rfl
  have hresult : resultIncident? (c.over t) = resultIncident? c := rfl
  unfold Check.contractIncidentsOf
  rw [rangeIncidents_over h, constantIncidents_over h, hresource, permissionIncidents_over h g,
    threadIncident?_over h, visibilityIncident?_over h, hresult]

end Calls

end Contract

end AndroidLint
