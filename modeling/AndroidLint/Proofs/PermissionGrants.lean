/-
  File:      AndroidLint/Proofs/PermissionGrants.lean
  Subject:   What a call without missing permissions may rely on.

  A requirement is met by a set of granted permissions. A call is covered if every set that holds
  the permissions of the manifest and meets what the caller itself requires also meets what the
  method requires.

  * `reportsMissing_iff`:        a call is reported exactly if the permissions of the manifest and
                                 all that the caller names do not meet the requirement;
  * `covered_iff_of_any`:        behind a caller that requires one of several permissions, a call is
                                 covered if each of them alone is enough;
  * `reportsMissing_of_mem_resolvedCalls`:  covered calls are not reported, and calls that are not
                                 reported are covered, unless the caller leaves a choice.

  A choice is taken as if all of it were granted, so behind it a call can go unreported though it is
  not covered (`unreported_behind_choice`).
-/
import AndroidLint.Check.Contracts
import AndroidLint.Proofs.Beginnings

namespace AndroidLint.Contract

open Source

/-! ## 1. Requirements that are met -/

namespace Requirement

/-- The permissions that are granted meet the requirement; one that names none asks for nothing. -/
def IsMetBy (granted : String → Prop) : Requirement → Prop
  | all ps => ∀ p ∈ ps, granted p
  | any ps => ps ≠ [] → ∃ p ∈ ps, granted p

/-- The requirement can be met in more than one way. -/
def IsChoice : Requirement → Prop
  | all _ => False
  | any ps => ∃ p ∈ ps, ∃ q ∈ ps, p ≠ q

theorem IsMetBy.mono {r : Requirement} {granted granted' : String → Prop}
    (hsub : ∀ p, granted p → granted' p) (h : r.IsMetBy granted) : r.IsMetBy granted' := by
  cases r with
  | all ps => exact fun p hp => hsub p (h p hp)
  | any ps =>
    intro hne
    obtain ⟨p, hp, hgranted⟩ := h hne
    exact ⟨p, hp, hsub p hgranted⟩

/-- All that a requirement names meets it. -/
theorem isMetBy_permissions (r : Requirement) {granted : String → Prop}
    (h : ∀ p ∈ r.permissions, granted p) : r.IsMetBy granted := by
  cases r with
  | all ps => exact h
  | any ps =>
    intro hne
    obtain ⟨p, hp⟩ := List.exists_mem_of_ne_nil ps hne
    exact ⟨p, hp, h p hp⟩

/-- A requirement that leaves no choice is met only by all that it names. -/
theorem IsMetBy.granted_of_not_isChoice {r : Requirement} {granted : String → Prop}
    (h : r.IsMetBy granted) (hone : ¬ r.IsChoice) {p : String} (hp : p ∈ r.permissions) :
    granted p := by
  cases r with
  | all ps => exact h p hp
  | any ps =>
    obtain ⟨q, hq, hgranted⟩ := h (List.ne_nil_of_mem hp)
    have heq : p = q := Decidable.byContradiction fun hne => hone ⟨p, hp, q, hq, hne⟩
    exact heq ▸ hgranted

theorem isMetBy_of_permissions_eq_nil {r : Requirement} (h : r.permissions = [])
    (granted : String → Prop) : r.IsMetBy granted :=
  r.isMetBy_permissions fun _ hp => absurd (h ▸ hp) List.not_mem_nil

/-- Nothing is missing exactly if the requirement is met. -/
theorem missing_eq_nil_iff (r : Requirement) (granted : String → Bool) :
    r.missing granted = [] ↔ r.IsMetBy (granted · = true) := by
  cases r with
  | all ps => simp [missing, IsMetBy]
  | any ps =>
    rw [missing, IsMetBy]
    split
    · next hany => exact ⟨fun _ _ => List.any_eq_true.mp hany, fun _ => rfl⟩
    · next hnone =>
      exact ⟨fun hnil hne => absurd hnil hne, fun h =>
        Decidable.byContradiction fun hne => hnone (List.any_eq_true.mpr (h hne))⟩

end Requirement

/-! ## 2. The requirements of the two ends of a call -/

/-- What the caller itself requires. -/
def callerRequirement? (c : ResolvedCall) : Option Requirement := do
  let caller ← c.call.caller
  let a ← findAnnotation? caller.annotations ["RequiresPermission"]
  Requirement.ofUse? c.sources c.unit c.caller? a

/-- What the method of a call, or its class, requires, be it nothing at all. -/
def calleeRequirement? (c : ResolvedCall) : Option Requirement := do
  let home ← c.sources.unitOf? c.owner
  let a ← (findAnnotation? c.method.annotations ["RequiresPermission"]).or
    (findAnnotation? c.owner.annotations ["RequiresPermission"])
  Requirement.ofUse? c.sources home (some c.owner) a

theorem declaredPermissions_eq (c : ResolvedCall) :
    declaredPermissions c = ((callerRequirement? c).map Requirement.permissions).getD [] := rfl

theorem requirement?_eq (c : ResolvedCall) :
    requirement? c = (calleeRequirement? c).bind fun r =>
      if r.permissions.isEmpty then none else some r := by
  simp only [requirement?, calleeRequirement?, Option.bind_eq_bind, Option.bind_assoc]

/-! ## 3. The classes of resolved calls -/

theorem unitOf?_isSome {s : Sources} {k : ClassDecl} (h : k.qualifiedName ∈ s.qualifiedNames) :
    (s.unitOf? k).isSome := by
  obtain ⟨d, hd, hname⟩ := List.mem_map.mp h
  rw [Sources.unitOf?, Option.isSome_map, Sources.declared?, List.find?_isSome]
  exact ⟨d, hd, beq_iff_eq.mpr hname⟩

theorem mem_qualifiedNames_of_enclosing {s : Sources} {k e : ClassDecl} (h : e ∈ s.enclosing k) :
    e.qualifiedName ∈ s.qualifiedNames := by
  obtain ⟨found, hfound, hid⟩ := List.mem_filterMap.mp h
  obtain ⟨name, _, rfl⟩ := List.mem_map.mp ((List.takeWhile_sublist _).subset hfound)
  obtain ⟨d, hd, rfl⟩ := Option.map_eq_some_iff.mp hid
  exact Sources.declared?_mem hd

/-- The classes in which a method is looked for belong to the project. -/
theorem mem_qualifiedNames_of_candidates {s : Sources} {unit : CompilationUnit} {call : Call}
    {k : ClassDecl} (h : k ∈ candidates s unit call) : k.qualifiedName ∈ s.qualifiedNames := by
  have hcaller {c : ClassDecl} (hc : callerClass? s unit call = some c) :
      c.qualifiedName ∈ s.qualifiedNames := by
    obtain ⟨caller, _, hfound⟩ := Option.bind_eq_some_iff.mp hc
    exact Sources.find?_mem hfound
  unfold candidates at h
  split at h
  · -- The class of the caller and those around it.
    split at h
    · next c hc =>
      rcases List.mem_cons.mp h with rfl | h
      · exact hcaller hc
      · exact mem_qualifiedNames_of_enclosing h
    · cases h
  · obtain ⟨c, _, hsuper⟩ := Option.bind_eq_some_iff.mp (Option.mem_toList.mp h)
    exact Sources.superclass?_mem hsuper
  · exact Sources.find?_mem (Option.mem_toList.mp h)
  · cases h

/-- The class that declares the method of a call belongs to the project. -/
theorem mem_qualifiedNames_of_resolve? {s : Sources} {unit : CompilationUnit} {call : Call}
    {means : ClassDecl × Method} (h : resolve? s unit call = some means) :
    means.1.qualifiedName ∈ s.qualifiedNames := by
  unfold resolve? at h
  split at h
  · split at h
    · obtain ⟨k, hk, h⟩ := Option.bind_eq_some_iff.mp h
      obtain ⟨m, _, h⟩ := Option.bind_eq_some_iff.mp h
      cases h
      exact Sources.find?_mem hk
    · cases h
  · obtain ⟨k, hk, h⟩ := List.exists_of_findSome?_eq_some h
    obtain ⟨m, _, rfl⟩ := Option.map_eq_some_iff.mp h
    cases howner : s.find? m.owner none with
    | some owner => exact Sources.find?_mem howner
    | none => exact mem_qualifiedNames_of_candidates hk

theorem unitOf?_of_mem_resolvedCalls {p : Project} {s : Sources} {c : ResolvedCall}
    (h : c ∈ Check.resolvedCalls p s) : (c.sources.unitOf? c.owner).isSome := by
  obtain ⟨unit, _, h⟩ := List.mem_flatMap.mp h
  split at h
  · obtain ⟨call, _, h⟩ := List.mem_filterMap.mp h
    obtain ⟨means, hmeans, rfl⟩ := Option.map_eq_some_iff.mp h
    exact unitOf?_isSome (mem_qualifiedNames_of_resolve? hmeans)
  · cases h

/-! ## 4. Reported calls -/

/-- The text that every report of missing permissions begins with. -/
def missingHead : String := "Missing permissions required by "

/-- A call is reported for missing permissions. -/
def ReportsMissing (g : Grants) (c : ResolvedCall) : Prop :=
  ∃ i ∈ permissionIncidents g c, missingHead.toList <+: i.message.toList

/-- What is taken to be granted where a call is made: the manifest and all that the caller names. -/
def Presumed (g : Grants) (c : ResolvedCall) (p : String) : Prop :=
  p ∈ g.manifest ∨ p ∈ declaredPermissions c

theorem missingPermissions_eq_nil_iff (g : Grants) (c : ResolvedCall) (r : Requirement) :
    missingPermissions g c r = [] ↔ r.IsMetBy (Presumed g c) := by
  rw [missingPermissions, Requirement.missing_eq_nil_iff]
  refine iff_of_eq (congrArg r.IsMetBy ?_)
  funext p
  rw [Presumed, Bool.or_eq_true, List.contains_iff_mem, List.contains_iff_mem, or_comm]

/-- The fault of a call is one of missing permissions exactly if some are missing. -/
theorem missingHead_permissionFault? (g : Grants) (c : ResolvedCall) (r : Requirement) :
    (∃ m, permissionFault? g c r = some m ∧ missingHead.toList <+: m.toList) ↔
      missingPermissions g c r ≠ [] := by
  unfold permissionFault?
  split
  · next hnil =>
    refine ⟨?_, fun h => absurd hnil h⟩
    rintro ⟨m, hm, hhead⟩
    obtain ⟨caller, _, hm⟩ := Option.bind_eq_some_iff.mp hm
    split at hm
    · cases hm
      have hown : missingHead.toList[0]? = some 'M' := congrArg (·[0]?) String.toList_ofList
      simp only [String.toList_append, List.append_assoc] at hhead
      exact absurd hhead (Text.not_begins_of_getElem? hown
        (congrArg (·[0]?) String.toList_ofList) (by decide) _)
    · cases hm
  · next missing hne =>
    refine ⟨fun _ => hne, fun _ => ⟨_, rfl, ?_⟩⟩
    simp only [missingHead, toString, String.toList_append, List.append_assoc]
    exact List.prefix_append _ _

theorem reportsMissing_iff_fault (g : Grants) (c : ResolvedCall) :
    ReportsMissing g c ↔ ∃ m, (requirement? c).bind (permissionFault? g c) = some m ∧
      missingHead.toList <+: m.toList := by
  constructor
  · rintro ⟨i, hi, hhead⟩
    obtain ⟨m, hm, rfl⟩ := List.mem_map.mp hi
    exact ⟨m, Option.mem_toList.mp hm, hhead⟩
  · rintro ⟨m, hm, hhead⟩
    exact ⟨_, List.mem_map_of_mem (Option.mem_toList.mpr hm), hhead⟩

/-- **A call is reported exactly if the permissions of the manifest and all that the caller names do
    not meet the requirement.** -/
theorem reportsMissing_iff (g : Grants) {c : ResolvedCall} {r : Requirement}
    (hr : calleeRequirement? c = some r) : ReportsMissing g c ↔ ¬ r.IsMetBy (Presumed g c) := by
  rw [reportsMissing_iff_fault, requirement?_eq, hr, Option.bind_some]
  split
  · next hempty =>
    have hmet := Requirement.isMetBy_of_permissions_eq_nil (List.isEmpty_iff.mp hempty)
      (Presumed g c)
    simp [hmet]
  · rw [Option.bind_some, missingHead_permissionFault?, Ne, missingPermissions_eq_nil_iff]

/-! ## 5. Covered calls -/

/-- Whatever is granted, as long as the manifest and what the caller requires are, meets the
    requirement of the method. -/
def Covered (g : Grants) (c : ResolvedCall) (r : Requirement) : Prop :=
  ∀ granted : String → Prop, (∀ p ∈ g.manifest, granted p) →
    (∀ q, callerRequirement? c = some q → q.IsMetBy granted) → r.IsMetBy granted

theorem mem_declaredPermissions {c : ResolvedCall} {p : String} :
    p ∈ declaredPermissions c ↔ ∃ q, callerRequirement? c = some q ∧ p ∈ q.permissions := by
  rw [declaredPermissions_eq]
  cases callerRequirement? c <;> simp

/-- A covered call is met by what is presumed. -/
theorem Covered.isMetBy_presumed {g : Grants} {c : ResolvedCall} {r : Requirement}
    (h : Covered g c r) : r.IsMetBy (Presumed g c) :=
  h (Presumed g c) (fun _ hp => Or.inl hp) fun q hq =>
    q.isMetBy_permissions fun _ hp => Or.inr (mem_declaredPermissions.mpr ⟨q, hq, hp⟩)

/-- What is presumed is granted, where the caller leaves no choice. -/
theorem covered_of_isMetBy_presumed {g : Grants} {c : ResolvedCall} {r : Requirement}
    (hone : ∀ q, callerRequirement? c = some q → ¬ q.IsChoice) (h : r.IsMetBy (Presumed g c)) :
    Covered g c r := by
  intro granted hmanifest hcaller
  refine h.mono fun p hp => ?_
  rcases hp with hp | hp
  · exact hmanifest p hp
  · obtain ⟨q, hq, hp⟩ := mem_declaredPermissions.mp hp
    exact (hcaller q hq).granted_of_not_isChoice (hone q hq) hp

/-- **Behind a caller that requires one of several permissions, a call is covered if each of them
    alone is enough.** -/
theorem covered_iff_of_any {g : Grants} {c : ResolvedCall} {r : Requirement} {ds : List String}
    (hcaller : callerRequirement? c = some (.any ds)) (hds : ds ≠ []) :
    Covered g c r ↔ ∀ d ∈ ds, r.IsMetBy fun p => p ∈ g.manifest ∨ p = d := by
  constructor
  · intro h d hd
    refine h _ (fun _ hp => Or.inl hp) fun q hq => ?_
    cases hcaller.symm.trans hq
    exact fun _ => ⟨d, hd, Or.inr rfl⟩
  · intro h granted hmanifest hmet
    obtain ⟨d, hd, hgranted⟩ := hmet _ hcaller hds
    refine (h d hd).mono fun p hp => ?_
    rcases hp with hp | rfl
    · exact hmanifest p hp
    · exact hgranted

/-- **Covered calls are not reported for missing permissions, and calls that are not reported are
    covered, unless the caller leaves a choice.** The declaring file of the method is always found,
    so that its requirement is looked at for every call that is resolved. -/
theorem reportsMissing_of_mem_resolvedCalls (p : Project) (c : ResolvedCall)
    (hc : c ∈ Check.resolvedCalls p p.sources) :
    (c.sources.unitOf? c.owner).isSome ∧
    ∀ r, calleeRequirement? c = some r →
      (ReportsMissing (Check.grants p) c ↔ ¬ r.IsMetBy (Presumed (Check.grants p) c)) ∧
      (Covered (Check.grants p) c r → ¬ ReportsMissing (Check.grants p) c) ∧
      ((∀ q, callerRequirement? c = some q → ¬ q.IsChoice) →
        ¬ ReportsMissing (Check.grants p) c → Covered (Check.grants p) c r) ∧
      (∀ ds, callerRequirement? c = some (.any ds) → ds ≠ [] →
        (Covered (Check.grants p) c r ↔
          ∀ d ∈ ds, r.IsMetBy fun q => q ∈ (Check.grants p).manifest ∨ q = d)) := by
  refine ⟨unitOf?_of_mem_resolvedCalls hc, fun r hr => ?_⟩
  have hiff := reportsMissing_iff (Check.grants p) hr
  refine ⟨hiff, fun h => ?_, fun hone h => ?_, fun ds hany hds => covered_iff_of_any hany hds⟩
  · exact fun hreported => hiff.mp hreported h.isMetBy_presumed
  · exact covered_of_isMetBy_presumed hone (Classical.not_not.mp fun hn => h (hiff.mpr hn))

/-! ## 6. Callers that leave a choice -/

/-- A project of one class with a method `g`, declared as given, that calls a method `f`, which
    requires a permission. -/
def callerWith (declared : String) : Project :=
  ⟨⟨""⟩, [⟨⟨"src/A.java"⟩, "class A \x7b\n @RequiresPermission(\"p.A\") void f() \x7b\x7d\n " ++
    declared ++ " void g() \x7b f(); \x7d\n\x7d\n"⟩], {}⟩

theorem covered_behind_both :
    let p := callerWith "@RequiresPermission(allOf = \x7b\"p.A\", \"p.B\"\x7d)"
    ∃ c ∈ Check.resolvedCalls p p.sources, calleeRequirement? c = some (.all ["p.A"]) ∧
      callerRequirement? c = some (.all ["p.A", "p.B"]) ∧
      ¬ ReportsMissing (Check.grants p) c ∧ Covered (Check.grants p) c (.all ["p.A"]) := by
  intro p
  have hcall : ∃ c ∈ Check.resolvedCalls p p.sources, calleeRequirement? c = some (.all ["p.A"]) ∧
      callerRequirement? c = some (.all ["p.A", "p.B"]) ∧
      (permissionIncidents (Check.grants p) c).length = 0 := by decide +kernel
  obtain ⟨c, hc, hr, hcaller, hnone⟩ := hcall
  have hunreported : ¬ ReportsMissing (Check.grants p) c := by
    rintro ⟨i, hi, _⟩
    rw [List.length_eq_zero_iff.mp hnone] at hi
    cases hi
  have hone : ∀ q, callerRequirement? c = some q → ¬ q.IsChoice := by
    intro q hq
    cases hcaller.symm.trans hq
    exact id
  have hcovered := ((reportsMissing_of_mem_resolvedCalls p c hc).2 _ hr).2.2.1 hone hunreported
  exact ⟨c, hc, hr, hcaller, hunreported, hcovered⟩

/-- **A call that is not reported need not be covered.** The caller here requires one of two
    permissions: with the second one alone it may run, but the method that it calls may not. -/
theorem unreported_behind_choice :
    ¬ ∀ (p : Project) (c : ResolvedCall), c ∈ Check.resolvedCalls p p.sources →
      ∀ r, calleeRequirement? c = some r → ¬ ReportsMissing (Check.grants p) c →
        Covered (Check.grants p) c r := by
  intro h
  let p := callerWith "@RequiresPermission(anyOf = \x7b\"p.A\", \"p.B\"\x7d)"
  have hcall : ∃ c ∈ Check.resolvedCalls p p.sources, calleeRequirement? c = some (.all ["p.A"]) ∧
      callerRequirement? c = some (.any ["p.A", "p.B"]) ∧ (Check.grants p).manifest = [] := by
    decide +kernel
  obtain ⟨c, hc, hr, hcaller, hmanifest⟩ := hcall
  have hmet : (Requirement.all ["p.A"]).IsMetBy (Presumed (Check.grants p) c) := by
    intro q hq
    cases List.mem_singleton.mp hq
    exact Or.inr (mem_declaredPermissions.mpr ⟨_, hcaller, List.mem_cons_self⟩)
  have hcovered := h p c hc _ hr fun hreported =>
    (reportsMissing_iff (Check.grants p) hr).mp hreported hmet
  have hsecond := (covered_iff_of_any hcaller (by simp)).mp hcovered "p.B" (by simp) "p.A" (by simp)
  rw [hmanifest] at hsecond
  simp at hsecond

end AndroidLint.Contract
