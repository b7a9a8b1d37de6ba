/-
  File:      AndroidLint/Proofs/ConstantSets.lean
  Subject:   What is known of the constants that a parameter takes.

  A value that an annotation type lists is known if it is a literal, or names a constant that comes
  down to one. A constant of the platform is not known, and neither is a value that is computed. It
  is decided that an argument is none of the listed values if all of them are known and differ from
  it:

  * `StandsFor.unique`:             a listed value stands for one literal at most;
  * `excludes_iff_every_reading`:   what is decided holds whatever the other values stand for;
  * `reports_iff`:                  a number or a string is reported exactly if none of the listed
                                    values is known to be the same;
  * `reports_literal_iff`:          the reports of a call, and which of them are decided.

  Values that are not known are left out of the comparison, so that an argument can be reported
  though nothing is known of what it is compared with (`reported_undecided`).
-/
import AndroidLint.Check.Contracts
import AndroidLint.Proofs.ConstantChains

namespace AndroidLint

/-! ## 1. Literals that are compared -/

namespace Source.Literal

/-- The literal is a whole number or a string. -/
def IsCompared : Literal → Prop
  | int _ | str _ => True
  | _ => False

/-- The comparison of a number or a string with another literal is their equality; that of floating
    point numbers is not. -/
theorem beq_eq_true_iff {v w : Literal} (hw : w.IsCompared) : (v == w) = true ↔ v = w := by
  cases w with
  | int n =>
    cases v with
    | int m =>
      have h : ((int m == int n) : Bool) = (m == n) := rfl
      simp [h]
    | _ => exact iff_of_false Bool.false_ne_true (by simp)
  | str t =>
    cases v with
    | str u =>
      have h : ((str u == str t) : Bool) = (u == t) := rfl
      simp [h]
    | _ => exact iff_of_false Bool.false_ne_true (by simp)
  | _ => exact hw.elim

theorem option_beq_eq_true_iff {v : Option Literal} {w : Literal} (hw : w.IsCompared) :
    (v == some w) = true ↔ v = some w := by
  cases v with
  | none => simp
  | some v => simpa using beq_eq_true_iff hw

end Source.Literal

namespace Contract

open Source

/-! ## 2. Known values -/

/-- A value that an annotation type lists stands for a literal: for itself if it is one, and
    otherwise for the one to which the initializer of the field that it names leads. -/
inductive StandsFor (s : Sources) (type : ClassDecl) : AnnotationValue → Literal → Prop
  | int (n : Int) : StandsFor s type (.int n) (.int n)
  | float (x : Float) : StandsFor s type (.float x) (.float x)
  | bool (b : Bool) : StandsFor s type (.bool b) (.bool b)
  | str (t : String) : StandsFor s type (.str t) (.str t)
  | constant {path : String} {unit home : CompilationUnit} {k : ClassDecl} {field : Field}
      {e : Expr} {n : Nat} {q : Site} {v : Literal} :
      s.unitOf? type = some unit → s.findField? unit (some type) path = some (k, field) →
      field.initializer = some e → s.unitOf? k = some home →
      n ≤ 8 → s.LeadsIn n ⟨home, some k, e⟩ q → q.IsLiteral v → StandsFor s type (.name path) v

/-- The literal that a listed value stands for. -/
def knownValue? (s : Sources) (type : ClassDecl) : AnnotationValue → Option Literal
  | .int n => some (.int n)
  | .float x => some (.float x)
  | .bool b => some (.bool b)
  | .str t => some (.str t)
  | .name path => do
    let unit ← s.unitOf? type
    let found ← s.findField? unit (some type) path
    fieldValue? s found.1 found.2
  | .array _ | .other _ => none

theorem fieldValue?_eq_some_iff {s : Sources} {k : ClassDecl} {field : Field} {v : Literal} :
    fieldValue? s k field = some v ↔ ∃ e home, field.initializer = some e ∧
      s.unitOf? k = some home ∧ ∃ n ≤ 8, ∃ q, s.LeadsIn n ⟨home, some k, e⟩ q ∧ q.IsLiteral v := by
  simp only [fieldValue?, Option.bind_eq_bind, Option.bind_eq_some_iff]
  constructor
  · rintro ⟨e, he, home, hhome, hv⟩
    exact ⟨e, home, he, hhome, Sources.valueWithin?_eq_some_iff.mp hv⟩
  · rintro ⟨e, home, he, hhome, hleads⟩
    exact ⟨e, he, home, hhome, Sources.valueWithin?_eq_some_iff.mpr hleads⟩

theorem knownValue?_eq_some_iff {s : Sources} {type : ClassDecl} {x : AnnotationValue}
    {v : Literal} : knownValue? s type x = some v ↔ StandsFor s type x v := by
  constructor
  · intro h
    cases x with
    | name path =>
      obtain ⟨unit, hunit, h⟩ := Option.bind_eq_some_iff.mp h
      obtain ⟨⟨k, field⟩, hfield, h⟩ := Option.bind_eq_some_iff.mp h
      obtain ⟨e, home, he, hhome, n, hn, q, hleads, hv⟩ := fieldValue?_eq_some_iff.mp h
      exact .constant hunit hfield he hhome hn hleads hv
    | array _ => cases h
    | other _ => cases h
    | _ =>
      cases h
      constructor
  · intro h
    cases h with
    | constant hunit hfield he hhome hn hleads hv =>
      have hvalue := fieldValue?_eq_some_iff.mpr ⟨_, _, he, hhome, _, hn, _, hleads, hv⟩
      simp only [knownValue?, Option.bind_eq_bind, hunit, hfield, Option.bind_some, hvalue]
    | _ => rfl

theorem StandsFor.unique {s : Sources} {type : ClassDecl} {x : AnnotationValue} {v w : Literal}
    (hv : StandsFor s type x v) (hw : StandsFor s type x w) : v = w :=
  Option.some.inj ((knownValue?_eq_some_iff.mpr hv).symm.trans (knownValue?_eq_some_iff.mpr hw))

/-! ## 3. Limits -/

/-- An annotation type with the values that it lists. -/
structure Limit where
  type : ClassDecl
  listed : List AnnotationValue
  /-- The values may be combined. -/
  isFlag : Bool

/-- The limit that an annotation of a file sets. -/
def limit? (s : Sources) (unit : CompilationUnit) (a : AnnotationUse) : Option Limit := do
  let type ← s.find? a.name (some unit)
  let definition ← findAnnotation? type.annotations ["IntDef", "StringDef", "LongDef"]
  let values ← definition.value? "value"
  pure
    { type
      listed := values.elements
      isFlag := ((definition.value? "flag").bind AnnotationValue.toBool?).getD false }

/-- The limit on a parameter of the method that is called. -/
def limitOn? (c : ResolvedCall) (q : Parameter) : Option Limit := do
  let home ← c.sources.unitOf? c.owner
  q.annotations.findSome? (limit? c.sources home)

namespace Limit

/-- The values as arguments are compared with them. -/
def constants (s : Sources) (l : Limit) : ConstantSet where
  allowed := l.listed.filterMap (allowed? s l.type)
  isFlag := l.isFlag

/-- It is decided that a literal is none of the values: all of them are known, and none of them is
    the literal. -/
def Excludes (s : Sources) (l : Limit) (v : Literal) : Prop :=
  ∀ x ∈ l.listed, ∃ w, StandsFor s l.type x w ∧ w ≠ v

theorem excludes_iff {s : Sources} {l : Limit} {v : Literal} :
    l.Excludes s v ↔ (∀ x ∈ l.listed, ∃ w, StandsFor s l.type x w) ∧
      ∀ x ∈ l.listed, ¬ StandsFor s l.type x v := by
  constructor
  · intro h
    refine ⟨fun x hx => ?_, fun x hx hv => ?_⟩
    · obtain ⟨w, hw, _⟩ := h x hx
      exact ⟨w, hw⟩
    · obtain ⟨w, hw, hne⟩ := h x hx
      exact hne (hw.unique hv)
  · rintro ⟨hknown, hnone⟩ x hx
    obtain ⟨w, hw⟩ := hknown x hx
    exact ⟨w, hw, fun heq => hnone x hx (heq ▸ hw)⟩

/-- Literals for all values, those that are known included. -/
def IsReading (s : Sources) (l : Limit) (reading : AnnotationValue → Literal) : Prop :=
  ∀ x w, StandsFor s l.type x w → reading x = w

/-- **What is decided holds whatever the values that are not known stand for, and nothing else
    does.** -/
theorem excludes_iff_every_reading (s : Sources) (l : Limit) (v : Literal) :
    l.Excludes s v ↔ ∀ reading, l.IsReading s reading → ∀ x ∈ l.listed, reading x ≠ v := by
  constructor
  · intro h reading hreading x hx
    obtain ⟨w, hw, hne⟩ := h x hx
    exact hreading x w hw ▸ hne
  · intro h x hx
    -- Values that are not known might all be the literal itself.
    let reading (y : AnnotationValue) : Literal := (knownValue? s l.type y).getD v
    have hreading : l.IsReading s reading := by
      intro y w hw
      simp only [reading, knownValue?_eq_some_iff.mpr hw, Option.getD_some]
    have hne := h reading hreading x hx
    cases hknown : knownValue? s l.type x with
    | none => exact absurd (by simp only [reading, hknown, Option.getD_none]) hne
    | some w =>
      have hw := knownValue?_eq_some_iff.mp hknown
      exact ⟨w, hw, hreading x w hw ▸ hne⟩

end Limit

theorem constantSet?_eq_map (s : Sources) (unit : CompilationUnit) (a : AnnotationUse) :
    constantSet? s unit a = (limit? s unit a).map (Limit.constants s) := by
  simp only [constantSet?, limit?, Option.bind_eq_bind, Option.map_bind, Function.comp_def]
  rfl

theorem findSome?_constantSet? (s : Sources) (unit : CompilationUnit) (as : List AnnotationUse) :
    as.findSome? (constantSet? s unit) =
      (as.findSome? (limit? s unit)).map (Limit.constants s) := by
  rw [List.map_findSome?]
  exact congrArg (as.findSome? ·) (funext fun a => constantSet?_eq_map s unit a)

/-- The annotation type of a limit belongs to the project. -/
theorem unitOf?_type_of_limit? {s : Sources} {unit : CompilationUnit} {a : AnnotationUse}
    {l : Limit} (h : limit? s unit a = some l) : ∃ home, s.unitOf? l.type = some home := by
  obtain ⟨type, htype, h⟩ := Option.bind_eq_some_iff.mp h
  obtain ⟨definition, _, h⟩ := Option.bind_eq_some_iff.mp h
  obtain ⟨values, _, h⟩ := Option.bind_eq_some_iff.mp h
  cases h
  obtain ⟨home, hhome⟩ := Sources.declaredIn_of_find? htype
  exact ⟨home, hhome.unitOf?_eq⟩

/-! ## 4. Reports -/

/-- An incident reports an argument, as one that its parameter does not take. -/
def Reports (c : ResolvedCall) (e : Expr) (q : Parameter) (i : Incident) : Prop :=
  ∃ home, c.sources.unitOf? c.owner = some home ∧ wrongConstant? c home e q = some i

theorem mem_constantIncidents_iff {c : ResolvedCall} {i : Incident} :
    i ∈ constantIncidents c ↔ ∃ e q, (e, q) ∈ c.arguments ∧ Reports c e q i := by
  unfold constantIncidents Reports
  split
  · next home hhome => simp [hhome, List.mem_filterMap]
  · next hnone => simp [hnone]

/-- A number or a string is compared with the value that a listed one stands for. -/
theorem allowed?_value_iff {s : Sources} {type : ClassDecl} {home : CompilationUnit}
    (htype : s.unitOf? type = some home) {v : Literal} (hv : v.IsCompared) (x : AnnotationValue) :
    (∃ a, allowed? s type x = some a ∧ a.value = some v) ↔ StandsFor s type x v := by
  rw [← knownValue?_eq_some_iff]
  cases x with
  | name path =>
    simp only [allowed?, knownValue?, Option.bind_eq_bind, htype, Option.bind_some]
    cases s.findField? home (some type) path <;> simp
  | int n => simp [allowed?, knownValue?, htype]
  | str t => simp [allowed?, knownValue?, htype]
  | float x =>
    -- Such a value is not compared, but it is no number or string either.
    have hne : Literal.float x ≠ v := fun h => by
      cases h
      exact hv
    simp [allowed?, knownValue?, htype, hne]
  | bool b =>
    have hne : Literal.bool b ≠ v := fun h => by
      cases h
      exact hv
    simp [allowed?, knownValue?, htype, hne]
  | array _ => simp [allowed?, knownValue?, htype]
  | other _ => simp [allowed?, knownValue?, htype]

theorem allowsValue_constants_iff {s : Sources} {l : Limit} {home : CompilationUnit}
    (htype : s.unitOf? l.type = some home) {v : Literal} (hv : v.IsCompared) :
    (l.constants s).allowsValue v = true ↔ ∃ x ∈ l.listed, StandsFor s l.type x v := by
  simp only [ConstantSet.allowsValue, Limit.constants, List.any_eq_true, List.mem_filterMap,
    Literal.option_beq_eq_true_iff hv, ← allowed?_value_iff htype hv]
  constructor
  · rintro ⟨a, ⟨x, hx, ha⟩, hvalue⟩
    exact ⟨x, hx, a, ha, hvalue⟩
  · rintro ⟨x, hx, a, ha, hvalue⟩
    exact ⟨a, ⟨x, hx, ha⟩, hvalue⟩

theorem isAllowed?_eq_some_false_iff {c : ResolvedCall} {t : ConstantSet} {e : Expr} {v : Literal}
    (hv : v.IsCompared) (he : e.kind = v.kind) :
    isAllowed? c t e = some false ↔
      ¬ (v = .int 0 ∧ t.isFlag = true) ∧ ¬ t.allowsValue v = true := by
  cases v with
  | int n => simp [isAllowed?, he, Literal.kind]
  | str u => simp [isAllowed?, he, Literal.kind]
  | _ => exact hv.elim

theorem exists_wrongConstant?_iff {c : ResolvedCall} {home : CompilationUnit} {e : Expr}
    {q : Parameter} : (∃ i, wrongConstant? c home e q = some i) ↔
      ∃ l, q.annotations.findSome? (limit? c.sources home) = some l ∧
        isAllowed? c (l.constants c.sources) e = some false := by
  simp only [wrongConstant?, findSome?_constantSet?, Option.bind_eq_bind, Option.bind_eq_some_iff,
    Option.map_eq_some_iff]
  constructor
  · rintro ⟨i, t, ⟨l, hl, rfl⟩, allowed, hallowed, hi⟩
    cases allowed with
    | true => simp at hi
    | false => exact ⟨l, hl, hallowed⟩
  · rintro ⟨l, hl, hallowed⟩
    exact ⟨_, _, ⟨l, hl, rfl⟩, false, hallowed, rfl⟩

/-- **A number or a string is reported exactly if none of the listed values is known to be the
    same.** Zero is the empty combination of flags. -/
theorem reports_iff {c : ResolvedCall} {e : Expr} {q : Parameter} {v : Literal}
    (hv : v.IsCompared) (he : e.kind = v.kind) :
    (∃ i, Reports c e q i) ↔ ∃ l, limitOn? c q = some l ∧
      ¬ (v = .int 0 ∧ l.isFlag = true) ∧ ∀ x ∈ l.listed, ¬ StandsFor c.sources l.type x v := by
  have hwrong {home : CompilationUnit} {l : Limit}
      (hl : q.annotations.findSome? (limit? c.sources home) = some l) :
      isAllowed? c (l.constants c.sources) e = some false ↔
        ¬ (v = .int 0 ∧ l.isFlag = true) ∧ ∀ x ∈ l.listed, ¬ StandsFor c.sources l.type x v := by
    obtain ⟨a, _, hlimit⟩ := List.exists_of_findSome?_eq_some hl
    obtain ⟨unit, hunit⟩ := unitOf?_type_of_limit? hlimit
    rw [isAllowed?_eq_some_false_iff hv he, allowsValue_constants_iff hunit hv]
    simp only [not_exists, not_and, Limit.constants]
  constructor
  · rintro ⟨i, home, hhome, hi⟩
    obtain ⟨l, hl, hallowed⟩ := exists_wrongConstant?_iff.mp ⟨i, hi⟩
    exact ⟨l, Option.bind_eq_some_iff.mpr ⟨home, hhome, hl⟩, (hwrong hl).mp hallowed⟩
  · rintro ⟨l, hl, hnone⟩
    obtain ⟨home, hhome, hl⟩ := Option.bind_eq_some_iff.mp hl
    obtain ⟨i, hi⟩ := exists_wrongConstant?_iff.mpr ⟨l, hl, (hwrong hl).mpr hnone⟩
    exact ⟨i, home, hhome, hi⟩

/-- A report is decided exactly if all of the listed values are known. -/
theorem excludes_iff_known {c : ResolvedCall} {e : Expr} {q : Parameter} {v : Literal} {l : Limit}
    (hv : v.IsCompared) (he : e.kind = v.kind) (hl : limitOn? c q = some l)
    (hreported : ∃ i, Reports c e q i) :
    l.Excludes c.sources v ↔ ∀ x ∈ l.listed, ∃ w, StandsFor c.sources l.type x w := by
  obtain ⟨l', hl', _, hnone⟩ := (reports_iff hv he).mp hreported
  cases hl.symm.trans hl'
  rw [Limit.excludes_iff, and_iff_left hnone]

/-- **The reports of a call are about its arguments, and of the numbers and strings among them those
    are reported that no listed value is known to be.** Such a report is decided, so that it holds
    whatever the values that are not known stand for, if and only if there are none of these. -/
theorem reports_literal_iff (c : ResolvedCall) :
    (∀ i, i ∈ constantIncidents c ↔ ∃ e q, (e, q) ∈ c.arguments ∧ Reports c e q i) ∧
    ∀ e q v, v.IsCompared → e.kind = v.kind →
      ((∃ i, Reports c e q i) ↔ ∃ l, limitOn? c q = some l ∧
        ¬ (v = .int 0 ∧ l.isFlag = true) ∧ ∀ x ∈ l.listed, ¬ StandsFor c.sources l.type x v) ∧
      ∀ l, limitOn? c q = some l → (∃ i, Reports c e q i) →
        (l.Excludes c.sources v ↔ ∀ x ∈ l.listed, ∃ w, StandsFor c.sources l.type x w) ∧
        (l.Excludes c.sources v ↔ ∀ reading, l.IsReading c.sources reading →
          ∀ x ∈ l.listed, reading x ≠ v) := by
  refine ⟨fun _ => mem_constantIncidents_iff, fun e q v hv he => ⟨reports_iff hv he, ?_⟩⟩
  intro l hl hreported
  exact ⟨excludes_iff_known hv he hl hreported, l.excludes_iff_every_reading c.sources v⟩

/-! ## 5. Values that are not known -/

/-- An argument is a literal, and a test of the limit on its parameter succeeds. -/
def isLimited (c : ResolvedCall) (v : Literal) (test : Limit → Bool) (a : Expr × Parameter) :
    Bool :=
  c.sources.valueWithin? 0 ⟨c.unit, none, a.1⟩ == some v && (limitOn? c a.2).any test

theorem isLimited_iff {c : ResolvedCall} {v : Literal} (hv : v.IsCompared) {test : Limit → Bool}
    {a : Expr × Parameter} : isLimited c v test a = true ↔
      a.1.kind = v.kind ∧ ∃ l, limitOn? c a.2 = some l ∧ test l = true := by
  rw [isLimited, Bool.and_eq_true, Literal.option_beq_eq_true_iff hv, Sources.valueWithin?_zero_iff]
  refine and_congr Iff.rfl ?_
  cases limitOn? c a.2 <;> simp

/-- A project of one class with some fields, a method that takes one of the listed constants, and a
    call that passes an argument to it. -/
def passing (fields listed argument : String) : Project :=
  ⟨⟨""⟩, [⟨⟨"src/A.java"⟩, "class A \x7b" ++ fields ++ "@IntDef(\x7b" ++ listed ++
    "\x7d) @interface M \x7b\x7d void f(@M int m) \x7b\x7d void g() \x7b f(" ++ argument ++
    "); \x7d\x7d"⟩], {}⟩

theorem reported_decided :
    let p := passing "static final int X = 1;" "X, 2" "4"
    ∃ c ∈ Check.resolvedCalls p p.sources, ∃ a ∈ c.arguments, ∃ l,
      a.1.kind = .int 4 ∧ limitOn? c a.2 = some l ∧ l.listed.length = 2 ∧
      (∃ i ∈ constantIncidents c, Reports c a.1 a.2 i) ∧ l.Excludes c.sources (.int 4) := by
  intro p
  have hcall : ∃ c ∈ Check.resolvedCalls p p.sources, ∃ a ∈ c.arguments,
      isLimited c (.int 4) (fun l => l.listed.length == 2 && l.listed.all fun x =>
        (knownValue? c.sources l.type x).isSome && knownValue? c.sources l.type x != some (.int 4))
        a = true := by decide +kernel
  obtain ⟨c, hc, a, ha, hlimited⟩ := hcall
  have hfour : (Literal.int 4).IsCompared := trivial
  obtain ⟨hkind, l, hl, htest⟩ := (isLimited_iff hfour).mp hlimited
  simp only [Bool.and_eq_true, beq_iff_eq, List.all_eq_true, bne, Bool.not_eq_true'] at htest
  obtain ⟨htwo, hvalues⟩ := htest
  have hknown (x : AnnotationValue) (hx : x ∈ l.listed) : ∃ w, StandsFor c.sources l.type x w := by
    obtain ⟨w, hw⟩ := Option.isSome_iff_exists.mp (hvalues x hx).1
    exact ⟨w, knownValue?_eq_some_iff.mp hw⟩
  have hnone (x : AnnotationValue) (hx : x ∈ l.listed) :
      ¬ StandsFor c.sources l.type x (.int 4) := by
    intro hw
    have hsame := (Literal.option_beq_eq_true_iff hfour).mpr (knownValue?_eq_some_iff.mpr hw)
    exact Bool.false_ne_true ((hvalues x hx).2.symm.trans hsame)
  obtain ⟨hincidents, hliteral⟩ := reports_literal_iff c
  obtain ⟨hiff, hdecided⟩ := hliteral a.1 a.2 _ hfour hkind
  obtain ⟨i, hi⟩ := hiff.mpr ⟨l, hl, by simp, hnone⟩
  exact ⟨c, hc, a, ha, l, hkind, hl, htwo, ⟨i, (hincidents i).mpr ⟨a.1, a.2, ha, hi⟩, hi⟩,
    (hdecided l hl ⟨i, hi⟩).1.mpr hknown⟩

/-- **An argument can be reported though nothing is known of the listed values.** The constants here
    are those of the platform, and the number that is passed is one of them. -/
theorem reported_undecided :
    ¬ ∀ (p : Project) (c : ResolvedCall), c ∈ Check.resolvedCalls p p.sources →
      ∀ e q v l, (e, q) ∈ c.arguments → v.IsCompared → e.kind = v.kind →
        limitOn? c q = some l → (∃ i, Reports c e q i) → l.Excludes c.sources v := by
  intro h
  let p := passing "" "View.VISIBLE, View.GONE" "0"
  have hcall : ∃ c ∈ Check.resolvedCalls p p.sources, ∃ a ∈ c.arguments,
      isLimited c (.int 0) (fun l => !l.isFlag && !l.listed.isEmpty && l.listed.all fun x =>
        (knownValue? c.sources l.type x).isNone) a = true := by decide +kernel
  obtain ⟨c, hc, ⟨e, q⟩, ha, hlimited⟩ := hcall
  have hzero : (Literal.int 0).IsCompared := trivial
  obtain ⟨hkind, l, hl, htest⟩ := (isLimited_iff hzero).mp hlimited
  simp only [Bool.and_eq_true, Bool.not_eq_true', List.isEmpty_eq_false_iff] at htest
  obtain ⟨⟨hflag, hne⟩, hunknown⟩ := htest
  obtain ⟨x, hx⟩ := List.exists_mem_of_ne_nil _ hne
  have hnone (x : AnnotationValue) (hx : x ∈ l.listed) (w : Literal) :
      ¬ StandsFor c.sources l.type x w := by
    intro hw
    have h := List.all_eq_true.mp hunknown x hx
    rw [knownValue?_eq_some_iff.mpr hw] at h
    cases h
  have hreported : ∃ i, Reports c e q i :=
    (reports_iff hzero hkind).mpr ⟨l, hl, by simp [hflag], fun x hx => hnone x hx _⟩
  obtain ⟨w, hw, _⟩ := h p c hc e q _ l ha hzero hkind hl hreported x hx
  exact hnone x hx w hw

end Contract

end AndroidLint
