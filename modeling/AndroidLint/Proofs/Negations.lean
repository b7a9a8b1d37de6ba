/-
  File:      AndroidLint/Proofs/Negations.lean
  Subject:   Signs in front of whole numbers.

  Whole numbers have 64 bits, and the smallest one has no negation among them. A node has its number
  from its own text or from a part of it, with the sign changed or not; `origin` says which, for
  each language. Literals without a sign are not negative, so the numbers that come from them never
  reach the smallest one:

  * `Lowers`:                   what an expression is agrees with the origin of its node's number;
  * `Lowers.kind_eq_int_iff`:   the number of an expression is the one that its node denotes;
  * `Lowers.exists_of_within`:  the parts of an expression are the expressions of nodes below;
  * `Lowers.bounds`:            the numbers that signs make of literals;
  * `negations_exact`:          in both languages every number of an expression can be negated.
-/
import AndroidLint.Kotlin.Walk
import AndroidLint.Proofs.JavaExprTypes
import AndroidLint.Proofs.WholeNumbers

namespace AndroidLint

/-! ## 1. Literals -/

namespace Source

theorem int64?_bounds {base : Nat} {cs : List Char} {v : Int} (h : Text.int64? base cs = some v)
    (hsign : '-' ∉ cs) : 0 ≤ v ∧ v ≤ 2 ^ 63 - 1 := by
  -- With or without a plus sign in front, what is read is a natural number within the limit.
  have hread {digits : List Char} (h : ((Text.natural? base digits).bind fun n =>
      if -9223372036854775808 ≤ (n : Int) ∧ (n : Int) ≤ 9223372036854775807 then some (n : Int)
      else none) = some v) : 0 ≤ v ∧ v ≤ 2 ^ 63 - 1 := by
    obtain ⟨n, _, hn⟩ := Option.bind_eq_some_iff.mp h
    split at hn
    · obtain rfl := Option.some.inj hn
      omega
    · cases hn
  unfold Text.int64? at h
  dsimp only at h
  split at h
  · exact hread (by simpa [Option.bind_assoc] using h)
  · exact absurd List.mem_cons_self hsign
  · exact hread (by simpa [Option.bind_assoc] using h)

theorem mem_of_mem_bareNumber {isSuffix : Char → Bool} {text : String} {c : Char}
    (h : c ∈ bareNumber isSuffix text) : c ∈ text.toList := by
  have hkept := List.mem_reverse.mp (List.mem_filter.mp h).1
  exact List.mem_reverse.mp ((List.dropWhile_sublist isSuffix).subset hkept)

/-- A literal without a minus sign is not negative. -/
theorem intLiteral?_bounds {text : String} {v : Int} (h : intLiteral? text = some v)
    (hsign : '-' ∉ text.toList) : 0 ≤ v ∧ v ≤ 2 ^ 63 - 1 := by
  have hbare : '-' ∉ bareNumber isIntSuffix text := fun hmem => hsign (mem_of_mem_bareNumber hmem)
  unfold intLiteral? at h
  dsimp only at h
  split at h
  iterate 4
    next digits heq =>
      rw [heq] at hbare
      exact int64?_bounds h fun hmem => hbare (List.mem_cons_of_mem _ (List.mem_cons_of_mem _ hmem))
  · next c digits _ _ _ _ heq =>
    split at h
    · rw [heq] at hbare
      exact int64?_bounds h fun hmem => hbare (List.mem_cons_of_mem _ hmem)
    · exact int64?_bounds h hbare
  · exact int64?_bounds h hbare

/-! ## 2. Numbers of nodes -/

/-- Where a node has its number from: from its text, from a part of it, or it has none. -/
inductive Origin (κ : Type) where
  | literal
  | part (negated : Bool) (u : Syntax.Tree κ)
  | nowhere

/-- From a part, if it is there. -/
def Origin.ofPart {κ : Type} (negated : Bool) : Option (Syntax.Tree κ) → Origin κ
  | some u => .part negated u
  | none => .nowhere

section

variable {κ : Type} (origin : Syntax.Tree κ → Origin κ)

/-- The number that a node denotes. -/
inductive Denotes : Syntax.Tree κ → Int → Prop where
  | literal {t : Syntax.Tree κ} {v : Int} : origin t = .literal → intLiteral? t.text = some v →
      Denotes t v
  | part {t u : Syntax.Tree κ} {negated : Bool} {v : Int} : origin t = .part negated u →
      Denotes u v → Denotes t (if negated then -v else v)

/-- No literal of a tree has a minus sign in it; a plus sign would do no harm. -/
def Unsigned (t : Syntax.Tree κ) : Prop :=
  ∀ u : Syntax.Tree κ, u.Within t → origin u = .literal → '-' ∉ u.text.toList

variable {origin}

theorem Unsigned.of_within {t u : Syntax.Tree κ} (h : Unsigned origin t) (hu : u.Within t) :
    Unsigned origin u :=
  fun w hw => h w (hw.trans hu)

end

/-- What a minus sign makes of an expression. -/
def ExprKind.negated {ε : Type} : ExprKind ε → ExprKind ε
  | .int v => .int (-v)
  | .float v => .float (-v)
  | _ => .other

namespace ExprKind

variable {ε : Type} (kind : ExprKind ε)

/-- The whole number that an expression is. -/
def int? : Option Int :=
  match kind with
  | .int v => some v
  | _ => none

/-- The arguments of a call or the elements of an array. -/
def parts : List ε :=
  match kind with
  | .call _ args => args
  | .array _ elements => elements
  | _ => []

theorem int?_eq_some_iff {v : Int} : kind.int? = some v ↔ kind = .int v := by
  cases kind <;> simp [int?]

theorem int?_negated : kind.negated.int? = kind.int?.map (- ·) := by
  cases kind <;> rfl

theorem parts_negated : kind.negated.parts = [] := by
  cases kind <;> rfl

end ExprKind

/-- What the kind of an expression has to do with where its node has its number from. -/
def Agrees {κ : Type} (e : Syntax.Tree κ → Expr) (t : Syntax.Tree κ) (kind : ExprKind Expr) :
    Origin κ → Prop
  | .literal => kind.int? = intLiteral? t.text ∧ kind.parts = []
  | .part negated u => u ∈ t.children ∧
      kind = if negated then (e u).kind.negated else (e u).kind
  | .nowhere => kind.int? = none ∧ ∀ a ∈ kind.parts, ∃ u : Syntax.Tree κ, u.Within t ∧ a = e u

section

variable {κ : Type} {e : Syntax.Tree κ → Expr} {t : Syntax.Tree κ} {kind : ExprKind Expr}

/-- A node without a number, whose parts are the expressions of some nodes below. -/
theorem agrees_nowhere {us : List (Syntax.Tree κ)} (hint : kind.int? = none)
    (hparts : kind.parts = us.map e) (hus : ∀ u ∈ us, u.Within t) : Agrees e t kind .nowhere := by
  refine ⟨hint, fun a ha => ?_⟩
  rw [hparts] at ha
  obtain ⟨u, hu, rfl⟩ := List.mem_map.mp ha
  exact ⟨u, hus u hu, rfl⟩

theorem agrees_leaf (hint : kind.int? = none) (hparts : kind.parts = []) :
    Agrees e t kind .nowhere :=
  agrees_nowhere hint (hparts.trans List.map_nil.symm) (List.forall_mem_nil _)

theorem agrees_intExpr (type : String) : Agrees e t (intExpr type t.text).1 .literal := by
  unfold intExpr
  split
  · next hv => exact ⟨hv.symm, rfl⟩
  · next hnone => exact ⟨hnone.symm, rfl⟩

theorem agrees_floatExpr : Agrees e t (floatExpr t.text).1 .nowhere := by
  unfold floatExpr
  split <;> exact agrees_leaf rfl rfl

theorem agrees_ofPart {negated : Bool} {part? : Option (Syntax.Tree κ)}
    (hmem : ∀ u ∈ part?, u ∈ t.children)
    (hkind : kind = (part?.map fun u =>
      if negated then (e u).kind.negated else (e u).kind).getD .other) :
    Agrees e t kind (.ofPart negated part?) := by
  cases part? with
  | some u => exact ⟨hmem u rfl, hkind⟩
  | none =>
    rw [hkind]
    exact agrees_leaf rfl rfl

end

/-- The expressions of all nodes have the numbers of their nodes. -/
def Lowers {κ : Type} (origin : Syntax.Tree κ → Origin κ) (e : Syntax.Tree κ → Expr) : Prop :=
  ∀ t, Agrees e t (e t).kind (origin t)

namespace Lowers

variable {κ : Type} {origin : Syntax.Tree κ → Origin κ} {e : Syntax.Tree κ → Expr}
  {t : Syntax.Tree κ}

theorem of_origin (h : Lowers origin e) {o : Origin κ} (horigin : origin t = o) :
    Agrees e t (e t).kind o :=
  horigin ▸ h t

/-- The number of an expression is the one that its node denotes. -/
theorem int?_eq_some_iff (h : Lowers origin e) {v : Int} :
    (e t).kind.int? = some v ↔ Denotes origin t v := by
  constructor
  · intro hv
    induction t using Syntax.Tree.induction_within generalizing v with
    | step t ih =>
      cases horigin : origin t with
      | literal => exact .literal horigin ((h.of_origin horigin).1 ▸ hv)
      | part negated u =>
        obtain ⟨hmem, hkind⟩ := h.of_origin horigin
        rw [hkind] at hv
        cases negated with
        | false => exact .part horigin (ih u hmem u .self hv)
        | true =>
          rw [if_pos rfl, ExprKind.int?_negated] at hv
          obtain ⟨w, hw, rfl⟩ := Option.map_eq_some_iff.mp hv
          exact .part horigin (ih u hmem u .self hw)
      | nowhere =>
        rw [(h.of_origin horigin).1] at hv
        cases hv
  · intro hdenotes
    induction hdenotes with
    | literal horigin hv => exact (h.of_origin horigin).1.trans hv
    | @part t u negated v horigin _ ih =>
      rw [(h.of_origin horigin).2]
      cases negated with
      | false => exact ih
      | true => rw [if_pos rfl, if_pos rfl, ExprKind.int?_negated, ih, Option.map_some]

theorem kind_eq_int_iff (h : Lowers origin e) {v : Int} :
    (e t).kind = .int v ↔ Denotes origin t v :=
  (ExprKind.int?_eq_some_iff _).symm.trans h.int?_eq_some_iff

/-- The numbers that signs make of literals without signs. -/
theorem bounds (h : Lowers origin e) {v : Int} (hdenotes : Denotes origin t v)
    (ht : Unsigned origin t) : -(2 ^ 63 - 1) ≤ v ∧ v ≤ 2 ^ 63 - 1 := by
  induction hdenotes with
  | literal horigin hv =>
    have := intLiteral?_bounds hv (ht _ .self horigin)
    omega
  | part horigin _ ih =>
    have := ih (ht.of_within (.of_mem (h.of_origin horigin).1))
    split <;> omega

/-- The parts of an expression are the expressions of nodes below. -/
theorem exists_of_mem_parts (h : Lowers origin e) {a : Expr} (ha : a ∈ (e t).kind.parts) :
    ∃ u : Syntax.Tree κ, u.Within t ∧ a = e u := by
  induction t using Syntax.Tree.induction_within with
  | step t ih =>
    cases horigin : origin t with
    | literal =>
      rw [(h.of_origin horigin).2] at ha
      cases ha
    | part negated u =>
      obtain ⟨hmem, heq⟩ := h.of_origin horigin
      rw [heq] at ha
      cases negated with
      | false =>
        obtain ⟨w, hw, hwa⟩ := ih u hmem u .self ha
        exact ⟨w, .child hmem hw, hwa⟩
      | true =>
        rw [if_pos rfl, ExprKind.parts_negated] at ha
        cases ha
    | nowhere => exact (h.of_origin horigin).2 a ha

theorem exists_of_within (h : Lowers origin e) {a : Expr} (ha : a.Within (e t)) :
    ∃ u : Syntax.Tree κ, u.Within t ∧ a = e u := by
  have hpart {t : Syntax.Tree κ} {b : Expr} (hb : b ∈ (e t).kind.parts)
      (ih : ∀ {u}, e u = b → ∃ w : Syntax.Tree κ, w.Within u ∧ a = e w) :
      ∃ w : Syntax.Tree κ, w.Within t ∧ a = e w := by
    obtain ⟨u, hu, hbu⟩ := h.exists_of_mem_parts hb
    obtain ⟨w, hw, hwa⟩ := ih hbu.symm
    exact ⟨w, hw.trans hu, hwa⟩
  -- The induction is on how the part lies in the expression: its node may be any number of levels
  -- below the one of the expression that holds it.
  generalize hwhole : e t = whole at ha
  induction ha generalizing t with
  | self => exact ⟨t, .self, hwhole.symm⟩
  | argument hkind hb _ ih =>
    rw [← hwhole] at hkind
    exact hpart (by rwa [hkind]) ih
  | element hkind hb _ ih =>
    rw [← hwhole] at hkind
    exact hpart (by rwa [hkind]) ih

/-- All numbers in the expression of a node without signs in its literals. -/
theorem bounds_of_within (h : Lowers origin e) (ht : Unsigned origin t) {a : Expr} {v : Int}
    (ha : a.Within (e t)) (hkind : a.kind = .int v) : -(2 ^ 63 - 1) ≤ v ∧ v ≤ 2 ^ 63 - 1 := by
  obtain ⟨u, hu, rfl⟩ := h.exists_of_within ha
  exact h.bounds (h.kind_eq_int_iff.mp hkind) (ht.of_within hu)

end Lowers

/-- The negation of 64 bits is exact where the negated number has 64 bits. -/
theorem toInt_neg_ofInt {v : Int} (h : -(2 ^ 63 - 1) ≤ v ∧ v ≤ 2 ^ 63 - 1) :
    (-(Int64.ofInt v)).toInt = -v := by
  rw [← Int64.ofInt_neg]
  exact Int64.toInt_ofInt_of_le (by omega) (by omega)

end Source

open Source

/-! ## 3. Java -/

namespace Java

/-- Where a node has its number from. -/
def origin (t : Tree) : Origin Kind :=
  match t.kind with
  | .integerLiteral => .literal
  | .parenthesized => .ofPart false t.children.head?
  | .unary =>
    let operator := (t.textOf? .operator).getD ""
    if operator = "+" then .ofPart false (t.child? .operand)
    else if operator = "-" then .ofPart true (t.child? .operand)
    else .nowhere
  | .cast => .ofPart false (t.child? .value)
  | _ => .nowhere

/-- The kinds of the nodes that may have a number. -/
def numberKinds : List Kind := [.integerLiteral, .parenthesized, .unary, .cast]

theorem origin_of_not_mem {t : Tree} (h : t.kind ∉ numberKinds) : origin t = .nowhere := by
  unfold origin
  split <;> simp_all [numberKinds]

theorem fst_unaryExpr (operator : String) (operand : Option Expr) :
    (unaryExpr operator operand).1 =
      if operator = "+" then (operand.map (·.kind)).getD .other
      else if operator = "-" then (operand.map (·.kind.negated)).getD .other else .other := by
  unfold unaryExpr
  split
  · rfl
  · simp
  · rfl
  · next e => cases hkind : e.kind <;> simp [hkind, ExprKind.negated]
  · next hplus hminus => rw [if_neg hplus, if_neg hminus]

section

variable {s : Scopes} {t : Tree}

theorem kind_expr_integerLiteral (hkind : t.kind = .integerLiteral) :
    (expr s t).kind = (intExpr (intType t.text) t.text).1 := by
  rw [expr]
  simp only [hkind]

theorem kind_expr_parenthesized (hkind : t.kind = .parenthesized) :
    (expr s t).kind = (t.children.head?.map fun u => (expr s u).kind).getD .other := by
  rw [expr]
  simp only [hkind]
  split <;> next heq => rw [heq]; rfl

theorem kind_expr_unary (hkind : t.kind = .unary) :
    (expr s t).kind =
      (unaryExpr ((t.textOf? .operator).getD "") ((t.child? .operand).map (expr s))).1 := by
  rw [expr]
  simp only [hkind]
  split <;> next heq => rw [heq]; rfl

theorem kind_expr_cast (hkind : t.kind = .cast) :
    (expr s t).kind = ((t.child? .value).map fun u => (expr s u).kind).getD .other := by
  rw [expr]
  simp only [hkind]
  split <;> next heq => rw [heq]; rfl

/-- Any other node has no number, and the expressions in it are those of nodes below. -/
theorem agrees_expr_of_not_mem (h : t.kind ∉ numberKinds) :
    Agrees (expr s) t (expr s t).kind .nowhere := by
  rw [expr]
  dsimp only
  split
  case h_2 => exact agrees_floatExpr
  -- Calls and arrays.
  case h_12 =>
    split
    · next args hargs =>
      exact agrees_nowhere rfl (exprs_eq_map s _) fun u hu =>
        (Syntax.Tree.Within.of_mem hu).trans (.of_child? hargs)
    · exact agrees_leaf rfl rfl
  case h_14 =>
    split
    · next elements helements =>
      exact agrees_nowhere rfl (exprs_eq_map s _) fun u hu =>
        (Syntax.Tree.Within.of_mem hu).trans (.of_child? helements)
    · exact agrees_leaf rfl rfl
  case h_15 => exact agrees_nowhere rfl (exprs_eq_map s _) fun u hu => .of_mem hu
  -- Nodes that may have a number.
  case h_1 | h_8 | h_9 | h_16 => simp_all [numberKinds]
  all_goals exact agrees_leaf rfl rfl

theorem lowers_expr : Lowers origin (expr s) := by
  intro t
  by_cases hmem : t.kind ∈ numberKinds
  · simp only [numberKinds, List.mem_cons, List.not_mem_nil, or_false] at hmem
    unfold origin
    rcases hmem with hkind | hkind | hkind | hkind
    all_goals rw [hkind]
    · rw [kind_expr_integerLiteral hkind]
      exact agrees_intExpr _
    · exact agrees_ofPart (fun u => List.mem_of_head?) (kind_expr_parenthesized hkind)
    · have hoperand : ∀ u ∈ t.child? .operand, u ∈ t.children := fun u => Syntax.Tree.mem_of_child?
      dsimp only
      rw [kind_expr_unary hkind, fst_unaryExpr]
      simp only [Option.map_map]
      split
      · exact agrees_ofPart hoperand rfl
      · split
        · exact agrees_ofPart hoperand rfl
        · exact agrees_leaf rfl rfl
    · exact agrees_ofPart (fun u => Syntax.Tree.mem_of_child?) (kind_expr_cast hkind)
  · rw [origin_of_not_mem hmem]
    exact agrees_expr_of_not_mem hmem

end

end Java

/-! ## 4. Kotlin -/

namespace Kotlin

/-- Where a node has its number from. A plus sign is not looked through. -/
def origin (t : Tree) : Origin Kind :=
  match t.kind with
  | .integerLiteral | .longLiteral => .literal
  | .prefixExpression =>
    if Text.hasHead "-" t.text then .ofPart true (named t).getLast? else .nowhere
  | .parenthesizedExpression => .ofPart false (named t).head?
  | _ => .nowhere

/-- The kinds of the nodes that may have a number. -/
def numberKinds : List Kind :=
  [.integerLiteral, .longLiteral, .prefixExpression, .parenthesizedExpression]

theorem origin_of_not_mem {t : Tree} (h : t.kind ∉ numberKinds) : origin t = .nowhere := by
  unfold origin
  split <;> simp_all [numberKinds]

theorem fst_prefixExpr (negative : Bool) (operand : Option Expr) :
    (prefixExpr negative operand).1 =
      if negative then (operand.map (·.kind.negated)).getD .other else .other := by
  cases operand with
  | none => cases negative <;> rfl
  | some e =>
    cases negative with
    | false => rfl
    | true => cases hkind : e.kind <;> simp [prefixExpr, hkind, ExprKind.negated]

theorem exprs_eq_map (vs : Variables) (ts : List Tree) : exprs vs ts = ts.map (expr vs) := by
  induction ts with
  | nil => rw [exprs, List.map_nil]
  | cons t ts ih => rw [exprs, ih, List.map_cons]

theorem within_of_argumentNodes {suffix u : Tree} (h : u ∈ argumentNodes suffix) :
    u.Within suffix := by
  obtain ⟨a, ha, hu⟩ := List.mem_flatMap.mp h
  obtain ⟨list, hlist, ha⟩ := List.mem_flatMap.mp (List.mem_filter.mp ha).1
  have hlast : u ∈ named a := List.mem_of_getLast? (Option.mem_toList.mp hu)
  exact .child (mem_of_named (List.mem_filter.mp hlist).1)
    (.child (mem_of_named ha) (.of_mem (mem_of_named hlast)))

section

variable {vs : Variables} {t : Tree}

theorem kind_expr_literal (hkind : t.kind = .integerLiteral ∨ t.kind = .longLiteral) :
    Agrees (expr vs) t (expr vs t).kind .literal := by
  rw [expr]
  rcases hkind with hkind | hkind
  all_goals
    simp only [hkind]
    exact agrees_intExpr _

theorem kind_expr_prefixExpression (hkind : t.kind = .prefixExpression) :
    (expr vs t).kind =
      (prefixExpr (Text.hasHead "-" t.text) ((named t).getLast?.map (expr vs))).1 := by
  rw [expr]
  simp only [hkind]
  split <;> next heq => rw [heq]; rfl

theorem kind_expr_parenthesized (hkind : t.kind = .parenthesizedExpression) :
    (expr vs t).kind = ((named t).head?.map fun u => (expr vs u).kind).getD .other := by
  rw [expr]
  simp only [hkind]
  split <;> next heq => rw [heq]; rfl

/-- Any other node has no number, and the expressions in it are those of nodes below. -/
theorem agrees_expr_of_not_mem (h : t.kind ∉ numberKinds) :
    Agrees (expr vs) t (expr vs t).kind .nowhere := by
  rw [expr]
  dsimp only
  split
  case h_3 => exact agrees_floatExpr
  case h_9 => split <;> exact agrees_leaf rfl rfl
  case h_11 =>
    split
    · next parts hparts =>
      have harguments : ∀ u ∈ argumentNodes parts.suffix, u.Within t := fun u hu =>
        (within_of_argumentNodes hu).trans (.of_mem (mem_of_named (suffix_mem_named hparts)))
      unfold callExpr
      split <;> exact agrees_nowhere rfl (exprs_eq_map vs _) harguments
    · exact agrees_leaf rfl rfl
  case h_12 =>
    dsimp only
    split <;> exact agrees_leaf rfl rfl
  -- Nodes that may have a number.
  case h_1 | h_2 | h_7 | h_8 => simp_all [numberKinds]
  all_goals exact agrees_leaf rfl rfl

theorem lowers_expr : Lowers origin (expr vs) := by
  intro t
  by_cases hmem : t.kind ∈ numberKinds
  · simp only [numberKinds, List.mem_cons, List.not_mem_nil, or_false] at hmem
    unfold origin
    rcases hmem with hkind | hkind | hkind | hkind
    all_goals rw [hkind]
    · exact kind_expr_literal (.inl hkind)
    · exact kind_expr_literal (.inr hkind)
    · dsimp only
      rw [kind_expr_prefixExpression hkind, fst_prefixExpr, Option.map_map]
      split
      · exact agrees_ofPart (fun u hu => mem_of_named (List.mem_of_getLast? hu)) rfl
      · exact agrees_leaf rfl rfl
    · exact agrees_ofPart (fun u hu => mem_of_named (List.mem_of_head? hu))
        (kind_expr_parenthesized hkind)
  · rw [origin_of_not_mem hmem]
    exact agrees_expr_of_not_mem hmem

end

end Kotlin

/-! ## 5. Both languages -/

namespace Source

/-- **Every whole number in an expression can be negated in 64 bits.** In trees without signs in
    their literals the number of an expression is the one that its node denotes, and all numbers in
    it, also those in the arguments of calls and in arrays, are more than the smallest one. -/
theorem negations_exact :
    (∀ (s : Java.Scopes) (t : Java.Tree), Unsigned Java.origin t → ∀ u : Java.Tree, u.Within t →
      (∀ v, (Java.expr s u).kind = .int v ↔ Denotes Java.origin u v) ∧
      ∀ (a : Expr) (v : Int), a.Within (Java.expr s u) → a.kind = .int v →
        (-(2 ^ 63 - 1) ≤ v ∧ v ≤ 2 ^ 63 - 1) ∧ (-(Int64.ofInt v)).toInt = -v) ∧
    (∀ (vs : Kotlin.Variables) (t : Kotlin.Tree), Unsigned Kotlin.origin t →
      ∀ u : Kotlin.Tree, u.Within t →
      (∀ v, (Kotlin.expr vs u).kind = .int v ↔ Denotes Kotlin.origin u v) ∧
      ∀ (a : Expr) (v : Int), a.Within (Kotlin.expr vs u) → a.kind = .int v →
        (-(2 ^ 63 - 1) ≤ v ∧ v ≤ 2 ^ 63 - 1) ∧ (-(Int64.ofInt v)).toInt = -v) := by
  constructor
  · intro s t ht u hu
    refine ⟨fun v => Java.lowers_expr.kind_eq_int_iff, fun a v ha hkind => ?_⟩
    have hbounds := Java.lowers_expr.bounds_of_within (ht.of_within hu) ha hkind
    exact ⟨hbounds, toInt_neg_ofInt hbounds⟩
  · intro vs t ht u hu
    refine ⟨fun v => Kotlin.lowers_expr.kind_eq_int_iff, fun a v ha hkind => ?_⟩
    have hbounds := Kotlin.lowers_expr.bounds_of_within (ht.of_within hu) ha hkind
    exact ⟨hbounds, toInt_neg_ofInt hbounds⟩

-- With a sign behind its opening a literal may be the smallest number, which is its own negation.
example : intLiteral? "0x-8000000000000000" = some (-2 ^ 63) ∧
    (-(Int64.ofInt (-2 ^ 63))).toInt = -2 ^ 63 := by decide

/-- The node of `-(int)(-9223372036854775807L)`. -/
def castNegated : Java.Tree :=
  ⟨.unary, .value, ⟨15, 44⟩, "-(int)(-9223372036854775807L)", [
    ⟨.token, .operator, ⟨15, 16⟩, "-", []⟩,
    ⟨.cast, .operand, ⟨16, 44⟩, "(int)(-9223372036854775807L)", [
      ⟨.type, .type, ⟨17, 20⟩, "int", []⟩,
      ⟨.parenthesized, .value, ⟨21, 44⟩, "(-9223372036854775807L)", [
        ⟨.unary, .plain, ⟨22, 43⟩, "-9223372036854775807L", [
          ⟨.token, .operator, ⟨22, 23⟩, "-", []⟩,
          ⟨.integerLiteral, .operand, ⟨23, 43⟩, "9223372036854775807L", []⟩]⟩]⟩]⟩]⟩

/-- The node of `-0x7fff_ffff_ffff_ffff`. -/
def hexadecimalNegated : Kotlin.Tree :=
  ⟨.prefixExpression, .plain, ⟨8, 30⟩, "-0x7fff_ffff_ffff_ffff", [
    ⟨.token, .plain, ⟨8, 9⟩, "-", []⟩,
    ⟨.integerLiteral, .plain, ⟨9, 30⟩, "0x7fff_ffff_ffff_ffff", []⟩]⟩

theorem negations_exact_largest :
    (Unsigned Java.origin castNegated ∧ (Java.expr .empty castNegated).kind = .int (2 ^ 63 - 1) ∧
      (-(Int64.ofInt (2 ^ 63 - 1))).toInt = -(2 ^ 63 - 1)) ∧
    (Unsigned Kotlin.origin hexadecimalNegated ∧
      (Kotlin.expr [] hexadecimalNegated).kind = .int (-(2 ^ 63 - 1)) ∧
      (-(Int64.ofInt (-(2 ^ 63 - 1)))).toInt = 2 ^ 63 - 1) := by
  have hjava : Unsigned Java.origin castNegated := by
    intro u hu horigin
    rw [← Syntax.Tree.mem_preorder_iff] at hu
    simp only [castNegated, Syntax.Tree.preorder, Syntax.Tree.preorders, List.append_nil,
      List.cons_append, List.nil_append, List.mem_cons, List.not_mem_nil, or_false] at hu
    rcases hu with rfl | rfl | rfl | rfl | rfl | rfl | rfl | rfl <;> cases horigin
    decide
  have hkotlin : Unsigned Kotlin.origin hexadecimalNegated := by
    intro u hu horigin
    rw [← Syntax.Tree.mem_preorder_iff] at hu
    simp only [hexadecimalNegated, Syntax.Tree.preorder, Syntax.Tree.preorders, List.append_nil,
      List.cons_append, List.nil_append, List.mem_cons, List.not_mem_nil, or_false] at hu
    rcases hu with rfl | rfl | rfl <;> cases horigin
    decide
  have hkind : (Java.expr .empty castNegated).kind = .int (2 ^ 63 - 1) :=
    (ExprKind.int?_eq_some_iff _).mp (by decide +kernel)
  have hkind' : (Kotlin.expr [] hexadecimalNegated).kind = .int (-(2 ^ 63 - 1)) :=
    (ExprKind.int?_eq_some_iff _).mp (by decide +kernel)
  have hexact := (negations_exact.1 .empty castNegated hjava castNegated .self).2
  have hexact' := (negations_exact.2 [] hexadecimalNegated hkotlin hexadecimalNegated .self).2
  exact ⟨⟨hjava, hkind, (hexact _ _ .self hkind).2⟩, hkotlin, hkind', (hexact' _ _ .self hkind').2⟩

end Source

end AndroidLint
