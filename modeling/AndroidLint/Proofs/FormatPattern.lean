/-
  File:      AndroidLint/Proofs/FormatPattern.lean
  Subject:   The pattern of format directives, and that a directive is read as the pattern says.

  A pattern can match the head of a text in several ways. `Pattern.ways` lists them in the order in
  which a backtracking search tries them: a repetition takes as much as it can before it takes less,
  and an optional part is tried before it is left out. The match that a search answers with is the
  first of them (`Pattern.first`). The pattern of directives is

      %(\d+\$)?([-+#, 0(<]*)?(\d+)?(\.\d+)?([tT])?([a-zA-Z%])

  * `first_directivePattern`: the first way of this pattern is the directive that `Directive.read`
    reads, group by group; where no directive is read, the pattern does not match at all.
-/
import AndroidLint.Format.Directive
import Mathlib.Data.List.TakeWhile

namespace AndroidLint.Format

open AndroidLint.Text

/-! ## 1. Patterns -/

/-- A pattern over characters, as far as directives need it. -/
inductive Pattern where
  /-- One character of a class. -/
  | one (accepts : Char → Bool)
  /-- Characters of a class, as many as can be and then fewer. -/
  | many (accepts : Char → Bool)
  /-- The pattern, or else nothing. -/
  | maybe (p : Pattern)
  | seq (p q : Pattern)
  /-- The pattern, its characters kept under a number. -/
  | group (number : Nat) (p : Pattern)

namespace Pattern

/-- One way in which a pattern matches the head of a text. -/
structure Way where
  /-- The characters that it takes. -/
  taken : List Char
  /-- The groups that take part, in the order in which they begin. -/
  groups : List (Nat × List Char)
  /-- What follows the match. -/
  rest : List Char
  deriving DecidableEq, Repr

/-- The way with a match in front of it. -/
def Way.behind (taken : List Char) (groups : List (Nat × List Char)) (w : Way) : Way :=
  ⟨taken ++ w.taken, groups ++ w.groups, w.rest⟩

/-- The characters of a group, when it takes part. -/
def Way.group? (w : Way) (number : Nat) : Option (List Char) := w.groups.lookup number

/-- The ways to take characters of a class, the longest first. -/
def runs (accepts : Char → Bool) : List Char → List Way
  | [] => [⟨[], [], []⟩]
  | c :: cs =>
    if accepts c then (runs accepts cs).map (·.behind [c] []) ++ [⟨[], [], c :: cs⟩]
    else [⟨[], [], c :: cs⟩]

/-- All ways in which a pattern matches the head of a text, in the order in which they are tried. -/
def ways : Pattern → List Char → List Way
  | one _, [] => []
  | one accepts, c :: cs => if accepts c then [⟨[c], [], cs⟩] else []
  | many accepts, cs => runs accepts cs
  | maybe p, cs => ways p cs ++ [⟨[], [], cs⟩]
  | seq p q, cs => (ways p cs).flatMap fun w => (ways q w.rest).map (·.behind w.taken w.groups)
  | group n p, cs => (ways p cs).map fun w => ⟨w.taken, (n, w.taken) :: w.groups, w.rest⟩

/-- The match that a search answers with. -/
def first (p : Pattern) (cs : List Char) : Option Way := (p.ways cs).head?

/-- At least one character of a class. -/
def some1 (accepts : Char → Bool) : Pattern := seq (one accepts) (many accepts)

end Pattern

open Pattern

/-- The pattern of directives from the conversion on. -/
def conversionPattern : Pattern := group 6 (one Directive.isConversion)

/-- From the letter of a date on. -/
def datePattern : Pattern :=
  seq (maybe (group 5 (one fun c => c == 't' || c == 'T'))) conversionPattern

/-- From the precision on. -/
def precisionPattern : Pattern :=
  seq (maybe (group 4 (seq (one (· == '.')) (some1 isDigit)))) datePattern

/-- From the width on. -/
def widthPattern : Pattern := seq (maybe (group 3 (some1 isDigit))) precisionPattern

/-- From the flags on. -/
def flagsPattern : Pattern := seq (maybe (group 2 (many Directive.isFlag))) widthPattern

/-- From the argument number on. -/
def numberPattern : Pattern :=
  seq (maybe (group 1 (seq (some1 isDigit) (one (· == '$'))))) flagsPattern

/-- The pattern of directives. -/
def directivePattern : Pattern := seq (one (· == '%')) numberPattern

namespace Pattern

/-! ## 2. The first way of a composed pattern -/

@[simp] theorem Way.behind_nil (w : Way) : w.behind [] [] = w := rfl

theorem first_seq (p q : Pattern) (cs : List Char) :
    first (seq p q) cs =
      (p.ways cs).findSome? fun w => (first q w.rest).map (·.behind w.taken w.groups) := by
  simp only [first, ways, List.head?_flatMap, List.head?_map]

/-- What stands behind an optional part is tried behind the part first, and then without it. -/
theorem first_seq_maybe (p q : Pattern) (cs : List Char) :
    first (seq (maybe p) q) cs = (first (seq p q) cs).or (first q cs) := by
  rw [first_seq, first_seq]
  simp only [ways, List.findSome?_append, List.findSome?_cons, List.findSome?_nil]
  congr 1
  cases first q cs <;> rfl

/-- A run stops inside the longest one, of which it leaves a part that the class accepts. -/
theorem runs_append {accepts : Char → Bool} {cs : List Char} {w : Way} (h : w ∈ runs accepts cs) :
    ∃ v, (∀ c ∈ v, accepts c = true) ∧ cs.takeWhile accepts = w.taken ++ v ∧
      w = ⟨w.taken, [], v ++ cs.dropWhile accepts⟩ := by
  induction cs generalizing w with
  | nil =>
    rw [runs, List.mem_singleton] at h
    subst h
    exact ⟨[], by simp, rfl, rfl⟩
  | cons c cs ih =>
    by_cases hc : accepts c = true
    · rw [runs, if_pos hc, List.mem_append, List.mem_map, List.mem_singleton] at h
      rw [List.takeWhile_cons_of_pos hc, List.dropWhile_cons_of_pos hc]
      rcases h with ⟨w', hw', rfl⟩ | rfl
      · obtain ⟨v, hv, ht, he⟩ := ih hw'
        refine ⟨v, hv, by rw [ht]; rfl, ?_⟩
        rw [he]
        rfl
      · refine ⟨c :: cs.takeWhile accepts, ?_, rfl, ?_⟩
        · intro d hd
          rcases List.mem_cons.mp hd with rfl | hd
          · exact hc
          · exact List.mem_takeWhile_imp hd
        · rw [List.cons_append, List.takeWhile_append_dropWhile]
    · rw [runs, if_neg hc, List.mem_singleton] at h
      subst h
      rw [List.takeWhile_cons_of_neg hc, List.dropWhile_cons_of_neg hc]
      exact ⟨[], by simp, rfl, rfl⟩

/-- The longest run is tried first. -/
theorem runs_eq_cons (accepts : Char → Bool) (cs : List Char) :
    ∃ ws, runs accepts cs = ⟨cs.takeWhile accepts, [], cs.dropWhile accepts⟩ :: ws := by
  induction cs with
  | nil => exact ⟨[], rfl⟩
  | cons c cs ih =>
    by_cases hc : accepts c = true
    · obtain ⟨ws, hws⟩ := ih
      rw [runs, if_pos hc, hws, List.takeWhile_cons_of_pos hc, List.dropWhile_cons_of_pos hc]
      exact ⟨_, rfl⟩
    · rw [runs, if_neg hc, List.takeWhile_cons_of_neg hc, List.dropWhile_cons_of_neg hc]
      exact ⟨[], rfl⟩

/-- **A repetition takes as much as it can**, where taking less never helps what stands behind
    it. -/
theorem findSome?_runs {β : Type} (accepts : Char → Bool) (cs : List Char) (f : Way → Option β)
    (h : f ⟨cs.takeWhile accepts, [], cs.dropWhile accepts⟩ = none →
      ∀ u c v, (∀ d ∈ c :: v, accepts d = true) →
        f ⟨u, [], c :: (v ++ cs.dropWhile accepts)⟩ = none) :
    (runs accepts cs).findSome? f = f ⟨cs.takeWhile accepts, [], cs.dropWhile accepts⟩ := by
  cases hf : f ⟨cs.takeWhile accepts, [], cs.dropWhile accepts⟩ with
  | none =>
    rw [List.findSome?_eq_none_iff]
    intro w hw
    obtain ⟨v, hv, ht, he⟩ := runs_append hw
    rw [he]
    cases v with
    | nil => rw [ht, List.append_nil] at hf; exact hf
    | cons c v => exact h hf w.taken c v hv
  | some b =>
    obtain ⟨ws, hws⟩ := runs_eq_cons accepts cs
    rw [hws, List.findSome?_cons, hf]

/-- At least one character, as many as can be, where what stands behind does not begin with a
    character of the class. -/
theorem findSome?_ways_some1 {β : Type} (accepts : Char → Bool) (cs : List Char)
    (f : Way → Option β) (h : ∀ u c v, accepts c = true → f ⟨u, [], c :: v⟩ = none) :
    ((some1 accepts).ways cs).findSome? f =
      if cs.takeWhile accepts = [] then none
      else f ⟨cs.takeWhile accepts, [], cs.dropWhile accepts⟩ := by
  cases cs with
  | nil => rfl
  | cons c cs =>
    by_cases hc : accepts c = true
    · simp only [some1, ways, if_pos hc, List.flatMap_cons, List.flatMap_nil, List.append_nil,
        List.findSome?_map, List.takeWhile_cons_of_pos hc, List.dropWhile_cons_of_pos hc,
        reduceCtorEq, if_false]
      exact findSome?_runs accepts cs _ fun _ u d v hv => h _ d _ (hv d List.mem_cons_self)
    · simp [some1, ways, hc]

theorem findSome?_ways_seq {β : Type} (p q : Pattern) (cs : List Char) (f : Way → Option β) :
    ((seq p q).ways cs).findSome? f =
      (p.ways cs).findSome? fun w =>
        (q.ways w.rest).findSome? fun v => f (v.behind w.taken w.groups) := by
  simp only [ways, ← List.head?_filterMap, List.filterMap_flatMap, List.head?_flatMap,
    List.filterMap_map]
  rfl

end Pattern

/-! ## 3. Classes of characters that exclude each other -/

namespace Directive

theorem toNat_of_isConversion {c : Char} (h : isConversion c = true) :
    65 ≤ c.toNat ∧ c.toNat ≤ 122 ∨ c.toNat = 37 := by
  have hclass : (decide (c.val ≥ 'A'.val ∧ c.val ≤ 'Z'.val) ||
      decide (c.val ≥ 'a'.val) && decide (c.val ≤ 'z'.val) || c == '%') = true := h
  simp only [Bool.or_eq_true, Bool.and_eq_true, decide_eq_true_eq, beq_iff_eq, ge_iff_le,
    UInt32.le_iff_toNat_le] at hclass
  rcases hclass with (⟨h1, h2⟩ | ⟨h1, h2⟩) | rfl
  · exact Or.inl ⟨h1, h2.trans (by decide)⟩
  · exact Or.inl ⟨Nat.le_trans (by decide) h1, h2⟩
  · exact Or.inr rfl

theorem toNat_of_isDigit {c : Char} (h : isDigit c = true) :
    48 ≤ c.toNat ∧ c.toNat ≤ 57 ∨ 128 ≤ c.toNat := by
  simp only [isDigit, Char.isDigit, Bool.or_eq_true, Bool.and_eq_true, decide_eq_true_eq,
    ge_iff_le, UInt32.le_iff_toNat_le] at h
  rcases h with ⟨h1, h2⟩ | ⟨h1, _⟩
  · exact Or.inl ⟨h1, h2⟩
  · exact Or.inr h1

theorem isConversion_eq_false_of_isDigit {c : Char} (h : isDigit c = true) :
    isConversion c = false := by
  by_contra hc
  have h1 := toNat_of_isDigit h
  have h2 := toNat_of_isConversion (Bool.not_eq_false _ ▸ hc)
  omega

theorem isConversion_eq_false_of_isFlag {c : Char} (h : isFlag c = true) :
    isConversion c = false := by
  have hf := List.contains_iff_mem.mp h
  simp only [List.mem_cons, List.not_mem_nil, or_false] at hf
  rcases hf with rfl | rfl | rfl | rfl | rfl | rfl | rfl | rfl <;> decide

theorem ne_point_of_isDigit {c : Char} (h : isDigit c = true) : c ≠ '.' := by
  rintro rfl
  revert h
  decide

theorem ne_point_of_isFlag {c : Char} (h : isFlag c = true) : c ≠ '.' := by
  rintro rfl
  revert h
  decide

end Directive

/-! ## 4. The parts of a directive, from the last to the first -/

open Directive

/-- A group that takes part when it has a character. -/
def keptGroup (number : Nat) (taken : List Char) : List (Nat × List Char) :=
  if taken = [] then [] else [(number, taken)]

theorem first_conversionPattern (cs : List Char) :
    first conversionPattern cs =
      match cs with
      | [] => none
      | c :: rest => if isConversion c then some ⟨[c], [(6, [c])], rest⟩ else none := by
  cases cs with
  | nil => rfl
  | cons c rest => by_cases hc : isConversion c = true <;> simp [first, conversionPattern, ways, hc]

/-- The date letter counts as one only where a conversion follows it. -/
theorem first_datePattern (cs : List Char) :
    first datePattern cs =
      (readConversion cs).map fun r =>
        ⟨r.1.toList ++ [r.2.1], r.1.toList.map (fun t => (5, [t])) ++ [(6, [r.2.1])], r.2.2⟩ := by
  rw [datePattern, first_seq_maybe, first_seq]
  match cs with
  | [] => rfl
  | [c] =>
    by_cases hd : (c == 't' || c == 'T') = true <;> by_cases hc : isConversion c = true <;>
      simp [ways, first_conversionPattern, readConversion, hd, hc]
  | t :: c :: rest =>
    by_cases hd : (t = 't' ∨ t = 'T') <;> by_cases hc : isConversion c = true <;>
      by_cases ht : isConversion t = true <;>
      simp [ways, first_conversionPattern, readConversion, hd, hc, ht, Way.behind]

theorem first_datePattern_cons_eq_none {c : Char} {cs : List Char} (hc : isConversion c = false) :
    first datePattern (c :: cs) = none := by
  rw [first_datePattern]
  have ht : ¬ (c = 't' ∨ c = 'T') := by
    rintro (rfl | rfl) <;> revert hc <;> decide
  cases cs <;> simp [readConversion, hc, ht]

/-- The characters of a precision with its point. -/
def pointed (precision : List Char) : List Char :=
  if precision.isEmpty then [] else '.' :: precision

theorem readPrecision_cons_of_ne {c : Char} (hc : c ≠ '.') (cs : List Char) :
    readPrecision (c :: cs) = ([], c :: cs) := by
  unfold readPrecision
  split
  · rename_i h
    cases h
    exact absurd rfl hc
  · rfl

theorem first_precisionPattern (cs : List Char) :
    first precisionPattern cs =
      (first datePattern (readPrecision cs).2).map
        (·.behind (pointed (readPrecision cs).1) (keptGroup 4 (pointed (readPrecision cs).1))) := by
  rw [precisionPattern, first_seq_maybe, first_seq]
  simp only [ways, List.findSome?_map]
  cases cs with
  | nil => rfl
  | cons c cs =>
    by_cases hc : c = '.'
    · subst hc
      have hd : first datePattern ('.' :: cs) = none := first_datePattern_cons_eq_none (by decide)
      simp only [ways, beq_self_eq_true, if_true, List.flatMap_cons, List.flatMap_nil,
        List.append_nil, List.findSome?_map, hd, Option.or_none]
      rw [findSome?_ways_some1]
      · cases hw : cs.takeWhile isDigit with
        | nil => simp [readPrecision, hw, pointed, keptGroup, hd]
        | cons d ds => simp [readPrecision, hw, pointed, keptGroup, Way.behind]
      · intro u d v hdigit
        simp [Way.behind, first_datePattern_cons_eq_none (isConversion_eq_false_of_isDigit hdigit)]
    · simp [ways, hc, readPrecision_cons_of_ne hc, pointed, keptGroup]

theorem first_precisionPattern_cons_eq_none {c : Char} {cs : List Char}
    (hc : isConversion c = false) (hp : c ≠ '.') : first precisionPattern (c :: cs) = none := by
  rw [first_precisionPattern, readPrecision_cons_of_ne hp, first_datePattern_cons_eq_none hc]
  rfl

theorem first_widthPattern (cs : List Char) :
    first widthPattern cs =
      (first precisionPattern (cs.dropWhile isDigit)).map
        (·.behind (cs.takeWhile isDigit) (keptGroup 3 (cs.takeWhile isDigit))) := by
  have hdigit : ∀ c v, isDigit c = true → first precisionPattern (c :: v) = none :=
    fun c v hc => first_precisionPattern_cons_eq_none (isConversion_eq_false_of_isDigit hc)
      (ne_point_of_isDigit hc)
  rw [widthPattern, first_seq_maybe, first_seq]
  simp only [ways, List.findSome?_map]
  rw [findSome?_ways_some1 _ _ _ fun u c v hc => by simp [hdigit c v hc]]
  cases cs with
  | nil => simp [keptGroup]
  | cons c cs =>
    by_cases hc : isDigit c = true
    · simp [hc, hdigit c cs hc, keptGroup]
    · simp [hc, keptGroup]

/-- Where a width does not match, it does not match behind a flag left out either: a flag is no
    conversion and no point, and a flag zero is a digit that the width takes. -/
theorem first_widthPattern_append_eq_none {v r : List Char} (hv : ∀ d ∈ v, isFlag d = true)
    (h : first widthPattern r = none) : first widthPattern (v ++ r) = none := by
  induction v with
  | nil => exact h
  | cons d v ih =>
    have hd := hv d List.mem_cons_self
    by_cases hz : isDigit d = true
    · have := ih fun e he => hv e (List.mem_cons_of_mem _ he)
      rw [first_widthPattern, Option.map_eq_none_iff] at this ⊢
      rw [List.cons_append, List.dropWhile_cons_of_pos hz]
      exact this
    · rw [first_widthPattern, Option.map_eq_none_iff, List.cons_append,
        List.dropWhile_cons_of_neg hz]
      exact first_precisionPattern_cons_eq_none (isConversion_eq_false_of_isFlag hd)
        (ne_point_of_isFlag hd)

theorem first_flagsPattern (cs : List Char) :
    first flagsPattern cs =
      (first widthPattern (cs.dropWhile isFlag)).map
        (·.behind (cs.takeWhile isFlag) [(2, cs.takeWhile isFlag)]) := by
  rw [flagsPattern, first_seq_maybe, first_seq]
  simp only [ways, List.findSome?_map]
  rw [findSome?_runs]
  · cases hw : first widthPattern (cs.dropWhile isFlag) with
    | some w => simp [hw]
    | none =>
      have hcs := first_widthPattern_append_eq_none
        (fun d hd => List.mem_takeWhile_imp (p := isFlag) (l := cs) hd) hw
      rw [List.takeWhile_append_dropWhile] at hcs
      simp [hw, hcs]
  · intro hn u c v hv
    simp only [Function.comp_apply, Option.map_eq_none_iff] at hn ⊢
    exact first_widthPattern_append_eq_none hv hn

/-- Digits that run up to a dollar sign are nothing but the number. -/
theorem first_flagsPattern_digits_eq_none {ds : List Char} (hds : ∀ d ∈ ds, isDigit d = true)
    (rest : List Char) : first flagsPattern (ds ++ '$' :: rest) = none := by
  have hdollar : first precisionPattern ('$' :: rest) = none :=
    first_precisionPattern_cons_eq_none (by decide) (by decide)
  rw [first_flagsPattern, Option.map_eq_none_iff]
  induction ds with
  | nil =>
    rw [List.nil_append, List.dropWhile_cons_of_neg (by decide), first_widthPattern,
      List.dropWhile_cons_of_neg (by decide), hdollar]
    rfl
  | cons d ds ih =>
    by_cases hf : isFlag d = true
    · rw [List.cons_append, List.dropWhile_cons_of_pos hf]
      exact ih fun e he => hds e (List.mem_cons_of_mem _ he)
    · rw [List.cons_append, List.dropWhile_cons_of_neg hf, first_widthPattern,
        ← List.cons_append, List.dropWhile_append_of_pos hds,
        List.dropWhile_cons_of_neg (by decide), hdollar]
      rfl

/-- The characters of a written number with its dollar sign. -/
def dollared (number : Option (List Char)) : List Char :=
  match number with
  | none => []
  | some n => n ++ ['$']

theorem readNumber_dollar {cs ds rest : List Char} (hds : ds ≠ []) (ht : cs.takeWhile isDigit = ds)
    (hr : cs.dropWhile isDigit = '$' :: rest) : readNumber cs = (some ds, rest) := by
  cases ds with
  | nil => exact absurd rfl hds
  | cons d ds => simp [readNumber, ht, hr]

theorem readNumber_of_none {cs : List Char}
    (h : cs.takeWhile isDigit = [] ∨ ∀ rest, cs.dropWhile isDigit ≠ '$' :: rest) :
    readNumber cs = (none, cs) := by
  unfold readNumber
  simp only
  split
  · rename_i hd hr
    rcases h with h | h
    · rw [h] at hd; cases hd
    · exact absurd hr (h _)
  · rfl

theorem first_numberPattern (cs : List Char) :
    first numberPattern cs =
      (first flagsPattern (readNumber cs).2).map
        (·.behind (dollared (readNumber cs).1) (keptGroup 1 (dollared (readNumber cs).1))) := by
  have hdigit : ∀ c v, isDigit c = true → (one (· == '$')).ways (c :: v) = [] := by
    intro c v hc
    have : c ≠ '$' := by rintro rfl; revert hc; decide
    simp [ways, this]
  rw [numberPattern, first_seq_maybe, first_seq, ways, List.findSome?_map, findSome?_ways_seq,
    findSome?_ways_some1 _ _ _ fun u c v hc => by simp [hdigit c v hc]]
  cases ht : cs.takeWhile isDigit with
  | nil => simp [readNumber_of_none (Or.inl ht), dollared, keptGroup]
  | cons d ds =>
    by_cases hr : ∃ rest, cs.dropWhile isDigit = '$' :: rest
    · obtain ⟨rest, hr⟩ := hr
      have hcs : cs = (d :: ds) ++ '$' :: rest := by
        rw [← ht, ← hr, List.takeWhile_append_dropWhile]
      have hnone : first flagsPattern cs = none := by
        rw [hcs]
        exact first_flagsPattern_digits_eq_none
          (fun e he => List.mem_takeWhile_imp (l := cs) (ht ▸ he)) rest
      rw [readNumber_dollar (List.cons_ne_nil d ds) ht hr, hr, hnone]
      simp [ways, dollared, keptGroup, Way.behind]
    · have hr' : ∀ rest, cs.dropWhile isDigit ≠ '$' :: rest := fun rest h => hr ⟨rest, h⟩
      have hways : (one (· == '$')).ways (cs.dropWhile isDigit) = [] := by
        cases hd : cs.dropWhile isDigit with
        | nil => rfl
        | cons e es =>
          have : e ≠ '$' := fun h => hr' es (h ▸ hd)
          simp [ways, this]
      simp [readNumber_of_none (Or.inr hr'), hways, dollared, keptGroup]

/-! ## 5. The whole directive -/

namespace Directive

/-- The groups of the pattern that take part in a directive. -/
def groups (d : Directive) : List (Nat × List Char) :=
  keptGroup 1 (dollared d.number) ++ [(2, d.flags)] ++ keptGroup 3 d.fieldWidth ++
    keptGroup 4 (pointed d.precision) ++ d.date.toList.map (fun t => (5, [t])) ++
    [(6, [d.conversion])]

theorem written_eq (d : Directive) :
    d.written = '%' :: (dollared d.number ++ d.flags ++ d.fieldWidth ++ pointed d.precision ++
      d.date.toList ++ [d.conversion]) := by
  obtain ⟨number, flags, fieldWidth, precision, date, conversion⟩ := d
  cases number <;> cases date <;> rfl

/-- The match of the pattern that a directive and the text behind it are. -/
def way (d : Directive) (rest : List Char) : Way := ⟨d.written, d.groups, rest⟩

/-- The directive whose parts are the groups of a match. -/
def ofWay (w : Way) : Directive where
  number := (w.group? 1).map List.dropLast
  flags := (w.group? 2).getD []
  fieldWidth := (w.group? 3).getD []
  precision := ((w.group? 4).map List.tail).getD []
  date := (w.group? 5).bind List.head?
  conversion := ((w.group? 6).bind List.head?).getD '%'

/-- Every part of a directive can be told from the groups. -/
theorem ofWay_way (d : Directive) (rest : List Char) : ofWay (d.way rest) = d := by
  obtain ⟨number, flags, fieldWidth, precision, date, conversion⟩ := d
  have hn : (keptGroup 1 (dollared number)).lookup 1 =
      number.map (· ++ ['$']) := by
    cases number <;> simp [keptGroup, dollared]
  have hw : ((keptGroup 3 fieldWidth).lookup 3).getD [] = fieldWidth := by
    by_cases h : fieldWidth = [] <;> simp [keptGroup, h]
  have hp : (((keptGroup 4 (pointed precision)).lookup 4).map List.tail).getD [] = precision := by
    cases precision <;> simp [keptGroup, pointed]
  have hd : ((date.toList.map fun t => (5, [t])).lookup 5).bind List.head? = date := by
    cases date <;> simp
  have hskip : ∀ n m l, n ≠ m → (keptGroup n l).lookup m = none := by
    intro n m l hnm
    by_cases h : l = [] <;> simp [keptGroup, h, List.lookup_cons, beq_false_of_ne hnm.symm]
  have hdskip : ∀ m, 5 ≠ m → (date.toList.map fun t => (5, [t])).lookup m = none := by
    intro m hm
    cases date <;> simp [List.lookup_cons, beq_false_of_ne hm.symm]
  simp [ofWay, way, groups, Way.group?, List.lookup_append, List.lookup_cons, hskip, hdskip, hn,
    hw, hp, hd]
  cases number <;> simp

end Directive

/-- **The first way of the pattern is the directive that is read**; where none is read, the pattern
    does not match. -/
theorem first_directivePattern (cs : List Char) :
    first directivePattern cs = (Directive.read cs).map fun r => r.1.way r.2 := by
  rw [directivePattern, first_seq]
  cases cs with
  | nil => rfl
  | cons c cs =>
    by_cases hc : c = '%'
    · subst hc
      simp only [ways, beq_self_eq_true, if_true, List.findSome?_cons, List.findSome?_nil,
        first_numberPattern, first_flagsPattern, first_widthPattern, first_precisionPattern,
        first_datePattern, Option.map_map, Directive.read, Option.bind_eq_bind, Option.pure_def]
      generalize readPrecision (((readNumber cs).2.dropWhile isFlag).dropWhile isDigit) = p
      cases readConversion p.2 with
      | none => rfl
      | some r => simp [Way.behind, way, written_eq, groups]
    · simp [ways, hc, Directive.read]

/-! ## 6. The characters of a match -/

namespace Pattern

/-- Every way takes the head of the text and leaves the rest. -/
theorem taken_append_rest {p : Pattern} {cs : List Char} {w : Way} (h : w ∈ p.ways cs) :
    w.taken ++ w.rest = cs := by
  induction p generalizing cs w with
  | one accepts =>
    cases cs with
    | nil => simp [ways] at h
    | cons c cs =>
      by_cases hc : accepts c = true
      · simp only [ways, if_pos hc, List.mem_singleton] at h
        subst h
        rfl
      · simp [ways, hc] at h
  | many accepts =>
    obtain ⟨v, _, ht, he⟩ := runs_append h
    rw [he, ← List.append_assoc, ← ht, List.takeWhile_append_dropWhile]
  | maybe p ih =>
    simp only [ways, List.mem_append, List.mem_singleton] at h
    rcases h with h | rfl
    · exact ih h
    · rfl
  | seq p q ihp ihq =>
    simp only [ways, List.mem_flatMap, List.mem_map] at h
    obtain ⟨u, hu, v, hv, rfl⟩ := h
    show u.taken ++ v.taken ++ v.rest = cs
    rw [List.append_assoc, ihq hv, ihp hu]
  | group n p ih =>
    simp only [ways, List.mem_map] at h
    obtain ⟨u, hu, rfl⟩ := h
    show u.taken ++ u.rest = cs
    exact ih hu

/-- Whether some class of a pattern holds a character. -/
def uses (c : Char) : Pattern → Bool
  | one accepts => accepts c
  | many accepts => accepts c
  | maybe p => p.uses c
  | seq p q => p.uses c || q.uses c
  | group _ p => p.uses c

/-- A match takes no character that the pattern does not use. -/
theorem uses_of_mem_taken {p : Pattern} {cs : List Char} {w : Way} (h : w ∈ p.ways cs) {c : Char}
    (hc : c ∈ w.taken) : p.uses c = true := by
  induction p generalizing cs w with
  | one accepts =>
    cases cs with
    | nil => simp [ways] at h
    | cons d cs =>
      by_cases hd : accepts d = true
      · simp only [ways, if_pos hd, List.mem_singleton] at h
        subst h
        rw [List.mem_singleton.mp hc]
        exact hd
      · simp [ways, hd] at h
  | many accepts =>
    obtain ⟨v, _, ht, _⟩ := runs_append h
    have hmem : c ∈ cs.takeWhile accepts := ht ▸ List.mem_append_left v hc
    show accepts c = true
    exact List.mem_takeWhile_imp hmem
  | maybe p ih =>
    simp only [ways, List.mem_append, List.mem_singleton] at h
    rcases h with h | rfl
    · exact ih h hc
    · cases hc
  | seq p q ihp ihq =>
    simp only [ways, List.mem_flatMap, List.mem_map] at h
    obtain ⟨u, hu, v, hv, rfl⟩ := h
    rw [uses, Bool.or_eq_true]
    rcases List.mem_append.mp hc with hc | hc
    · exact Or.inl (ihp hu hc)
    · exact Or.inr (ihq hv hc)
  | group n p ih =>
    simp only [ways, List.mem_map] at h
    obtain ⟨u, hu, rfl⟩ := h
    exact ih hu hc

end Pattern

namespace Directive

theorem way_mem_ways {cs rest : List Char} {d : Directive} (h : read cs = some (d, rest)) :
    d.way rest ∈ directivePattern.ways cs := by
  have hf : directivePattern.first cs = some (d.way rest) := by
    rw [first_directivePattern, h]
    rfl
  exact List.mem_of_head? hf

/-- A directive is read from the characters it is written with. -/
theorem written_append_of_read {cs rest : List Char} {d : Directive}
    (h : read cs = some (d, rest)) : d.written ++ rest = cs :=
  Pattern.taken_append_rest (way_mem_ways h)

/-- A directive begins with the percent sign. -/
theorem eq_cons_of_read {cs : List Char} {r : Directive × List Char} (h : read cs = some r) :
    ∃ t, cs = '%' :: t := by
  have hw : r.1.written ++ r.2 = cs := written_append_of_read h
  exact ⟨_, hw.symm⟩

/-- There is no backslash in a directive. -/
theorem ne_backslash_of_mem_written {cs rest : List Char} {d : Directive}
    (h : read cs = some (d, rest)) {c : Char} (hc : c ∈ d.written) : c ≠ '\\' := by
  rintro rfl
  have := Pattern.uses_of_mem_taken (way_mem_ways h) hc
  revert this
  decide

end Directive

end AndroidLint.Format
