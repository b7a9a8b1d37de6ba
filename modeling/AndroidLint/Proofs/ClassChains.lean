/-
  File:      AndroidLint/Proofs/ClassChains.lean
  Subject:   The superclasses of a class, and the methods that are found among them.

  The superclasses of a class are found by climbing: round after round, the superclass of the class
  reached last is added, until there is none or its name is there already. Names can lead anywhere
  in a project, also back to a class that was passed. What bounds the climb is that every class it
  adds has a name of the project that was not there before:

  * `Climbed.climb?`:       what a round keeps;
  * `climbed_of_rounds`, `Climbed.rounds`:  the chains that climb are those that are reached;
  * `Climbed.length_le`:    no chain has more classes than the project has names, but for the first;
  * `hierarchy_isReached`:  the climb ends, with the superclasses of the class;
  * `hierarchy_climbed`:    which chain this is, and the method that is found in it.
-/
import AndroidLint.Proofs.ClassNames
import Mathlib.Data.List.Chain
import Mathlib.Data.List.Dedup
import Mathlib.Data.List.Induction
import Mathlib.Data.List.Perm.Subperm

namespace AndroidLint.Source

namespace Sources

/-! ## 1. One round -/

/-- The superclass that a class names means another class, in the file that declares the first. -/
def Extends (s : Sources) (d e : ClassDecl) : Prop :=
  ∃ name, d.superclass = some name ∧ s.find? name (s.unitOf? d) = some e

theorem superclass?_eq_some_iff {s : Sources} {d e : ClassDecl} :
    s.superclass? d = some e ↔ s.Extends d e := by
  rw [superclass?, Option.bind_eq_bind, Option.bind_eq_some_iff]
  rfl

/-- One round of the climb: the superclass of the last class is added, unless the chain has a class
    of its name. -/
def climb? (s : Sources) (chain : List ClassDecl) : Option (List ClassDecl) := do
  let current ← chain.getLast?
  let name ← current.superclass
  let next ← s.find? name (s.unitOf? current)
  if chain.any (·.qualifiedName == next.qualifiedName) then none else some (chain ++ [next])

/-- The qualified names of the classes of a chain. -/
def namesOf (chain : List ClassDecl) : List String := chain.map (·.qualifiedName)

/-- There is no way on from a class: it has no superclass, the superclass is not of the project, or
    its name is one of those that were passed. -/
def Halts (s : Sources) (passed : List String) (d : ClassDecl) : Prop :=
  d.superclass = none ∨
    ∃ name, d.superclass = some name ∧
      (s.find? name (s.unitOf? d) = none ∨
        ∃ e, s.find? name (s.unitOf? d) = some e ∧ e.qualifiedName ∈ passed)

theorem climb?_append (s : Sources) (front : List ClassDecl) (d : ClassDecl) :
    s.climb? (front ++ [d]) = (s.superclass? d).bind fun e =>
      if e.qualifiedName ∈ namesOf (front ++ [d]) then none else some (front ++ [d] ++ [e]) := by
  have hany (e : ClassDecl) :
      ((front ++ [d]).any (·.qualifiedName == e.qualifiedName) = true) =
        (e.qualifiedName ∈ namesOf (front ++ [d])) := by
    simp only [List.any_eq_true, beq_iff_eq, namesOf, List.mem_map]
  simp only [climb?, List.getLast?_concat, superclass?, Option.bind_eq_bind, Option.bind_some,
    Option.bind_assoc, hany]

theorem climb?_eq_some_iff {s : Sources} {front chain : List ClassDecl} {d : ClassDecl} :
    s.climb? (front ++ [d]) = some chain ↔
      ∃ e, s.Extends d e ∧ e.qualifiedName ∉ namesOf (front ++ [d]) ∧
        chain = front ++ [d] ++ [e] := by
  simp only [climb?_append, Option.bind_eq_some_iff, superclass?_eq_some_iff]
  refine exists_congr fun e => and_congr_right fun _ => ?_
  split
  · next hpassed => simp [hpassed]
  · next hnew => simp [hnew, eq_comm]

theorem climb?_eq_none_iff {s : Sources} {front : List ClassDecl} {d : ClassDecl} :
    s.climb? (front ++ [d]) = none ↔ s.Halts (namesOf (front ++ [d])) d := by
  rw [climb?_append, superclass?, Halts, Option.bind_eq_bind]
  cases d.superclass with
  | none => simp
  | some name =>
    cases hfind : s.find? name (s.unitOf? d) with
    | none => simp [hfind]
    | some e => simp [hfind]

/-! ## 2. What a climb keeps -/

/-- A chain that climbs from a class: no name comes twice, and every class extends the one before
    it. -/
structure Climbed (s : Sources) (c : ClassDecl) (chain : List ClassDecl) : Prop where
  head : chain.head? = some c
  distinct : (namesOf chain).Nodup
  linked : chain.IsChain s.Extends

theorem climbed_singleton (s : Sources) (c : ClassDecl) : s.Climbed c [c] :=
  ⟨rfl, List.nodup_singleton _, List.isChain_singleton c⟩

theorem climbed_append_iff {s : Sources} {c d e : ClassDecl} {front : List ClassDecl} :
    s.Climbed c (front ++ [d] ++ [e]) ↔
      s.Climbed c (front ++ [d]) ∧ s.Extends d e ∧
        e.qualifiedName ∉ namesOf (front ++ [d]) := by
  have hhead : (front ++ [d] ++ [e]).head? = (front ++ [d]).head? := by
    cases front <;> rfl
  have hdistinct : (namesOf (front ++ [d] ++ [e])).Nodup ↔
      (namesOf (front ++ [d])).Nodup ∧ e.qualifiedName ∉ namesOf (front ++ [d]) := by
    rw [namesOf, List.map_append, List.map_singleton, ← List.concat_eq_append, List.nodup_concat,
      and_comm]
    rfl
  have hlinked : (front ++ [d] ++ [e]).IsChain s.Extends ↔
      (front ++ [d]).IsChain s.Extends ∧ s.Extends d e := by
    rw [List.append_assoc, List.singleton_append, List.isChain_append_cons_cons]
    simp
  constructor
  · rintro ⟨h, hd, hl⟩
    exact ⟨⟨hhead ▸ h, (hdistinct.mp hd).1, (hlinked.mp hl).1⟩, (hlinked.mp hl).2,
      (hdistinct.mp hd).2⟩
  · rintro ⟨⟨h, hd, hl⟩, hextends, hnew⟩
    exact ⟨hhead.trans h, hdistinct.mpr ⟨hd, hnew⟩, hlinked.mpr ⟨hl, hextends⟩⟩

theorem Climbed.eq_append {s : Sources} {c : ClassDecl} {chain : List ClassDecl}
    (h : s.Climbed c chain) : ∃ front d, chain = front ++ [d] := by
  rcases List.eq_nil_or_concat chain with rfl | ⟨front, d, rfl⟩
  · cases h.head
  · exact ⟨front, d, List.concat_eq_append⟩

/-- **A round adds one class and keeps the chain climbing.** -/
theorem Climbed.climb? {s : Sources} {c : ClassDecl} {chain chain' : List ClassDecl}
    (h : s.Climbed c chain) (hround : s.climb? chain = some chain') :
    s.Climbed c chain' ∧ chain'.length = chain.length + 1 := by
  obtain ⟨front, d, rfl⟩ := h.eq_append
  obtain ⟨e, hextends, hnew, rfl⟩ := climb?_eq_some_iff.mp hround
  exact ⟨climbed_append_iff.mpr ⟨h, hextends, hnew⟩, List.length_append⟩

/-- Every class of a linked chain but the first is extended by another one. -/
theorem exists_extends_of_isChain {s : Sources} {a e : ClassDecl} {chain : List ClassDecl}
    (h : (a :: chain).IsChain s.Extends) (he : e ∈ chain) : ∃ d, s.Extends d e := by
  induction chain generalizing a with
  | nil => cases he
  | cons b chain ih =>
    obtain ⟨hextends, hlinked⟩ := List.isChain_cons_cons.mp h
    rcases List.mem_cons.mp he with rfl | he
    · exact ⟨a, hextends⟩
    · exact ih hlinked he

/-- **A climbing chain has no more classes than the project has names, but for its first.** -/
theorem Climbed.length_le {s : Sources} {c : ClassDecl} {chain : List ClassDecl}
    (h : s.Climbed c chain) : chain.length ≤ s.qualifiedNames.dedup.length + 1 := by
  cases chain with
  | nil => exact Nat.zero_le _
  | cons a chain =>
    have hnames : namesOf chain ⊆ s.qualifiedNames.dedup := by
      intro q hq
      obtain ⟨e, he, rfl⟩ := List.mem_map.mp hq
      obtain ⟨d, name, _, hfind⟩ := exists_extends_of_isChain h.linked he
      exact List.mem_dedup.mpr (find?_mem hfind)
    have hdistinct : (namesOf chain).Nodup := (List.nodup_cons.mp h.distinct).2
    have hlength := (hdistinct.subperm hnames).length_le
    rw [namesOf, List.length_map] at hlength
    exact Nat.succ_le_succ hlength

/-! ## 3. Round after round -/

/-- The chain after so many rounds, as long as there is a way on. -/
def rounds (s : Sources) (c : ClassDecl) : Nat → Option (List ClassDecl)
  | 0 => some [c]
  | n + 1 => (s.rounds c n).bind s.climb?

theorem climbed_of_rounds {s : Sources} {c : ClassDecl} {n : Nat} {chain : List ClassDecl}
    (h : s.rounds c n = some chain) : s.Climbed c chain ∧ chain.length = n + 1 := by
  induction n generalizing chain with
  | zero =>
    cases h
    exact ⟨s.climbed_singleton c, rfl⟩
  | succ n ih =>
    obtain ⟨before, hbefore, hround⟩ := Option.bind_eq_some_iff.mp h
    obtain ⟨hclimbed, hlength⟩ := ih hbefore
    obtain ⟨hclimbed', hlength'⟩ := hclimbed.climb? hround
    exact ⟨hclimbed', hlength'.trans (congrArg (· + 1) hlength)⟩

theorem Climbed.rounds {s : Sources} {c : ClassDecl} {chain : List ClassDecl}
    (h : s.Climbed c chain) : s.rounds c (chain.length - 1) = some chain := by
  induction chain using List.reverseRecOn with
  | nil => cases h.head
  | append_singleton chain e ih =>
    rcases List.eq_nil_or_concat chain with rfl | ⟨front, d, rfl⟩
    · cases h.head
      rfl
    · rw [List.concat_eq_append] at h ih ⊢
      obtain ⟨hbefore, hextends, hnew⟩ := climbed_append_iff.mp h
      have hreached := ih hbefore
      rw [List.length_append, List.length_singleton, Nat.add_sub_cancel] at hreached
      rw [List.length_append, List.length_singleton, Nat.add_sub_cancel, List.length_append,
        List.length_singleton, Sources.rounds, hreached, Option.bind_some]
      exact climb?_eq_some_iff.mpr ⟨e, hextends, hnew, rfl⟩

theorem rounds_eq_none_of_le {s : Sources} {c : ClassDecl} {n m : Nat} (hle : n ≤ m)
    (h : s.rounds c n = none) : s.rounds c m = none := by
  induction hle with
  | refl => exact h
  | step _ ih => rw [rounds, ih, Option.bind_none]

/-- Two chains from which there is no way on are the same. -/
theorem Climbed.unique {s : Sources} {c : ClassDecl} {a b : List ClassDecl} (ha : s.Climbed c a)
    (hb : s.Climbed c b) (hstop : s.climb? a = none) (hstop' : s.climb? b = none) : a = b := by
  have hends {a b : List ClassDecl} (ha : s.Climbed c a) (hb : s.Climbed c b)
      (hstop : s.climb? a = none) : b.length - 1 ≤ a.length - 1 := by
    refine Nat.le_of_not_lt fun hlt => ?_
    have hnone : s.rounds c (a.length - 1 + 1) = none := by
      rw [Sources.rounds, ha.rounds, Option.bind_some, hstop]
    cases hb.rounds.symm.trans (rounds_eq_none_of_le hlt hnone)
  have hlength : a.length - 1 = b.length - 1 :=
    Nat.le_antisymm (hends hb ha hstop') (hends ha hb hstop)
  have hsame := hb.rounds
  rw [← hlength, ha.rounds] at hsame
  exact Option.some.inj hsame

/-! ## 4. The superclasses of a class -/

/-- From a chain that was reached, the climb goes on to all superclasses of its last class. -/
theorem rounds_hierarchyFrom {s : Sources} {c d : ClassDecl} {seen : List String} {n : Nat}
    {front : List ClassDecl} (hreached : s.rounds c n = some (front ++ [d]))
    (hseen : ∀ q, q ∈ seen ↔ q ∈ namesOf (front ++ [d])) :
    ∃ m, s.rounds c m = some (front ++ s.hierarchyFrom seen d) ∧
      s.climb? (front ++ s.hierarchyFrom seen d) = none := by
  fun_induction hierarchyFrom s seen d generalizing n front with
  | case1 seen d hnone =>
    refine ⟨n, hreached, ?_⟩
    rw [climb?_append, hnone, Option.bind_none]
  | case2 seen d e hsome hpassed =>
    refine ⟨n, hreached, ?_⟩
    rw [climb?_append, hsome, Option.bind_some, if_pos]
    exact (hseen _).mp (List.contains_iff_mem.mp hpassed)
  | case3 seen d e hsome hnew ih =>
    have hadd : s.climb? (front ++ [d]) = some (front ++ [d] ++ [e]) := by
      rw [climb?_append, hsome, Option.bind_some, if_neg]
      exact fun hmem => hnew (List.contains_iff_mem.mpr ((hseen _).mpr hmem))
    have hnext : s.rounds c (n + 1) = some (front ++ [d] ++ [e]) := by
      rw [rounds, hreached, Option.bind_some, hadd]
    have hseen' (q : String) :
        q ∈ e.qualifiedName :: seen ↔ q ∈ namesOf (front ++ [d] ++ [e]) := by
      rw [List.mem_cons, hseen, or_comm]
      simp only [namesOf, List.map_append, List.map_singleton, List.mem_append,
        List.mem_singleton]
    obtain ⟨m, hm, hstop⟩ := ih hnext hseen'
    rw [List.append_assoc, List.singleton_append] at hm hstop
    exact ⟨m, hm, hstop⟩

/-- **The climb ends, after no more rounds than the project has names.** -/
theorem hierarchy_isReached (s : Sources) (c : ClassDecl) :
    ∃ n ≤ s.qualifiedNames.dedup.length,
      s.rounds c n = some (s.hierarchy c) ∧ s.climb? (s.hierarchy c) = none := by
  have hstart : s.rounds c 0 = some ([] ++ [c]) := rfl
  obtain ⟨n, hn, hstop⟩ := rounds_hierarchyFrom hstart fun q => Iff.rfl
  obtain ⟨hclimbed, hlength⟩ := climbed_of_rounds hn
  have hle := hclimbed.length_le
  exact ⟨n, by omega, hn, hstop⟩

/-- A chain that climbs from a class until there is no way on. -/
structure SuperclassChain (s : Sources) (c : ClassDecl) (chain : List ClassDecl) : Prop
    extends s.Climbed c chain where
  ended : ∀ d, chain.getLast? = some d → s.Halts (namesOf chain) d

theorem superclassChain_iff {s : Sources} {c : ClassDecl} {chain : List ClassDecl} :
    s.SuperclassChain c chain ↔ s.Climbed c chain ∧ s.climb? chain = none := by
  constructor
  · intro h
    obtain ⟨front, d, rfl⟩ := h.eq_append
    exact ⟨h.toClimbed, climb?_eq_none_iff.mpr (h.ended d List.getLast?_concat)⟩
  · rintro ⟨hclimbed, hstop⟩
    refine ⟨hclimbed, fun d hd => ?_⟩
    obtain ⟨front, e, rfl⟩ := hclimbed.eq_append
    rw [List.getLast?_concat] at hd
    cases hd
    exact climb?_eq_none_iff.mp hstop

theorem superclassChain_iff_eq_hierarchy {s : Sources} {c : ClassDecl} {chain : List ClassDecl} :
    s.SuperclassChain c chain ↔ chain = s.hierarchy c := by
  obtain ⟨n, _, hn, hstop⟩ := s.hierarchy_isReached c
  have hclimbed := (climbed_of_rounds hn).1
  rw [superclassChain_iff]
  constructor
  · rintro ⟨h, hend⟩
    exact h.unique hclimbed hend hstop
  · rintro rfl
    exact ⟨hclimbed, hstop⟩

end Sources

/-! ## 5. Methods -/

/-- A call of a name with so many arguments can mean the method. -/
def Method.Answers (m : Method) (name : String) (arity : Nat) : Prop :=
  m.name = name ∧ m.isConstructor = false ∧ m.acceptsArity arity = true

/-- The first method of the earliest class in a chain that has one for a call. -/
structure FirstAnswer (chain : List ClassDecl) (name : String) (arity : Nat) (m : Method) :
    Prop where
  answers : m.Answers name arity
  first : ∃ lower d upper before after, chain = lower ++ d :: upper ∧
    d.methods = before ++ m :: after ∧ (∀ k ∈ before, ¬ k.Answers name arity) ∧
    ∀ e ∈ lower, ∀ k ∈ e.methods, ¬ k.Answers name arity

namespace Sources

theorem answers_iff {m : Method} {name : String} {arity : Nat} :
    (m.name == name && !m.isConstructor && m.acceptsArity arity) = true ↔ m.Answers name arity := by
  simp only [Method.Answers, Bool.and_eq_true, beq_iff_eq, Bool.not_eq_true', and_assoc]

theorem findMethod?_eq_some_iff {s : Sources} {c : ClassDecl} {name : String} {arity : Nat}
    {m : Method} :
    s.findMethod? c name arity = some m ↔ FirstAnswer (s.hierarchy c) name arity m := by
  simp only [findMethod?, List.findSome?_eq_some_iff, List.find?_eq_some_iff_append,
    List.find?_eq_none, answers_iff, Bool.not_eq_true', ← Bool.not_eq_true]
  constructor
  · rintro ⟨lower, d, upper, hchain, ⟨hm, before, after, hmethods, hbefore⟩, hlower⟩
    exact ⟨hm, lower, d, upper, before, after, hchain, hmethods, hbefore, hlower⟩
  · rintro ⟨hm, lower, d, upper, before, after, hchain, hmethods, hbefore, hlower⟩
    exact ⟨lower, d, upper, hchain, ⟨hm, before, after, hmethods, hbefore⟩, hlower⟩

theorem findMethod?_eq_none_iff {s : Sources} {c : ClassDecl} {name : String} {arity : Nat} :
    s.findMethod? c name arity = none ↔
      ∀ d ∈ s.hierarchy c, ∀ m ∈ d.methods, ¬ m.Answers name arity := by
  simp only [findMethod?, List.findSome?_eq_none_iff, List.find?_eq_none, answers_iff]

/-- **The climb from a class ends, with the one chain from which there is no way on, and a call
    means the first method of the earliest class in it that has one.** -/
theorem hierarchy_climbed (s : Sources) (c : ClassDecl) :
    (∃ n ≤ s.qualifiedNames.dedup.length,
      s.rounds c n = some (s.hierarchy c) ∧ s.climb? (s.hierarchy c) = none) ∧
    (∀ chain, s.SuperclassChain c chain ↔ chain = s.hierarchy c) ∧
    (∀ name arity m,
      s.findMethod? c name arity = some m ↔ FirstAnswer (s.hierarchy c) name arity m) ∧
    (∀ name arity, s.findMethod? c name arity = none ↔
      ∀ d ∈ s.hierarchy c, ∀ m ∈ d.methods, ¬ m.Answers name arity) :=
  ⟨s.hierarchy_isReached c, fun _ => superclassChain_iff_eq_hierarchy,
    fun _ _ _ => findMethod?_eq_some_iff, fun _ _ => findMethod?_eq_none_iff⟩

end Sources

end AndroidLint.Source
