/-
  File:      AndroidLint/Proofs/VariableTypes.lean
  Subject:   The types that a file's declarations give to its variables.

  A table has the same entry for a name whose declarations disagree and for one that is declared
  without a type. `Entry` tells the two apart by what was declared, and one declaration more keeps
  it:

  * `Entry.record`:           what an entry becomes by one more declaration;
  * `Entry.unique`:           what is declared decides the entry;
  * `Describes.recordAll`:    the entries after any declarations;
  * `collect_eq`:             the table of a file is made of its declarations, one after the other;
  * `type?_ofDeclarations`:   a variable has a type exactly if all its declarations give it.
-/
import AndroidLint.Kotlin.Walk
import AndroidLint.Proofs.JavaPlaces

namespace AndroidLint.Kotlin

/-! ## 1. Entries -/

/-- The entry for a name that is declared with certain types. -/
inductive Entry (declared : Option String → Prop) : Option (Option String) → Prop where
  | undeclared : (∀ type, ¬ declared type) → Entry declared none
  | agreed {type : String} : declared (some type) → (∀ other, declared other → other = some type) →
      Entry declared (some (some type))
  | untyped : declared none → Entry declared (some none)
  | disagreeing {a b : Option String} : declared a → declared b → a ≠ b →
      Entry declared (some none)

/-- What one more declaration makes of an entry. -/
def merged (entry : Option (Option String)) (new : Option String) : Option String :=
  match entry with
  | none => new
  | some old => if old = new then old else none

theorem merged_none (new : Option String) : merged (some none) new = none :=
  ite_self none

namespace Entry

variable {declared declared' : Option String → Prop} {entry entry' : Option (Option String)}

theorem congr (h : Entry declared entry) (hiff : ∀ type, declared type ↔ declared' type) :
    Entry declared' entry :=
  (funext fun type => propext (hiff type) : declared = declared') ▸ h

theorem record (h : Entry declared entry) (new : Option String) :
    Entry (fun type => declared type ∨ type = new) (some (merged entry new)) := by
  cases h with
  | undeclared hnone =>
    cases new with
    | none => exact .untyped (.inr rfl)
    | some type =>
      exact .agreed (.inr rfl) fun other h => h.elim (fun hother => absurd hother (hnone other)) id
  | @agreed type htype hall =>
    by_cases hnew : some type = new
    · rw [merged, if_pos hnew]
      exact .agreed (.inl htype) fun other h => h.elim (hall other) (·.trans hnew.symm)
    · rw [merged, if_neg hnew]
      exact .disagreeing (.inl htype) (.inr rfl) hnew
  | untyped hnone =>
    rw [merged_none]
    exact .untyped (.inl hnone)
  | disagreeing ha hb hne =>
    rw [merged_none]
    exact .disagreeing (.inl ha) (.inl hb) hne

theorem isSome_iff (h : Entry declared entry) : entry.isSome = true ↔ ∃ type, declared type := by
  cases h with
  | undeclared hnone =>
    constructor
    · intro h
      cases h
    · rintro ⟨type, htype⟩
      exact absurd htype (hnone type)
  | agreed htype _ => exact iff_of_true rfl ⟨_, htype⟩
  | untyped hnone => exact iff_of_true rfl ⟨none, hnone⟩
  | disagreeing ha _ _ => exact iff_of_true rfl ⟨_, ha⟩

theorem join_iff (h : Entry declared entry) {type : String} :
    entry.join = some type ↔
      (∃ other, declared other) ∧ ∀ other, declared other → other = some type := by
  cases h with
  | undeclared hnone =>
    refine iff_of_false (fun h => by cases h) ?_
    rintro ⟨⟨other, hother⟩, _⟩
    exact hnone other hother
  | agreed htype hall =>
    constructor
    · intro heq
      obtain rfl := Option.some.inj heq
      exact ⟨⟨_, htype⟩, hall⟩
    · exact fun h => h.2 _ htype
  | untyped hnone => exact iff_of_false (fun h => by cases h) fun h => by cases h.2 none hnone
  | disagreeing ha hb hne =>
    exact iff_of_false (fun h => by cases h) fun h => hne ((h.2 _ ha).trans (h.2 _ hb).symm)

/-- What is declared decides the entry. -/
theorem unique (h : Entry declared entry) (h' : Entry declared entry') : entry = entry' := by
  have hsome : entry.isSome = entry'.isSome :=
    Bool.eq_iff_iff.mpr (h.isSome_iff.trans h'.isSome_iff.symm)
  have hjoin : entry.join = entry'.join :=
    Option.ext fun type => h.join_iff.trans h'.join_iff.symm
  cases entry with
  | none =>
    cases entry' with
    | none => rfl
    | some _ => cases hsome
  | some type =>
    cases entry' with
    | none => cases hsome
    | some _ => exact congrArg some hjoin

end Entry

/-! ## 2. Tables -/

namespace Variables

theorem lookup_record (vs : Variables) (name x : String) (new : Option String) :
    (vs.record name new).lookup x =
      if x = name then some (merged (vs.lookup x) new) else vs.lookup x := by
  unfold record
  by_cases hx : x = name
  · subst hx
    rw [if_pos rfl]
    split
    · next old hold =>
      split
      · next heq => rw [hold, merged, if_pos heq]
      · next heq => rw [hold, merged, if_neg heq, List.lookup_cons_self]
    · next hnone => rw [hnone, merged, List.lookup_cons_self]
  · have hother (type : Option String) : List.lookup x ((name, type) :: vs) = vs.lookup x := by
      rw [List.lookup_cons, beq_false_of_ne hx]
    rw [if_neg hx]
    split
    · split
      · rfl
      · exact hother none
    · exact hother new

/-- Take several declarations into account, in their order. -/
def recordAll (vs : Variables) (ds : List (String × Option String)) : Variables :=
  ds.foldl (fun vs d => vs.record d.1 d.2) vs

/-- The table of some declarations. -/
def ofDeclarations (ds : List (String × Option String)) : Variables := recordAll [] ds

theorem recordAll_append (vs : Variables) (ds ds' : List (String × Option String)) :
    vs.recordAll (ds ++ ds') = (vs.recordAll ds).recordAll ds' := List.foldl_append

/-- All entries of a table are those of certain declarations. -/
def Describes (declared : String → Option String → Prop) (vs : Variables) : Prop :=
  ∀ x, Entry (declared x) (vs.lookup x)

theorem Describes.record {declared : String → Option String → Prop} {vs : Variables}
    (h : Describes declared vs) (d : String × Option String) :
    Describes (fun x type => declared x type ∨ (x, type) = d) (vs.record d.1 d.2) := by
  intro x
  rw [lookup_record]
  split
  · next hx => exact ((h x).record d.2).congr fun type => by simp [Prod.ext_iff, hx]
  · next hx => exact (h x).congr fun type => by simp [Prod.ext_iff, hx]

theorem Describes.recordAll {declared : String → Option String → Prop} {vs : Variables}
    (h : Describes declared vs) (ds : List (String × Option String)) :
    Describes (fun x type => declared x type ∨ (x, type) ∈ ds) (vs.recordAll ds) := by
  -- What is declared grows with the table, so both are general.
  induction ds generalizing declared vs with
  | nil => exact fun x => (h x).congr fun type => by simp
  | cons d ds ih => exact fun x => (ih (h.record d) x).congr fun type => by simp [or_assoc]

theorem describes_ofDeclarations (ds : List (String × Option String)) :
    Describes (fun x type => (x, type) ∈ ds) (ofDeclarations ds) := by
  have hempty : Describes (fun _ _ => False) [] := fun _ => .undeclared fun _ => id
  exact fun x => (hempty.recordAll ds x).congr fun type => by simp

end Variables

/-! ## 3. The declarations of a file -/

mutual

/-- The declarations of a node and of all nodes below it, in the order of the text. The type of a
    value may depend on the declarations before. -/
def declarations (vs : Variables) (t : Tree) : List (String × Option String) :=
  let own := (declared? vs t).toList
  own ++ declarationsAll (vs.recordAll own) (named t)
termination_by 2 * t.size
decreasing_by have := sizes_named_lt t; omega

/-- The declarations of several nodes. -/
def declarationsAll (vs : Variables) (ts : List Tree) : List (String × Option String) :=
  match ts with
  | [] => []
  | t :: rest =>
    let here := declarations vs t
    here ++ declarationsAll (vs.recordAll here) rest
termination_by 2 * Syntax.Tree.sizes ts + 1
decreasing_by
  · simp only [Syntax.Tree.sizes]; omega
  · have := Syntax.Tree.size_eq t; simp only [Syntax.Tree.sizes]; omega

end

theorem collectAll_eq {ts : List Tree}
    (h : ∀ t ∈ ts, ∀ vs, collect vs t = vs.recordAll (declarations vs t)) (vs : Variables) :
    collectAll vs ts = vs.recordAll (declarationsAll vs ts) := by
  induction ts generalizing vs with
  | nil =>
    rw [collectAll, declarationsAll]
    rfl
  | cons t rest ih =>
    obtain ⟨ht, hrest⟩ := List.forall_mem_cons.mp h
    rw [collectAll, declarationsAll, Variables.recordAll_append, ht, ih hrest]

theorem collect_eq (t : Tree) (vs : Variables) :
    collect vs t = vs.recordAll (declarations vs t) := by
  induction t using Syntax.Tree.induction_within generalizing vs with
  | step t ih =>
    have hbelow (vs : Variables) :
        collectAll vs (named t) = vs.recordAll (declarationsAll vs (named t)) :=
      collectAll_eq (fun u hu => ih u (mem_of_named hu) u .self) vs
    rw [collect, declarations, Variables.recordAll_append, ← hbelow]
    cases declared? vs t <;> rfl

/-! ## 4. Types -/

namespace Variables

/-- **A variable has a type exactly if it is declared and all its declarations give that type.** So
    neither the order of the declarations nor their number matters, and where two of them disagree
    no further ones give the variable a type. The table of a file is made in this way. -/
theorem type?_ofDeclarations :
    (∀ ds x type, (ofDeclarations ds).type? x = some type ↔
      (∃ other, (x, other) ∈ ds) ∧ ∀ other, (x, other) ∈ ds → other = some type) ∧
    (∀ ds ds' : List (String × Option String), (∀ d, d ∈ ds ↔ d ∈ ds') →
      ∀ x, (ofDeclarations ds).lookup x = (ofDeclarations ds').lookup x) ∧
    (∀ ds x a b, (x, a) ∈ ds → (x, b) ∈ ds → a ≠ b →
      ∀ more, ((ofDeclarations ds).recordAll more).type? x = none) ∧
    (∀ root, collect [] root = ofDeclarations (declarations [] root)) := by
  refine ⟨fun ds x type => (describes_ofDeclarations ds x).join_iff, ?_, ?_, fun root => ?_⟩
  · intro ds ds' hmem x
    exact ((describes_ofDeclarations ds x).congr fun type => hmem (x, type)).unique
      (describes_ofDeclarations ds' x)
  · intro ds x a b ha hb hne more
    have hentry := (describes_ofDeclarations ds).recordAll more x
    refine Option.eq_none_iff_forall_ne_some.mpr fun type htype => hne ?_
    have hall := (hentry.join_iff.mp htype).2
    exact (hall a (.inl ha)).trans (hall b (.inl hb)).symm
  · exact collect_eq root []

/-- A number that is declared again without a type, and a text. -/
def redeclared : List (String × Option String) :=
  [("n", some "int"), ("n", none), ("s", some "String")]

/-- The same declarations in another order, one of them twice. -/
def repeated : List (String × Option String) :=
  [("s", some "String"), ("n", none), ("s", some "String"), ("n", some "int")]

theorem type?_ofDeclarations_redeclared :
    (∀ d, d ∈ redeclared ↔ d ∈ repeated) ∧
    (ofDeclarations redeclared).lookup "s" = (ofDeclarations repeated).lookup "s" ∧
    (("n", some "int") ∈ redeclared ∧ ("n", none) ∈ redeclared) ∧
    ((ofDeclarations redeclared).recordAll [("n", some "int")]).type? "n" = none := by
  have hsame (d : String × Option String) : d ∈ redeclared ↔ d ∈ repeated := by
    simp only [redeclared, repeated, List.mem_cons, List.not_mem_nil, or_false]
    grind
  have hint : ("n", some "int") ∈ redeclared := .head _
  have hnone : ("n", none) ∈ redeclared := .tail _ (.head _)
  obtain ⟨-, horder, hagain, -⟩ := type?_ofDeclarations
  exact ⟨hsame, horder _ _ hsame "s", ⟨hint, hnone⟩,
    hagain redeclared "n" _ _ hint hnone (Option.some_ne_none _) [("n", some "int")]⟩

end Variables

end AndroidLint.Kotlin
