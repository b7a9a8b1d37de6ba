/-
  File:      AndroidLint/Proofs/FormatScan.lean
  Subject:   Finding the specifiers of a text and telling its kind are the same pass over it.

  The specifiers are found by a search that jumps from match to match and looks back for escapes;
  the kind is told by a walk that steps over escapes as it meets them. Both are measured here
  against one pass from left to right (`visitsFrom`), which at a backslash skips the next character,
  at a percent sign tries the pattern of directives, and else goes on by one character:

  * `locate_eq_visits`:        the search finds the directives that the pass meets;
  * `kindFrom_eq_visits`:      the kind is told by the first fault that the pass meets;
  * `slice?_of_mem_visitsFrom`: the range of a directive is the text it is written in.
-/
import AndroidLint.Check.FormatStrings
import AndroidLint.Proofs.FormatPattern
import AndroidLint.Proofs.Slices

namespace AndroidLint.Format

open AndroidLint.Text

/-! ## 1. One pass from left to right -/

/-- What the pass meets at a percent sign that is not escaped. -/
inductive Visit where
  /-- The pattern of directives matches here. -/
  | directive (d : Directive) (range : ByteRange)
  /-- It does not. -/
  | loose (offset : Nat)
  deriving DecidableEq, Repr

/-- The directive that is met. -/
def Visit.directive? : Visit → Option (Directive × ByteRange)
  | directive d range => some (d, range)
  | loose _ => none

/-- The pass over a text that begins at byte `offset`, the first `skip` characters left out. -/
def visitsFrom (skip offset : Nat) : List Char → List Visit
  | [] => []
  | c :: cs =>
    if 0 < skip then visitsFrom (skip - 1) (offset + c.utf8Size) cs
    else if c = '\\' then visitsFrom 1 (offset + c.utf8Size) cs
    else if c = '%' then
      match directivePattern.first (c :: cs) with
      | some w =>
        .directive (.ofWay w) ⟨offset, offset + width w.taken⟩ ::
          visitsFrom (w.taken.length - 1) (offset + c.utf8Size) cs
      | none => .loose offset :: visitsFrom 0 (offset + c.utf8Size) cs
    else visitsFrom 0 (offset + c.utf8Size) cs

/-- What the pass meets in a text. -/
def visits (text : String) : List Visit := visitsFrom 0 0 text.toList

/-- The directives that the pass meets, each with the bytes it takes. -/
def scan (text : String) : List (Directive × ByteRange) := (visits text).filterMap Visit.directive?

/-! ## 2. One step of the pass -/

theorem visitsFrom_succ (skip offset : Nat) (c : Char) (cs : List Char) :
    visitsFrom (skip + 1) offset (c :: cs) = visitsFrom skip (offset + c.utf8Size) cs := by
  simp [visitsFrom]

/-- Leaving characters out is going on behind them. -/
theorem visitsFrom_append (offset : Nat) (as bs : List Char) :
    visitsFrom as.length offset (as ++ bs) = visitsFrom 0 (offset + width as) bs := by
  induction as generalizing offset with
  | nil => rfl
  | cons c as ih =>
    rw [List.length_cons, List.cons_append, visitsFrom_succ, ih, width_cons]
    congr 1
    omega

theorem visitsFrom_escape (offset : Nat) (cs : List Char) :
    visitsFrom 0 offset ('\\' :: cs) = visitsFrom 1 (offset + 1) cs := by
  rw [visitsFrom, if_neg (Nat.lt_irrefl 0), if_pos rfl]
  rfl

theorem visitsFrom_plain {c : Char} (hb : c ≠ '\\') (hp : c ≠ '%') (offset : Nat)
    (cs : List Char) : visitsFrom 0 offset (c :: cs) = visitsFrom 0 (offset + c.utf8Size) cs := by
  simp [visitsFrom, hb, hp]

theorem visitsFrom_loose {cs : List Char} (h : Directive.read ('%' :: cs) = none) (offset : Nat) :
    visitsFrom 0 offset ('%' :: cs) = .loose offset :: visitsFrom 0 (offset + 1) cs := by
  have hf : directivePattern.first ('%' :: cs) = none := by rw [first_directivePattern, h]; rfl
  rw [visitsFrom, if_neg (Nat.lt_irrefl 0), if_neg (by decide), if_pos rfl, hf]
  rfl

theorem visitsFrom_directive {cs rest : List Char} {d : Directive}
    (h : Directive.read cs = some (d, rest)) (offset : Nat) :
    visitsFrom 0 offset cs =
      .directive d ⟨offset, offset + width d.written⟩ ::
        visitsFrom 0 (offset + width d.written) rest := by
  have hf : directivePattern.first cs = some (d.way rest) := by rw [first_directivePattern, h]; rfl
  have hw := Directive.written_append_of_read h
  obtain ⟨t, ht⟩ : ∃ t, d.written = '%' :: t := ⟨_, rfl⟩
  rw [ht, List.cons_append] at hw
  subst hw
  have htaken : (d.way rest).taken = '%' :: t := ht
  rw [visitsFrom, if_neg (Nat.lt_irrefl 0), if_neg (by decide), if_pos rfl, hf]
  simp only [Directive.ofWay_way, htaken, ht]
  rw [List.length_cons, Nat.add_sub_cancel, visitsFrom_append, width_cons, Nat.add_assoc]

/-! ## 3. The search for directives is the pass -/

/-- The first match stands behind the characters that are skipped. -/
theorem append_of_search {cs skipped rest : List Char} {d : Directive}
    (h : search cs = some (skipped, d, rest)) :
    ∃ tail, cs = skipped ++ tail ∧ Directive.read tail = some (d, rest) := by
  induction cs generalizing skipped with
  | nil => simp [search] at h
  | cons c cs ih =>
    simp only [search] at h
    split at h
    next hr =>
      cases h
      exact ⟨c :: cs, rfl, hr⟩
    next =>
      obtain ⟨⟨s, d', r⟩, hs, he⟩ := Option.map_eq_some_iff.1 h
      cases he
      obtain ⟨tail, rfl, hr⟩ := ih hs
      exact ⟨tail, rfl, hr⟩

/-- The directives that the pass meets, where `escaped` says whether the first character is
    escaped. -/
def directivesFrom (escaped : Bool) (offset : Nat) (cs : List Char) :
    List (Directive × ByteRange) :=
  (visitsFrom escaped.toNat offset cs).filterMap Visit.directive?

/-- Whether the character behind a run is escaped, where `escaped` says it of the first one. -/
def escapedBehind (escaped : Bool) (cs : List Char) : Bool :=
  cs.foldl (fun escaped c => !escaped && c == '\\') escaped

theorem directivesFrom_cons_of_none {c : Char} {cs : List Char}
    (h : Directive.read (c :: cs) = none) (escaped : Bool) (offset : Nat) :
    directivesFrom escaped offset (c :: cs) =
      directivesFrom (!escaped && c == '\\') (offset + c.utf8Size) cs := by
  unfold directivesFrom
  cases escaped with
  | true => rw [show true.toNat = 0 + 1 from rfl, visitsFrom_succ]; rfl
  | false =>
    by_cases hb : c = '\\'
    · subst hb
      rw [show false.toNat = 0 from rfl, visitsFrom_escape]
      rfl
    · have hfalse : (!false && c == '\\') = false := by simp [hb]
      rw [hfalse, show false.toNat = 0 from rfl]
      by_cases hp : c = '%'
      · subst hp
        rw [visitsFrom_loose h]
        rfl
      · rw [visitsFrom_plain hb hp]

/-- Up to the first match the pass meets no directive. -/
theorem directivesFrom_search (escaped : Bool) (offset : Nat) (cs : List Char) :
    directivesFrom escaped offset cs =
      match search cs with
      | none => []
      | some (skipped, _, _) =>
        directivesFrom (escapedBehind escaped skipped) (offset + width skipped)
          (cs.drop skipped.length) := by
  induction cs generalizing escaped offset with
  | nil => rfl
  | cons c cs ih =>
    cases hr : Directive.read (c :: cs) with
    | some r => simp [search, hr, escapedBehind]
    | none =>
      rw [directivesFrom_cons_of_none hr, ih]
      simp only [search, hr]
      cases search cs with
      | none => rfl
      | some found =>
        simp only [Option.map_some, width_cons, List.length_cons, List.drop_succ_cons,
          ← Nat.add_assoc]
        rfl

/-- **The search finds the directives that the pass meets.** -/
theorem locate_eq_visits (offset : Nat) (cs : List Char) :
    locate offset cs = (visitsFrom 0 offset cs).filterMap Visit.directive? := by
  show locate offset cs = directivesFrom false offset cs
  induction hn : cs.length using Nat.strong_induction_on generalizing offset cs with
  | _ n ih =>
    subst hn
    rw [directivesFrom_search, locate]
    split
    next hs => rw [hs]
    next skipped d rest hs =>
      obtain ⟨tail, rfl, hread⟩ := append_of_search hs
      obtain ⟨t, rfl⟩ := Directive.eq_cons_of_read hread
      have hlen := search_length_lt hs
      simp only [hs, List.drop_left]
      rw [show escapedBehind false skipped = escapedAfter skipped from rfl]
      by_cases he : escapedAfter skipped = true
      · -- the match is escaped, and the search goes on right behind its percent sign
        have hshort : (List.drop 1 ('%' :: t)).length < (skipped ++ '%' :: t).length := by
          simp only [List.length_append, List.length_cons, List.drop_succ_cons, List.drop_zero]
          omega
        rw [if_pos he, he, ← List.drop_drop, List.drop_left, ih _ hshort _ _ rfl]
        unfold directivesFrom
        rw [show true.toNat = 0 + 1 from rfl, visitsFrom_succ]
        rfl
      · rw [if_neg he, Bool.eq_false_iff.mpr he, ih _ (by omega) _ _ rfl]
        unfold directivesFrom
        rw [show false.toNat = 0 from rfl, visitsFrom_directive hread]
        rfl

/-- A directive that is found is met by the pass. -/
theorem mem_visitsFrom_of_mem_locate {offset : Nat} {cs : List Char} {d : Directive}
    {range : ByteRange} (h : (d, range) ∈ locate offset cs) :
    Visit.directive d range ∈ visitsFrom 0 offset cs := by
  rw [locate_eq_visits] at h
  obtain ⟨v, hv, hd⟩ := List.mem_filterMap.mp h
  cases v with
  | loose offset => cases hd
  | directive e r =>
    cases hd
    exact hv

/-! ## 4. The kind of a text is decided by the pass -/

/-- What a visit says of the text: nothing when it is a good directive. -/
def Visit.fault? : Visit → Option Kind
  | directive d _ => d.fault
  | loose _ => some .notFormat

theorem Directive.fault_eq_some {d : Directive} {k : Kind} (h : d.fault = some k) :
    k = .notFormat ∨ k = .invalid (String.ofList d.written) := by
  unfold Directive.fault at h
  split at h
  · cases h
    exact Or.inr rfl
  · split at h
    · split at h
      · cases h
        exact Or.inr rfl
      · cases h
        exact Or.inl rfl
    · split at h
      · cases h
        exact Or.inl rfl
      · cases h

/-- A directive that is not at fault has a known conversion. -/
theorem Directive.known_of_fault_eq_none {d : Directive} (h : d.fault = none) :
    d.date.isSome = true ∨ ConversionClass.ofChar d.conversion ≠ .unknown := by
  unfold Directive.fault at h
  split at h
  · cases h
  · split at h
    · split at h <;> cases h
    · rename_i hk
      cases hd : d.date with
      | some t => exact Or.inl rfl
      | none => exact Or.inr (by simpa [hd] using hk)

/-- **The first visit at fault decides the kind**; without one the text is a format string. -/
theorem kindFrom_eq_visits (offset : Nat) (cs : List Char) :
    kindFrom cs = ((visitsFrom 0 offset cs).findSome? Visit.fault?).getD .format := by
  fun_induction kindFrom cs generalizing offset with
  | case1 => rfl
  | case2 => rfl
  | case3 c cs ih =>
    rw [visitsFrom_escape, show (1 : Nat) = 0 + 1 from rfl, visitsFrom_succ]
    exact ih _
  | case4 cs hr =>
    rw [visitsFrom_loose hr]
    rfl
  | case5 cs d rest hr fault hf =>
    rw [visitsFrom_directive hr, List.findSome?_cons]
    simp [Visit.fault?, hf]
  | case6 cs d rest hr hf ih =>
    rw [visitsFrom_directive hr, List.findSome?_cons]
    simp only [Visit.fault?, hf]
    exact ih _
  | case7 c cs hb hp ih =>
    rw [visitsFrom_plain (fun h => hb h) (fun h => hp h)]
    exact ih _

theorem fault?_ne_format (v : Visit) : v.fault? ≠ some .format := by
  cases v with
  | loose offset => exact fun h => by cases h
  | directive d range =>
    intro h
    rcases Directive.fault_eq_some h with h | h <;> cases h

/-- In a format string no visit is at fault. -/
theorem fault?_eq_none_of_format {cs : List Char} (h : kindFrom cs = .format) {offset : Nat}
    {v : Visit} (hv : v ∈ visitsFrom 0 offset cs) : v.fault? = none := by
  rw [kindFrom_eq_visits offset] at h
  cases hf : (visitsFrom 0 offset cs).findSome? Visit.fault? with
  | none => exact List.findSome?_eq_none_iff.mp hf v hv
  | some k =>
    obtain ⟨u, _, hu⟩ := List.exists_of_findSome?_eq_some hf
    rw [hf, Option.getD_some] at h
    rw [h] at hu
    exact absurd hu (fault?_ne_format u)

theorem fault_eq_none_of_format {cs : List Char} (h : kindFrom cs = .format) {offset : Nat}
    {d : Directive} {range : ByteRange} (hd : (d, range) ∈ locate offset cs) : d.fault = none :=
  fault?_eq_none_of_format h (mem_visitsFrom_of_mem_locate hd)

/-- The directive that makes a text invalid is met by the pass. -/
theorem exists_directive_of_invalid {cs : List Char} {t : String} (h : kindFrom cs = .invalid t)
    (offset : Nat) :
    ∃ d range, Visit.directive d range ∈ visitsFrom 0 offset cs ∧ d.written = t.toList := by
  rw [kindFrom_eq_visits offset] at h
  cases hf : (visitsFrom 0 offset cs).findSome? Visit.fault? with
  | none => rw [hf] at h; cases h
  | some k =>
    obtain ⟨v, hv, hk⟩ := List.exists_of_findSome?_eq_some hf
    rw [hf, Option.getD_some] at h
    subst h
    cases v with
    | loose offset => cases hk
    | directive d range =>
      rcases Directive.fault_eq_some hk with h | h
      · cases h
      · cases h
        exact ⟨d, range, hv, String.toList_ofList.symm⟩

/-! ## 5. Directives stand where the pass says -/

/-- A directive that the pass meets is read where it stands. -/
theorem exists_read_of_mem_visitsFrom {skip offset : Nat} {cs : List Char} {d : Directive}
    {range : ByteRange} (h : Visit.directive d range ∈ visitsFrom skip offset cs) :
    ∃ front rest, cs = front ++ (d.written ++ rest) ∧
      range = ⟨offset + width front, offset + width front + width d.written⟩ ∧
      Directive.read (d.written ++ rest) = some (d, rest) := by
  induction cs generalizing skip offset with
  | nil => simp [visitsFrom] at h
  | cons c cs ih =>
    have hnext : ∀ k, Visit.directive d range ∈ visitsFrom k (offset + c.utf8Size) cs →
        ∃ front rest, c :: cs = front ++ (d.written ++ rest) ∧
          range = ⟨offset + width front, offset + width front + width d.written⟩ ∧
          Directive.read (d.written ++ rest) = some (d, rest) := by
      intro k hk
      obtain ⟨front, rest, hcs, hrange, hread⟩ := ih hk
      refine ⟨c :: front, rest, by rw [hcs, List.cons_append], ?_, hread⟩
      rw [hrange, width_cons, Nat.add_assoc offset]
    by_cases hs : 0 < skip
    · rw [visitsFrom, if_pos hs] at h
      exact hnext _ h
    · rw [visitsFrom, if_neg hs] at h
      split at h
      · exact hnext _ h
      · split at h
        · split at h
          next w hw =>
            rcases List.mem_cons.mp h with h | h
            · cases h
              rw [first_directivePattern] at hw
              obtain ⟨⟨e, rest⟩, hr, rfl⟩ := Option.map_eq_some_iff.mp hw
              have htext := Directive.written_append_of_read hr
              rw [Directive.ofWay_way]
              exact ⟨[], rest, htext.symm, rfl, htext ▸ hr⟩
            · exact hnext _ h
          next =>
            rcases List.mem_cons.mp h with h | h
            · cases h
            · exact hnext _ h
        · exact hnext _ h

/-- The bytes of a directive are the characters it is written with. -/
theorem slice?_of_mem_visitsFrom {skip offset : Nat} {as cs : List Char} (ha : width as = offset)
    {d : Directive} {range : ByteRange} (h : Visit.directive d range ∈ visitsFrom skip offset cs) :
    slice? (as ++ cs) range = some d.written := by
  obtain ⟨front, rest, rfl, rfl, _⟩ := exists_read_of_mem_visitsFrom h
  subst ha
  rw [← List.append_assoc, ← List.append_assoc, ← width_append]
  exact slice?_width (as ++ front) d.written rest

/-! ## 6. Numbering keeps directives where they are -/

/-- Numbering goes directive by directive, and looks neither at ranges nor ahead. -/
theorem number_cons (next : Nat) (d : Directive) :
    ∃ index explicit next', ∀ range ds, number next ((d, range) :: ds) =
      d.toSpecifier range index explicit :: number next' ds := by
  simp only [number]
  split
  · exact ⟨_, _, _, fun _ _ => rfl⟩
  · split
    · exact ⟨_, _, _, fun _ _ => rfl⟩
    · split <;> exact ⟨_, _, _, fun _ _ => rfl⟩

theorem number_map_range (next : Nat) (ds : List (Directive × ByteRange)) :
    (number next ds).map (·.range) = ds.map (·.2) := by
  induction ds generalizing next with
  | nil => rfl
  | cons d ds ih =>
    obtain ⟨index, explicit, next', h⟩ := number_cons next d.1
    rw [h, List.map_cons, List.map_cons, ih]
    rfl

theorem exists_directive_of_mem_number {next : Nat} {ds : List (Directive × ByteRange)}
    {s : Specifier} (h : s ∈ number next ds) :
    ∃ d range index explicit, (d, range) ∈ ds ∧ s = d.toSpecifier range index explicit := by
  induction ds generalizing next with
  | nil => cases h
  | cons d ds ih =>
    obtain ⟨index, explicit, next', hd⟩ := number_cons next d.1
    rw [hd] at h
    rcases List.mem_cons.mp h with rfl | h
    · exact ⟨d.1, d.2, index, explicit, List.mem_cons_self, rfl⟩
    · obtain ⟨e, r, i, x, he, hs⟩ := ih h
      exact ⟨e, r, i, x, List.mem_cons_of_mem _ he, hs⟩

end AndroidLint.Format
