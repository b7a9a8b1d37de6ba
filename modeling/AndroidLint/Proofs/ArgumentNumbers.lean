/-
  File:      AndroidLint/Proofs/ArgumentNumbers.lean
  Subject:   Which argument each specifier of a text takes.

  Specifiers are numbered from left to right with a counter. A written number that fits in 32 bits
  sets the counter, one that does not fit leaves it alone, and so do `%%` and `%n`. What comes out is
  told here by the text alone, without the counter:

  * `exists_numbers`:             what numbering does with one directive;
  * `exists_isNext`:              an unnumbered specifier goes on from the nearest one that counts;
  * `index_le_of_mem`:            the counter grows by at most one with each directive;
  * `specifiers_numbered`:        the numbers of all specifiers, and how arguments are counted;
  * `index_eq_zero_iff_written`:  in a format string zero is had only by being written.
-/
import Mathlib.Algebra.Group.Nat.Defs
import AndroidLint.Proofs.FormatFixes

namespace AndroidLint.Format

open AndroidLint.Text

/-! ## 1. Written numbers -/

/-- The digits denote a number that fits in 32 bits. Only ASCII digits denote one. -/
structure Denotes (digits : List Char) (k : Nat) : Prop where
  decimal : ∀ c ∈ digits, c.isDigit = true
  value : Nat.ofDigitChars 10 digits 0 = k
  fits : k < UInt32.size

theorem Directive.numberValue?_eq_some_iff {digits : List Char} {k : Nat} :
    numberValue? digits = some k ↔ Denotes digits k := by
  constructor
  · intro h
    unfold numberValue? at h
    split at h
    · next hall =>
      dsimp only at h
      split at h
      · next hlt =>
        cases h
        exact ⟨List.all_eq_true.mp hall, rfl, hlt⟩
      · cases h
    · cases h
  · rintro ⟨hdecimal, rfl, hfits⟩
    rw [numberValue?, if_pos (List.all_eq_true.mpr hdecimal)]
    exact if_pos hfits

namespace Specifier

/-- The specifier is written with digits up to a dollar sign. -/
def HasDigits (text : String) (digits : List Char) (s : Specifier) : Prop :=
  digits ≠ [] ∧ (∀ c ∈ digits, Text.isDigit c = true) ∧
    ∃ rest, slice? text.toList s.range = some ('%' :: (digits ++ '$' :: rest))

/-- The specifier is written with the argument number `k`, and the number fits in 32 bits. -/
def HasNumber (text : String) (k : Nat) (s : Specifier) : Prop :=
  ∃ digits, s.HasDigits text digits ∧ Denotes digits k

/-- The specifier takes an argument, and when its number is written, the number fits in 32 bits. -/
def Counts (text : String) (s : Specifier) : Prop :=
  s.isLiteral = false ∧ (s.explicit = true → ∃ k, s.HasNumber text k)

end Specifier

/-- The digits of a directive are those that the text has at its range. -/
theorem hasDigits_toSpecifier {text : String} {d : Directive} {r : ByteRange}
    (h : (d, r) ∈ locate 0 text.toList) (index : Nat) (explicit : Bool) (digits : List Char) :
    (d.toSpecifier r index explicit).HasDigits text digits ↔ d.number = some digits := by
  have hv := mem_visitsFrom_of_mem_locate h
  have hslice : slice? ([] ++ text.toList) r = some d.written := slice?_of_mem_visitsFrom rfl hv
  obtain ⟨_, _, _, _, hread⟩ := exists_read_of_mem_visitsFrom hv
  have hreadable := (Directive.readable_of_read hread).1
  have hwritten := Directive.written_append d []
  rw [List.append_nil] at hwritten
  rw [List.nil_append, hwritten] at hslice
  constructor
  · rintro ⟨hne, hdigits, rest, htext⟩
    -- both ways of reading the characters behind the percent sign give the number
    have hsame : '%' :: (dollared d.number ++ d.flagsText []) =
        '%' :: (digits ++ '$' :: rest) := Option.some.inj (hslice.symm.trans htext)
    have hdollar : StopsRun Text.isDigit ('$' :: rest) := stopsRun_cons (by decide)
    have hown := hreadable.readNumber_flagsText []
    rw [(List.cons.inj hsame).2, readNumber_dollar hne
      (takeWhile_append_of_stopsRun hdigits hdollar)
      (dropWhile_append_of_stopsRun hdigits hdollar)] at hown
    exact (Prod.mk.inj hown).1.symm
  · intro hnumber
    obtain ⟨hne, hdigits⟩ := hreadable.number digits hnumber
    refine ⟨hne, hdigits, d.flagsText [], ?_⟩
    rw [hnumber, dollared, List.append_assoc] at hslice
    exact hslice

/-! ## 2. One directive -/

theorem following_le (n : Nat) : following n ≤ n + 1 := Nat.min_le_left _ _

theorem one_le_following (n : Nat) : 1 ≤ following n :=
  Nat.le_min.mpr ⟨Nat.le_add_left 1 n, by decide⟩

/-- What numbering does with a directive when `next` is the number that an unnumbered one gets: the
    number it has, whether that is written, and the number that the next unnumbered one gets. -/
inductive Numbers (next : Nat) (d : Directive) : Nat → Bool → Nat → Prop
  | literal (hliteral : d.isLiteral = true) : Numbers next d 0 false next
  | unnumbered (hliteral : d.isLiteral = false) (hnumber : d.number = none) :
      Numbers next d next false (following next)
  | written {digits : List Char} {k : Nat} (hliteral : d.isLiteral = false)
      (hnumber : d.number = some digits) (hvalue : Denotes digits k) :
      Numbers next d k true (following k)
  | excessive {digits : List Char} (hliteral : d.isLiteral = false)
      (hnumber : d.number = some digits) (hvalue : ∀ k, ¬ Denotes digits k) :
      Numbers next d 0 true next

theorem exists_numbers (next : Nat) (d : Directive) :
    ∃ index explicit next', Numbers next d index explicit next' ∧ ∀ range ds,
      number next ((d, range) :: ds) = d.toSpecifier range index explicit :: number next' ds := by
  simp only [number]
  split
  · next hliteral => exact ⟨_, _, _, .literal hliteral, fun _ _ => rfl⟩
  · next hliteral =>
    have hliteral := Bool.eq_false_iff.mpr hliteral
    split
    · next hnumber => exact ⟨_, _, _, .unnumbered hliteral hnumber, fun _ _ => rfl⟩
    · next digits hnumber =>
      split
      · next k hvalue =>
        exact ⟨_, _, _, .written hliteral hnumber (Directive.numberValue?_eq_some_iff.mp hvalue),
          fun _ _ => rfl⟩
      · next hvalue =>
        refine ⟨_, _, _, .excessive hliteral hnumber fun k hk => ?_, fun _ _ => rfl⟩
        rw [Directive.numberValue?_eq_some_iff.mpr hk] at hvalue
        cases hvalue

namespace Numbers

variable {next index next' : Nat} {explicit : Bool} {d : Directive}

theorem index_of_literal (h : Numbers next d index explicit next') (hd : d.isLiteral = true) :
    index = 0 := by
  cases h with
  | literal _ => rfl
  | unnumbered hnot _ | written hnot _ _ | excessive hnot _ _ => cases hnot.symm.trans hd

theorem explicit_iff (h : Numbers next d index explicit next') :
    explicit = true ↔ d.isLiteral = false ∧ ∃ digits, d.number = some digits := by
  cases h with
  | literal hliteral => simp [hliteral]
  | unnumbered _ hnumber => simp [hnumber]
  | written hliteral hnumber _ => simp [hliteral, hnumber]
  | excessive hliteral hnumber _ => simp [hliteral, hnumber]

theorem index_of_written (h : Numbers next d index explicit next') (hx : explicit = true)
    {digits : List Char} {k : Nat} (hd : d.number = some digits) (hk : Denotes digits k) :
    index = k := by
  cases h with
  | literal _ | unnumbered _ _ => cases hx
  | written _ hnumber hvalue =>
    cases hnumber.symm.trans hd
    exact hvalue.value.symm.trans hk.value
  | excessive _ hnumber hvalue =>
    cases hnumber.symm.trans hd
    exact absurd hk (hvalue k)

theorem index_of_excessive (h : Numbers next d index explicit next') (hx : explicit = true)
    (hd : ∀ digits k, d.number = some digits → ¬ Denotes digits k) : index = 0 := by
  cases h with
  | literal _ | unnumbered _ _ => cases hx
  | written _ hnumber hvalue => exact absurd hvalue (hd _ _ hnumber)
  | excessive _ _ _ => rfl

theorem index_of_unnumbered (h : Numbers next d index explicit next') (hx : explicit = false)
    (hd : d.isLiteral = false) : index = next := by
  cases h with
  | literal hliteral => cases hliteral.symm.trans hd
  | unnumbered _ _ => rfl
  | written _ _ _ | excessive _ _ _ => cases hx

end Numbers

/-- Numbering goes on from a specifier that counts, and passes any other one over. -/
theorem Numbers.next_eq {text : String} {d : Directive} {r : ByteRange} {next index next' : Nat}
    {explicit : Bool} (h : Numbers next d index explicit next')
    (hd : (d, r) ∈ locate 0 text.toList) :
    (d.toSpecifier r index explicit).Counts text ∧ next' = following index ∨
      ¬ (d.toSpecifier r index explicit).Counts text ∧ next' = next := by
  have hdigits := hasDigits_toSpecifier hd index explicit
  cases h with
  | literal hliteral =>
    refine Or.inr ⟨fun hcounts => ?_, rfl⟩
    have hnot : d.isLiteral = false := hcounts.1
    cases hliteral.symm.trans hnot
  | unnumbered hliteral hnumber => exact Or.inl ⟨⟨hliteral, fun h => by cases h⟩, rfl⟩
  | @written digits k hliteral hnumber hvalue =>
    exact Or.inl ⟨⟨hliteral, fun _ => ⟨_, digits, (hdigits digits).mpr hnumber, hvalue⟩⟩, rfl⟩
  | excessive hliteral hnumber hvalue =>
    refine Or.inr ⟨fun hcounts => ?_, rfl⟩
    obtain ⟨k, digits', hdigits', hvalue'⟩ := hcounts.2 rfl
    have hsame := hnumber.symm.trans ((hdigits digits').mp hdigits')
    cases hsame
    exact hvalue k hvalue'

/-! ## 3. All directives -/

/-- The number that an unnumbered specifier behind `specs` gets: the one after the number of the
    nearest specifier that counts, and `start` when none does. -/
inductive IsNext (succ : Nat → Nat) (text : String) (start : Nat) (specs : List Specifier) :
    Nat → Prop
  | none (h : ∀ p ∈ specs, ¬ p.Counts text) : IsNext succ text start specs start
  | nearest {front back : List Specifier} {p : Specifier} (hspecs : specs = front ++ p :: back)
      (hp : p.Counts text) (hback : ∀ q ∈ back, ¬ q.Counts text) :
      IsNext succ text start specs (succ p.index)

theorem IsNext.cons {text : String} {d : Directive} {r : ByteRange} {next index next' k : Nat}
    {explicit : Bool} {specs : List Specifier} (hstep : Numbers next d index explicit next')
    (hd : (d, r) ∈ locate 0 text.toList) (h : IsNext following text next' specs k) :
    IsNext following text next (d.toSpecifier r index explicit :: specs) k := by
  cases h with
  | none hnone =>
    rcases hstep.next_eq hd with ⟨hcounts, rfl⟩ | ⟨hpassed, rfl⟩
    · exact .nearest (List.nil_append _).symm hcounts hnone
    · exact .none (List.forall_mem_cons.mpr ⟨hpassed, hnone⟩)
  | nearest hspecs hp hback => exact .nearest (by rw [hspecs, List.cons_append]) hp hback

/-- **Every specifier is numbered by its own directive and by those before it.** -/
theorem exists_isNext {text : String} {next : Nat} {ds : List (Directive × ByteRange)}
    (hds : ∀ x ∈ ds, x ∈ locate 0 text.toList) {before after : List Specifier} {s : Specifier}
    (h : number next ds = before ++ s :: after) :
    ∃ d next' next'', (d, s.range) ∈ ds ∧ s = d.toSpecifier s.range s.index s.explicit ∧
      IsNext following text next before next' ∧ Numbers next' d s.index s.explicit next'' := by
  induction before generalizing next ds with
  | nil =>
    cases ds with
    | nil => cases h
    | cons x ds =>
      obtain ⟨index, explicit, next', hstep, hx⟩ := exists_numbers next x.1
      rw [hx] at h
      obtain ⟨rfl, _⟩ := List.cons.inj h
      exact ⟨x.1, next, next', List.mem_cons_self, rfl, .none (List.forall_mem_nil _), hstep⟩
  | cons b before ih =>
    cases ds with
    | nil => cases h
    | cons x ds =>
      obtain ⟨index, explicit, between, hstep, hx⟩ := exists_numbers next x.1
      rw [hx] at h
      obtain ⟨rfl, htail⟩ := List.cons.inj h
      obtain ⟨hfirst, hrest⟩ := List.forall_mem_cons.mp hds
      obtain ⟨d, next', next'', hd, hs, hnext, hown⟩ := ih hrest htail
      exact ⟨d, next', next'', List.mem_cons_of_mem _ hd, hs, hnext.cons hstep hfirst, hown⟩

/-- Specifiers of a text that are numbered as they are written, where `succ` gives the number after
    another one. -/
structure NumberedBy (succ : Nat → Nat) (text : String) (specs : List Specifier) : Prop where
  literal : ∀ s ∈ specs, s.isLiteral = true → s.index = 0
  explicit_iff : ∀ s ∈ specs,
    s.explicit = true ↔ s.isLiteral = false ∧ ∃ digits, s.HasDigits text digits
  written : ∀ s ∈ specs, s.explicit = true → ∀ k, s.HasNumber text k → s.index = k
  excessive : ∀ s ∈ specs, s.explicit = true → (∀ k, ¬ s.HasNumber text k) → s.index = 0
  unnumbered : ∀ before s after, specs = before ++ s :: after → s.isLiteral = false →
    s.explicit = false → IsNext succ text 1 before s.index

/-- A specifier of a text, as the numbering of its directive. -/
theorem exists_numbers_of_mem {text : String} {s : Specifier} (hs : s ∈ specifiers text) :
    ∃ d next next', (d, s.range) ∈ locate 0 text.toList ∧ s.isLiteral = d.isLiteral ∧
      (∀ digits, s.HasDigits text digits ↔ d.number = some digits) ∧ 1 ≤ next ∧
      Numbers next d s.index s.explicit next' := by
  obtain ⟨before, after, hspecs⟩ := List.append_of_mem hs
  obtain ⟨d, next, next', hd, hown, hnext, hstep⟩ := exists_isNext (fun _ hx => hx) hspecs
  refine ⟨d, next, next', hd, congrArg Specifier.isLiteral hown, fun digits => ?_, ?_, hstep⟩
  · rw [hown]
    exact hasDigits_toSpecifier hd _ _ digits
  · cases hnext with
    | none _ => exact Nat.le_refl 1
    | nearest _ _ _ => exact one_le_following _

/-- **The specifiers of a text are numbered as they are written.** -/
theorem numberedBy_following (text : String) : NumberedBy following text (specifiers text) := by
  constructor
  case literal =>
    intro s hs hliteral
    obtain ⟨d, next, next', _, hsame, _, _, hstep⟩ := exists_numbers_of_mem hs
    exact hstep.index_of_literal (hsame ▸ hliteral)
  case explicit_iff =>
    intro s hs
    obtain ⟨d, next, next', _, hsame, hdigits, _, hstep⟩ := exists_numbers_of_mem hs
    simp only [hsame, hdigits]
    exact hstep.explicit_iff
  case written =>
    rintro s hs hx k ⟨digits, hwritten, hvalue⟩
    obtain ⟨d, next, next', _, _, hdigits, _, hstep⟩ := exists_numbers_of_mem hs
    exact hstep.index_of_written hx ((hdigits digits).mp hwritten) hvalue
  case excessive =>
    intro s hs hx hnone
    obtain ⟨d, next, next', _, _, hdigits, _, hstep⟩ := exists_numbers_of_mem hs
    refine hstep.index_of_excessive hx fun digits k hnumber hvalue => hnone k ?_
    exact ⟨digits, (hdigits digits).mpr hnumber, hvalue⟩
  case unnumbered =>
    intro before s after hspecs hliteral hx
    obtain ⟨d, next, next', _, hown, hnext, hstep⟩ := exists_isNext (fun _ hx => hx) hspecs
    have hd : d.isLiteral = false := (congrArg Specifier.isLiteral hown).symm.trans hliteral
    rw [hstep.index_of_unnumbered hx hd]
    exact hnext

/-! ## 4. The counter stays small -/

/-- The counter grows by at most one with each directive. -/
theorem index_le_of_mem {next bound : Nat} {ds : List (Directive × ByteRange)}
    (hnext : next ≤ bound) (hbound : UInt32.size ≤ bound) {s : Specifier}
    (hs : s ∈ number next ds) : s.index ≤ bound + ds.length := by
  induction ds generalizing next bound with
  | nil => cases hs
  | cons x ds ih =>
    obtain ⟨index, explicit, next', hstep, hx⟩ := exists_numbers next x.1
    have hindex : index ≤ bound ∧ next' ≤ bound + 1 := by
      cases hstep with
      | literal _ | excessive _ _ _ => exact ⟨Nat.zero_le _, by omega⟩
      | unnumbered _ _ => exact ⟨hnext, by have := following_le next; omega⟩
      | written _ _ hvalue =>
        have := hvalue.fits
        exact ⟨by omega, by have := following_le index; omega⟩
    rw [hx] at hs
    rcases List.mem_cons.mp hs with rfl | hs
    · exact Nat.le_trans hindex.1 (Nat.le_add_right _ _)
    · have hrest := ih hindex.2 (Nat.le_succ_of_le hbound) hs
      rw [List.length_cons]
      omega

/-- There are no more directives than characters. -/
theorem length_visitsFrom_le (skip offset : Nat) (cs : List Char) :
    (visitsFrom skip offset cs).length ≤ cs.length := by
  induction cs generalizing skip offset with
  | nil => exact Nat.le_refl 0
  | cons c cs ih =>
    rw [visitsFrom, List.length_cons]
    split
    · exact Nat.le_succ_of_le (ih _ _)
    · split
      · exact Nat.le_succ_of_le (ih _ _)
      · split
        · split <;> exact Nat.succ_le_succ (ih _ _)
        · exact Nat.le_succ_of_le (ih _ _)

/-- **In a text of less than 2^62 bytes counting never stops at the largest number.** -/
theorem following_of_mem {text : String} (htext : text.utf8ByteSize < 2 ^ 62) {s : Specifier}
    (hs : s ∈ specifiers text) : following s.index = 1 + s.index := by
  have hindex : s.index ≤ UInt32.size + (locate 0 text.toList).length :=
    index_le_of_mem (by decide) (Nat.le_refl _) hs
  have hdirectives : (locate 0 text.toList).length ≤ text.utf8ByteSize := by
    rw [locate_eq_visits, utf8ByteSize_eq_width]
    exact Nat.le_trans (List.length_filterMap_le _ _)
      (Nat.le_trans (length_visitsFrom_le _ _ _) (length_le_width _))
  have hsmall : s.index + 1 ≤ maxIndex := by
    unfold maxIndex
    simp only [UInt32.size, UInt64.size] at hindex ⊢
    omega
  rw [following, Nat.min_eq_left hsmall, Nat.add_comm]

/-! ## 5. Counting arguments -/

theorem mem_insertAscending {n k : Nat} {l : List Nat} :
    k ∈ insertAscending n l ↔ k = n ∨ k ∈ l := by
  induction l with
  | nil => simp [insertAscending]
  | cons m l ih =>
    rw [insertAscending]
    split
    · simp
    · split
      · next heq => simp [heq]
      · simp only [List.mem_cons, ih]
        exact or_left_comm

theorem pairwise_insertAscending {n : Nat} {l : List Nat} (h : l.Pairwise (· < ·)) :
    (insertAscending n l).Pairwise (· < ·) := by
  induction l with
  | nil => exact List.pairwise_singleton _ _
  | cons m l ih =>
    obtain ⟨hm, hl⟩ := List.pairwise_cons.mp h
    rw [insertAscending]
    split
    · next hlt =>
      refine List.pairwise_cons.mpr ⟨List.forall_mem_cons.mpr ⟨hlt, fun k hk => ?_⟩, h⟩
      exact Nat.lt_trans hlt (hm k hk)
    · split
      · exact h
      · next hge hne =>
        refine List.pairwise_cons.mpr ⟨fun k hk => ?_, ih hl⟩
        rcases mem_insertAscending.mp hk with rfl | hk
        · omega
        · exact hm k hk

/-- The arguments that are listed are those that a specifier takes, and they ascend. -/
theorem argumentIndices_spec (specs : List Specifier) :
    (argumentIndices specs).Pairwise (· < ·) ∧
      ∀ k, k ∈ argumentIndices specs ↔
        0 < k ∧ ∃ s ∈ specs, s.isLiteral = false ∧ s.index = k := by
  have hfold : ∀ (kept : List Specifier) (l : List Nat), l.Pairwise (· < ·) →
      (kept.foldl (fun is s => insertAscending s.index is) l).Pairwise (· < ·) ∧
        ∀ k, k ∈ kept.foldl (fun is s => insertAscending s.index is) l ↔
          k ∈ l ∨ ∃ s ∈ kept, s.index = k := by
    intro kept
    induction kept with
    | nil => exact fun l hl => ⟨hl, by simp⟩
    | cons s kept ih =>
      intro l hl
      obtain ⟨hpairwise, hmem⟩ := ih _ (pairwise_insertAscending hl)
      refine ⟨hpairwise, fun k => ?_⟩
      rw [List.foldl_cons, hmem, mem_insertAscending]
      simp only [List.mem_cons, exists_eq_or_imp]
      rw [eq_comm, or_assoc, or_left_comm]
  obtain ⟨hpairwise, hmem⟩ :=
    hfold (specs.filter fun s => !s.isLiteral && 0 < s.index) [] List.Pairwise.nil
  refine ⟨hpairwise, fun k => (hmem k).trans ?_⟩
  simp only [List.not_mem_nil, false_or, List.mem_filter, Bool.and_eq_true, Bool.not_eq_true',
    decide_eq_true_eq]
  constructor
  · rintro ⟨s, ⟨hs, hliteral, hpos⟩, rfl⟩
    exact ⟨hpos, s, hs, hliteral, rfl⟩
  · rintro ⟨hpos, s, hs, hliteral, rfl⟩
    exact ⟨s, ⟨hs, hliteral, hpos⟩, rfl⟩

theorem reach_eq {s : Specifier} (h : s.isLiteral = false) : s.reach = s.index := by
  rw [Specifier.reach, h]
  rfl

/-- The number of arguments is the highest number that a specifier takes. -/
theorem argumentCount_spec (specs : List Specifier) :
    (∀ s ∈ specs, s.isLiteral = false → s.index ≤ argumentCount specs) ∧
      (argumentCount specs ≠ 0 →
        ∃ s ∈ specs, s.isLiteral = false ∧ s.index = argumentCount specs) := by
  rw [argumentCount_eq, List.foldl_max, Nat.zero_max]
  cases hmax : (specs.map Specifier.reach).max? with
  | none =>
    have hempty := List.map_eq_nil_iff.mp (List.max?_eq_none_iff.mp hmax)
    rw [hempty]
    exact ⟨List.forall_mem_nil _, fun h => absurd rfl h⟩
  | some n =>
    obtain ⟨hmem, hle⟩ := List.max?_eq_some_iff.mp hmax
    rw [Option.getD_some]
    refine ⟨fun s hs hliteral => ?_, fun hn => ?_⟩
    · rw [← reach_eq hliteral]
      exact hle _ (List.mem_map_of_mem hs)
    · obtain ⟨s, hs, rfl⟩ := List.mem_map.mp hmem
      have hliteral : s.isLiteral = false := by
        rw [Bool.eq_false_iff]
        exact fun h => hn (if_pos h)
      exact ⟨s, hs, hliteral, (reach_eq hliteral).symm⟩

/-- How the arguments of some specifiers are counted. The list of the arguments stands for their set:
    it ascends, so nothing is in it twice. -/
structure ArgumentsCounted (specs : List Specifier) : Prop where
  le_count : ∀ s ∈ specs, s.isLiteral = false → s.index ≤ argumentCount specs
  count_taken : argumentCount specs ≠ 0 →
    ∃ s ∈ specs, s.isLiteral = false ∧ s.index = argumentCount specs
  ascending : (argumentIndices specs).Pairwise (· < ·)
  mem_indices : ∀ k, k ∈ argumentIndices specs ↔
    1 ≤ k ∧ ∃ s ∈ specs, s.isLiteral = false ∧ s.index = k
  max_indices : (argumentIndices specs).max?.getD 0 = argumentCount specs
  conversion_iff : ∀ k, 1 ≤ k →
    ((argumentConversion specs k).isSome = true ↔ k ∈ argumentIndices specs)

theorem argumentsCounted (specs : List Specifier) : ArgumentsCounted specs := by
  obtain ⟨hascending, hmem⟩ := argumentIndices_spec specs
  obtain ⟨hle, htaken⟩ := argumentCount_spec specs
  refine ⟨hle, htaken, hascending, hmem, ?_, fun k hk => ?_⟩
  · cases hmax : (argumentIndices specs).max? with
    | none =>
      have hempty := List.max?_eq_none_iff.mp hmax
      refine (Classical.byContradiction fun hcount => ?_ : 0 = argumentCount specs)
      have hcount : argumentCount specs ≠ 0 := fun h => hcount h.symm
      have hlisted := (hmem _).mpr ⟨Nat.pos_of_ne_zero hcount, htaken hcount⟩
      rw [hempty] at hlisted
      cases hlisted
    | some n =>
      obtain ⟨hn, hgreatest⟩ := List.max?_eq_some_iff.mp hmax
      obtain ⟨hpos, s, hs, hliteral, rfl⟩ := (hmem n).mp hn
      have hcount := hle s hs hliteral
      have hlisted := (hmem _).mpr ⟨by omega, htaken (by omega)⟩
      exact Nat.le_antisymm hcount (hgreatest _ hlisted)
  · rw [argumentConversion, Option.isSome_map, specifierFor, List.find?_isSome, hmem]
    simp only [Specifier.takes, Bool.and_eq_true, Bool.not_eq_true', beq_iff_eq]
    exact (and_iff_right hk).symm

/-! ## 6. The numbers of a text -/

theorem NumberedBy.congr {succ succ' : Nat → Nat} {text : String} {specs : List Specifier}
    (h : NumberedBy succ text specs) (hsucc : ∀ s ∈ specs, succ s.index = succ' s.index) :
    NumberedBy succ' text specs where
  literal := h.literal
  explicit_iff := h.explicit_iff
  written := h.written
  excessive := h.excessive
  unnumbered before s after hspecs hliteral hx := by
    have hnext := h.unnumbered before s after hspecs hliteral hx
    generalize s.index = k at hnext ⊢
    cases hnext with
    | none hnone => exact .none hnone
    | @nearest front back p hbefore hp hback =>
      have hmem : p ∈ specs := by
        rw [hspecs, hbefore]
        simp
      rw [hsucc p hmem]
      exact .nearest hbefore hp hback

/-- **The arguments that the specifiers of a text take**, for every text:

    * `%%` and `%n` have the number zero, and so has a specifier whose written number does not fit in
      32 bits; any other written number is taken as it is;
    * an unnumbered specifier has the number after that of the nearest specifier before it that
      counts, or one. Counting stops at the largest number, which a text of less than 2^62 bytes does
      not reach;
    * the number of arguments is the highest number, and the greatest among those that are listed;
      just the arguments that are listed have a conversion. -/
theorem specifiers_numbered (text : String) :
    NumberedBy following text (specifiers text) ∧
    (text.utf8ByteSize < 2 ^ 62 →
      NumberedBy (1 + ·) text (specifiers text) ∧
      ∀ s ∈ specifiers text, following s.index = 1 + s.index) ∧
    ArgumentsCounted (specifiers text) := by
  have hnumbered := numberedBy_following text
  refine ⟨hnumbered, fun htext => ?_, argumentsCounted _⟩
  have hsucc : ∀ s ∈ specifiers text, following s.index = 1 + s.index :=
    fun s hs => following_of_mem htext hs
  exact ⟨hnumbered.congr hsucc, hsucc⟩

-- Written numbers, one of them too large, between specifiers without one and two that take nothing.
example : (specifiers "%2$s %s %% %1$d %d %n %99999999999$s %s").map (·.index) =
    [2, 3, 0, 1, 2, 0, 0, 3] := by
  cbv

/-- A directive that is not at fault has a number that fits in 32 bits, if it has one. -/
theorem Directive.denotes_of_fault_eq_none {d : Directive} (h : d.fault = none)
    {digits : List Char} (hnumber : d.number = some digits) : ∃ k, Denotes digits k := by
  cases hvalue : Directive.numberValue? digits with
  | some k => exact ⟨k, Directive.numberValue?_eq_some_iff.mp hvalue⟩
  | none => simp [Directive.fault, hnumber, hvalue] at h

/-- In a format string a specifier that takes an argument has the number zero exactly if zero is
    written. -/
theorem hasNumber_zero_iff {text : String} (hformat : kind text = .format) {s : Specifier}
    (hs : s ∈ specifiers text) (hliteral : s.isLiteral = false) :
    s.index = 0 ↔ s.HasNumber text 0 := by
  obtain ⟨d, next, next', hd, hsame, hdigits, hnext, hstep⟩ := exists_numbers_of_mem hs
  have hfault := fault_eq_none_of_format (kindFrom_of_kind hformat fun h => by cases h) hd
  constructor
  · intro hzero
    by_cases hx : s.explicit = true
    · obtain ⟨_, digits, hnumber⟩ := hstep.explicit_iff.mp hx
      obtain ⟨k, hk⟩ := Directive.denotes_of_fault_eq_none hfault hnumber
      have hindex := hstep.index_of_written hx hnumber hk
      rw [hzero] at hindex
      subst hindex
      exact ⟨digits, (hdigits digits).mpr hnumber, hk⟩
    · -- an unnumbered specifier has the number that counting has got to, which is never zero
      have hindex := hstep.index_of_unnumbered (Bool.eq_false_iff.mpr hx) (hsame ▸ hliteral)
      omega
  · rintro ⟨digits, hwritten, hzero⟩
    have hnumber := (hdigits digits).mp hwritten
    have hx := hstep.explicit_iff.mpr ⟨hsame ▸ hliteral, digits, hnumber⟩
    exact hstep.index_of_written hx hnumber hzero

/-- **In a format string just the specifiers with a written zero escape notice.** They have the
    number zero, as if they took no argument. Any other specifier that takes an argument has a number
    from one on, is counted, and its number has a first specifier for the checks of types. -/
theorem index_eq_zero_iff_written {text : String} (hformat : kind text = .format) {s : Specifier}
    (hs : s ∈ specifiers text) (hliteral : s.isLiteral = false) :
    (s.index = 0 ↔ s.HasNumber text 0) ∧
      (¬ s.HasNumber text 0 →
        1 ≤ s.index ∧ s.index ≤ argumentCount (specifiers text) ∧
        s.index ∈ argumentIndices (specifiers text) ∧
        ∃ first, specifierFor (specifiers text) s.index = some first) := by
  have hzero := hasNumber_zero_iff hformat hs hliteral
  have hcounted := argumentsCounted (specifiers text)
  refine ⟨hzero, fun hwritten => ?_⟩
  have hindex : 1 ≤ s.index := Nat.one_le_iff_ne_zero.mpr (mt hzero.mp hwritten)
  have hlisted := (hcounted.mem_indices s.index).mpr ⟨hindex, s, hs, hliteral, rfl⟩
  refine ⟨hindex, hcounted.le_count s hs hliteral, hlisted, ?_⟩
  have hconversion := (hcounted.conversion_iff s.index hindex).mpr hlisted
  rw [argumentConversion, Option.isSome_map] at hconversion
  exact Option.isSome_iff_exists.mp hconversion

/-- An unnumbered specifier and one with a written zero. -/
def zeroText : String := "%s, %00$d"

theorem index_eq_zero_iff_written_both :
    kind zeroText = .format ∧ ∃ s t, s ∈ specifiers zeroText ∧ t ∈ specifiers zeroText ∧
      s.isLiteral = false ∧ t.isLiteral = false ∧ t.HasNumber zeroText 0 ∧
      ¬ s.HasNumber zeroText 0 ∧ s.index ∈ argumentIndices (specifiers zeroText) := by
  have hformat : kind zeroText = .format := by decide +kernel
  have hspecs : specifiers zeroText =
      [⟨1, false, "", false, 's', ⟨0, 2⟩⟩, ⟨0, true, "", false, 'd', ⟨4, 9⟩⟩] := by decide +kernel
  obtain ⟨s, t, h⟩ : ∃ s t, specifiers zeroText = [s, t] ∧ s.isLiteral = false ∧
      t.isLiteral = false ∧ s.index = 1 ∧ t.index = 0 := ⟨_, _, hspecs, rfl, rfl, rfl, rfl⟩
  obtain ⟨hst, hs, ht, hone, hzero⟩ := h
  have hmem : s ∈ specifiers zeroText ∧ t ∈ specifiers zeroText := by simp [hst]
  have hfirst := index_eq_zero_iff_written hformat hmem.1 hs
  have hsecond := index_eq_zero_iff_written hformat hmem.2 ht
  have hwritten : ¬ s.HasNumber zeroText 0 := fun h => by
    have := hfirst.1.mpr h
    omega
  exact ⟨hformat, s, t, hmem.1, hmem.2, hs, ht, hsecond.1.mp hzero, hwritten,
    (hfirst.2 hwritten).2.2.1⟩

/-- A format string whose only specifier takes an argument and is counted by nothing. -/
theorem written_zero_uncounted :
    kind "%0$s" = .format ∧ specifiers "%0$s" = [⟨0, true, "", false, 's', ⟨0, 4⟩⟩] ∧
      (∀ s ∈ specifiers "%0$s", s.isLiteral = false ∧ ¬ 1 ≤ s.index) ∧
      argumentCount (specifiers "%0$s") = 0 ∧ argumentIndices (specifiers "%0$s") = [] := by
  have hspecs : specifiers "%0$s" = [⟨0, true, "", false, 's', ⟨0, 4⟩⟩] := by decide +kernel
  rw [hspecs]
  exact ⟨by decide +kernel, rfl, List.forall_mem_singleton.mpr ⟨rfl, by decide⟩, rfl, rfl⟩

end AndroidLint.Format
