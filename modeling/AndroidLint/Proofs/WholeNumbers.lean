/-
  File:      AndroidLint/Proofs/WholeNumbers.lean
  Subject:   Reading a whole number inverts every way to write it.

  A `Spelling` of a number is its opening, its digits in either case of letters, marks between them
  and a suffix. The four radixes are told apart by their openings only, once marks and suffix are
  gone:

  * `Spelling.bareNumber_text`:  what is left without marks and suffix;
  * `int64?_digits`:             the number that digits denote, when it has 63 bits;
  * `intLiteral?_spelling`:      the number of a spelling.
-/
import AndroidLint.Source.Literal
import Mathlib.Data.Nat.Digits.Lemmas

namespace AndroidLint.Source

open Text

/-! ## 1. How whole numbers are written -/

/-- The radixes in which a whole number may be written. -/
inductive Radix where
  | binary | octal | decimal | hexadecimal
  deriving DecidableEq, Repr

namespace Radix

/-- The number of digits of a radix. -/
def base : Radix → Nat
  | binary => 2
  | octal => 8
  | decimal => 10
  | hexadecimal => 16

/-- What stands in front of the digits. -/
def openings : Radix → List (List Char)
  | binary => [['0', 'b'], ['0', 'B']]
  | octal => [['0']]
  | decimal => [[]]
  | hexadecimal => [['0', 'x'], ['0', 'X']]

theorem one_lt_base (radix : Radix) : 1 < radix.base := by
  cases radix <;> decide

theorem base_le (radix : Radix) : radix.base ≤ 16 := by
  cases radix <;> decide

end Radix

/-- A digit, where a letter may be a small one or a capital. -/
structure Digit (base : Nat) where
  value : Nat
  capital : Bool
  value_lt : value < base

namespace Digit

variable {base : Nat}

/-- How the digit is written. -/
def char (d : Digit base) : Char :=
  if d.capital then (Nat.digitChar d.value).toUpper else Nat.digitChar d.value

/-- The number that digits denote, the most significant one first. -/
def number (ds : List (Digit base)) : Nat := Nat.ofDigits base (ds.map value).reverse

theorem number_cons (d : Digit base) (ds : List (Digit base)) :
    number (d :: ds) = d.value * base ^ ds.length + number ds := by
  unfold number
  rw [List.map_cons, Nat.ofDigits_reverse_cons, List.length_map]
  ring

end Digit

/-- The characters with marks behind them: `marks i` behind the one at `i`. -/
def withMarks (marks : Nat → Nat) : List Char → List Char
  | [] => []
  | c :: cs => c :: (List.replicate (marks 0) '_' ++ withMarks (fun i => marks (i + 1)) cs)

/-- A way to write a number in a radix. -/
structure Spelling (radix : Radix) (n : Nat) where
  /-- What tells the radix. -/
  opening : List Char
  digits : List (Digit radix.base)
  /-- How many marks stand behind each character of the opening and the digits. -/
  marks : Nat → Nat
  suffix : List Char
  opening_mem : opening ∈ radix.openings
  digits_ne_nil : digits ≠ []
  /-- A decimal number does not begin with a zero, unless it is zero. -/
  leading : radix = .decimal → (digits.head?.map Digit.value) = some 0 → n = 0
  number_eq : Digit.number digits = n
  suffix_mem : ∀ c ∈ suffix, c ∈ ['l', 'L', 'u', 'U']

/-- The characters of the number, from the first one to the end of the suffix. -/
def Spelling.text {radix : Radix} {n : Nat} (s : Spelling radix n) : String :=
  String.ofList (withMarks s.marks (s.opening ++ s.digits.map Digit.char) ++ s.suffix)

/-! ## 2. Digits -/

theorem Radix.digitValue?_char {radix : Radix} (d : Digit radix.base) :
    digitValue? radix.base d.char = some d.value := by
  have hall : ∀ v < radix.base, ∀ capital : Bool,
      digitValue? radix.base
        (if capital then (Nat.digitChar v).toUpper else Nat.digitChar v) = some v := by
    cases radix <;> decide
  exact hall d.value d.value_lt d.capital

/-- The characters of digits. -/
def digitChars : List Char :=
  ['0', '1', '2', '3', '4', '5', '6', '7', '8', '9', 'a', 'b', 'c', 'd', 'e', 'f',
   'A', 'B', 'C', 'D', 'E', 'F']

theorem Digit.char_mem {base : Nat} (hbase : base ≤ 16) (d : Digit base) :
    d.char ∈ digitChars := by
  have hall : ∀ v < 16, ∀ capital : Bool,
      (if capital then (Nat.digitChar v).toUpper else Nat.digitChar v) ∈ digitChars := by
    decide
  exact hall d.value (Nat.lt_of_lt_of_le d.value_lt hbase) d.capital

/-- The digits up to nine are written without letters, and zero as `0` alone. -/
theorem Digit.isDigit_char {base : Nat} (hbase : base ≤ 10) (d : Digit base) :
    d.char.isDigit = true ∧ (d.char = '0' ↔ d.value = 0) := by
  have hall : ∀ v < 10, ∀ capital : Bool,
      (if capital then (Nat.digitChar v).toUpper else Nat.digitChar v).isDigit = true ∧
        ((if capital then (Nat.digitChar v).toUpper else Nat.digitChar v) = '0' ↔ v = 0) := by
    decide
  exact hall d.value (Nat.lt_of_lt_of_le d.value_lt hbase) d.capital

theorem valueFrom?_digits {radix : Radix} (value : Nat) (ds : List (Digit radix.base)) :
    valueFrom? radix.base value (ds.map Digit.char) =
      some (value * radix.base ^ ds.length + Digit.number ds) := by
  induction ds generalizing value with
  | nil => simp [valueFrom?, Digit.number]
  | cons d ds ih =>
    rw [List.map_cons, valueFrom?, Radix.digitValue?_char]
    dsimp only
    rw [ih, Digit.number_cons, List.length_cons, Nat.pow_succ]
    ring_nf

theorem natural?_digits {radix : Radix} {ds : List (Digit radix.base)} (hne : ds ≠ []) :
    natural? radix.base (ds.map Digit.char) = some (Digit.number ds) := by
  have hsome : (ds.map Digit.char).isEmpty = false := by
    rw [List.isEmpty_eq_false_iff]
    exact fun h => hne (List.map_eq_nil_iff.mp h)
  rw [natural?, hsome, valueFrom?_digits]
  simp

/-- Without a sign in front, a number is accepted below `2 ^ 63`. -/
theorem int64?_of_natural? {base n : Nat} {cs : List Char} (h : natural? base cs = some n)
    (hplus : cs.head? ≠ some '+') (hminus : cs.head? ≠ some '-') :
    int64? base cs = if n < 2 ^ 63 then some (n : Int) else none := by
  have hbound : (-9223372036854775808 ≤ (n : Int) ∧ (n : Int) ≤ 9223372036854775807) ↔
      n < 2 ^ 63 := by omega
  unfold int64?
  split
  · exact absurd rfl hplus
  · exact absurd rfl hminus
  · rw [h]
    show (if -9223372036854775808 ≤ (n : Int) ∧ (n : Int) ≤ 9223372036854775807 then some (n : Int)
      else none) = _
    simp only [hbound]

theorem int64?_digits {radix : Radix} {ds : List (Digit radix.base)} (hne : ds ≠ []) :
    int64? radix.base (ds.map Digit.char) =
      if Digit.number ds < 2 ^ 63 then some (Digit.number ds : Int) else none := by
  have hhead : ∀ c, c ∉ digitChars → (ds.map Digit.char).head? ≠ some c := by
    intro c hc heq
    obtain ⟨d, -, rfl⟩ := List.mem_map.mp (List.mem_of_head? heq)
    exact hc (d.char_mem radix.base_le)
  exact int64?_of_natural? (natural?_digits hne) (hhead '+' (by decide)) (hhead '-' (by decide))

/-! ## 3. Marks and suffixes -/

theorem filter_withMarks {marks : Nat → Nat} {cs : List Char} (h : '_' ∉ cs) :
    (withMarks marks cs).filter (· != '_') = cs := by
  induction cs generalizing marks with
  | nil => rfl
  | cons c cs ih =>
    have hc : c ≠ '_' := fun heq => h (heq ▸ List.mem_cons_self)
    have hcs : '_' ∉ cs := fun hmem => h (List.mem_cons_of_mem c hmem)
    have hmarks : (List.replicate (marks 0) '_').filter (· != '_') = [] := by
      simp
    rw [withMarks, List.filter_cons, if_pos (bne_iff_ne.mpr hc), List.filter_append, hmarks,
      List.nil_append, ih hcs]

theorem mem_withMarks {marks : Nat → Nat} {cs : List Char} {c : Char}
    (h : c ∈ withMarks marks cs) : c = '_' ∨ c ∈ cs := by
  induction cs generalizing marks with
  | nil => cases h
  | cons d cs ih =>
    rw [withMarks, List.mem_cons, List.mem_append] at h
    rcases h with rfl | hmark | hrest
    · exact .inr List.mem_cons_self
    · exact .inl (List.eq_of_mem_replicate hmark)
    · exact (ih hrest).imp_right (List.mem_cons_of_mem d)

/-- A suffix is taken off as a whole when what stands in front of it has none of its letters. -/
theorem bareNumber_append {isSuffix : Char → Bool} {front suffix : List Char}
    (hfront : ∀ c ∈ front, isSuffix c = false) (hsuffix : ∀ c ∈ suffix, isSuffix c = true) :
    bareNumber isSuffix (String.ofList (front ++ suffix)) = front.filter (· != '_') := by
  have hkept : front.reverse.dropWhile isSuffix = front.reverse := by
    cases hr : front.reverse with
    | nil => rfl
    | cons c cs =>
      have hc : c ∈ front := List.mem_reverse.mp (hr ▸ List.mem_cons_self)
      rw [List.dropWhile_cons_of_neg (by simp [hfront c hc])]
  rw [bareNumber, String.toList_ofList, List.reverse_append, List.dropWhile_append_of_pos
    (fun c hc => hsuffix c (List.mem_reverse.mp hc)), hkept, List.reverse_reverse]

/-- The characters of a number are digits and base letters, neither marks nor suffixes. -/
theorem Spelling.mem_written {radix : Radix} {n : Nat} (s : Spelling radix n) {c : Char}
    (h : c ∈ s.opening ++ s.digits.map Digit.char) : c ≠ '_' ∧ isIntSuffix c = false := by
  have hopening : ∀ opening ∈ radix.openings, ∀ c ∈ opening, c ∈ 'x' :: 'X' :: digitChars := by
    cases radix <;> simp [Radix.openings, digitChars]
  have hmem : c ∈ 'x' :: 'X' :: digitChars := by
    rcases List.mem_append.mp h with hc | hc
    · exact hopening s.opening s.opening_mem c hc
    · obtain ⟨d, -, rfl⟩ := List.mem_map.mp hc
      exact List.mem_cons_of_mem _ (List.mem_cons_of_mem _ (d.char_mem radix.base_le))
  have hall : ('x' :: 'X' :: digitChars).all (fun c => c != '_' && !isIntSuffix c) = true := by
    decide
  have hc := List.all_eq_true.mp hall c hmem
  rw [Bool.and_eq_true, bne_iff_ne, Bool.not_eq_true'] at hc
  exact hc

theorem Spelling.bareNumber_text {radix : Radix} {n : Nat} (s : Spelling radix n) :
    bareNumber isIntSuffix s.text = s.opening ++ s.digits.map Digit.char := by
  have hfront : ∀ c ∈ withMarks s.marks (s.opening ++ s.digits.map Digit.char),
      isIntSuffix c = false := by
    intro c hc
    rcases mem_withMarks hc with rfl | hc
    · rfl
    · exact (s.mem_written hc).2
  have hsuffix : ∀ c ∈ s.suffix, isIntSuffix c = true := by
    intro c hc
    have hletter := s.suffix_mem c hc
    simp only [List.mem_cons, List.not_mem_nil, or_false] at hletter
    rcases hletter with rfl | rfl | rfl | rfl <;> rfl
  rw [text, bareNumber_append hfront hsuffix, filter_withMarks fun h => (s.mem_written h).1 rfl]

/-! ## 4. Whole numbers -/

section Bare

variable {text : String} {cs : List Char}

theorem intLiteral?_hexadecimal {c : Char} (h : bareNumber isIntSuffix text = '0' :: c :: cs)
    (hc : c = 'x' ∨ c = 'X') : intLiteral? text = int64? 16 cs := by
  unfold intLiteral?
  rw [h]
  rcases hc with rfl | rfl <;> rfl

theorem intLiteral?_binary {c : Char} (h : bareNumber isIntSuffix text = '0' :: c :: cs)
    (hc : c = 'b' ∨ c = 'B') : intLiteral? text = int64? 2 cs := by
  unfold intLiteral?
  rw [h]
  rcases hc with rfl | rfl <;> rfl

theorem intLiteral?_octal (h : bareNumber isIntSuffix text = '0' :: cs) (hne : cs ≠ [])
    (hdigits : ∀ c ∈ cs, c.isDigit = true) : intLiteral? text = int64? 8 cs := by
  unfold intLiteral?
  rw [h]
  dsimp only
  split
  · next heq => exact absurd (hdigits 'x' (by simp_all)) (by decide)
  · next heq => exact absurd (hdigits 'X' (by simp_all)) (by decide)
  · next heq => exact absurd (hdigits 'b' (by simp_all)) (by decide)
  · next heq => exact absurd (hdigits 'B' (by simp_all)) (by decide)
  · next heq =>
    obtain rfl := (List.cons.inj heq).2
    rw [if_pos (List.all_eq_true.mpr hdigits)]
  · next hother =>
    obtain ⟨c, rest, rfl⟩ := List.exists_cons_of_ne_nil hne
    exact (hother c rest rfl).elim

theorem intLiteral?_decimal (h : bareNumber isIntSuffix text = cs)
    (hzero : cs.head? = some '0' → cs = ['0']) : intLiteral? text = int64? 10 cs := by
  unfold intLiteral?
  rw [h]
  dsimp only
  split <;> simp_all

end Bare

/-- Zeros alone are zero, whether one takes them for octal or for decimal. -/
theorem intLiteral?_zeros {text : String} {k : Nat}
    (h : bareNumber isIntSuffix text = List.replicate (k + 1) '0') : intLiteral? text = some 0 := by
  have hvalue : ∀ k, valueFrom? 8 0 (List.replicate k '0') = some 0 := by
    intro k
    induction k with
    | zero => rfl
    | succ k ih => exact ih
  cases k with
  | zero => exact intLiteral?_decimal h fun _ => rfl
  | succ k =>
    have hdigits : ∀ c ∈ List.replicate (k + 1) '0', c.isDigit = true := by
      intro c hc
      rw [List.eq_of_mem_replicate hc]
      rfl
    rw [intLiteral?_octal h (List.cons_ne_nil _ _) hdigits]
    have hread : natural? 8 (List.replicate (k + 1) '0') = some 0 := hvalue (k + 1)
    exact int64?_of_natural? hread (by simp [List.replicate_succ]) (by simp [List.replicate_succ])

/-! ## 5. Every number has a spelling, and every spelling its number -/

theorem Digit.exists_of_lt {base : Nat} {vs : List Nat} (h : ∀ v ∈ vs, v < base) :
    ∃ ds : List (Digit base), ds.map Digit.value = vs := by
  induction vs with
  | nil => exact ⟨[], rfl⟩
  | cons v vs ih =>
    obtain ⟨hv, hvs⟩ := List.forall_mem_cons.mp h
    obtain ⟨ds, rfl⟩ := ih hvs
    exact ⟨⟨v, false, hv⟩ :: ds, rfl⟩

/-- Digits for a number, with no zero in front of others. -/
theorem Digit.exists_number {base : Nat} (hbase : 1 < base) (n : Nat) :
    ∃ ds : List (Digit base), ds ≠ [] ∧ number ds = n ∧
      (ds.head?.map Digit.value = some 0 → n = 0) := by
  by_cases hn : n = 0
  · exact ⟨[⟨0, false, by omega⟩], List.cons_ne_nil _ _, hn.symm, fun _ => hn⟩
  · have hne : base.digits n ≠ [] := Nat.digits_ne_nil_iff_ne_zero.mpr hn
    have hlt : ∀ v ∈ (base.digits n).reverse, v < base := fun v hv =>
      Nat.digits_lt_base hbase (List.mem_reverse.mp hv)
    obtain ⟨ds, hds⟩ := Digit.exists_of_lt hlt
    refine ⟨ds, ?_, ?_, fun hhead => ?_⟩
    · rintro rfl
      exact hne (List.reverse_eq_nil_iff.mp hds.symm)
    · rw [number, hds, List.reverse_reverse, Nat.ofDigits_digits]
    · rw [← List.head?_map, hds, List.head?_reverse, List.getLast?_eq_some_getLast hne] at hhead
      exact absurd (Option.some.inj hhead) (Nat.getLast_digit_ne_zero base hn)

theorem Spelling.nonempty (radix : Radix) (n : Nat) : Nonempty (Spelling radix n) := by
  obtain ⟨opening, hopening⟩ : ∃ opening, opening ∈ radix.openings := by
    cases radix <;> exact ⟨_, List.mem_cons_self⟩
  obtain ⟨ds, hne, hnumber, hleading⟩ := Digit.exists_number radix.one_lt_base n
  exact ⟨⟨opening, ds, fun _ => 0, [], hopening, hne, fun _ => hleading, hnumber,
    List.forall_mem_nil _⟩⟩

/-- A decimal number that begins with a zero is written in zeros alone. -/
theorem Spelling.bareNumber_zeros (s : Spelling .decimal 0) :
    ∃ k, bareNumber isIntSuffix s.text = List.replicate (k + 1) '0' := by
  have hzeros : ∀ c ∈ s.digits.map Digit.char, c = '0' := by
    intro c hc
    obtain ⟨d, hd, rfl⟩ := List.mem_map.mp hc
    refine (d.isDigit_char (Nat.le_refl 10)).2.mpr ?_
    exact Nat.digits_zero_of_eq_zero (by decide) s.number_eq d.value
      (List.mem_reverse.mpr (List.mem_map_of_mem hd))
  obtain ⟨k, hk⟩ := Nat.exists_eq_add_one_of_ne_zero
    (fun h => s.digits_ne_nil (List.length_eq_zero_iff.mp h))
  refine ⟨k, ?_⟩
  rw [s.bareNumber_text, List.mem_singleton.mp s.opening_mem, List.nil_append,
    List.eq_replicate_of_mem hzeros, List.length_map, hk]

/-- **Reading a whole number inverts every spelling of it**, up to the largest number of 63 bits. -/
theorem intLiteral?_spelling (radix : Radix) (n : Nat) :
    Nonempty (Spelling radix n) ∧ ∀ s : Spelling radix n,
      intLiteral? s.text = if n < 2 ^ 63 then some (n : Int) else none := by
  refine ⟨Spelling.nonempty radix n, fun s => ?_⟩
  have hbare := s.bareNumber_text
  have hread := int64?_digits s.digits_ne_nil
  rw [s.number_eq] at hread
  cases radix with
  | hexadecimal =>
    obtain ⟨c, hopening, hc⟩ : ∃ c, s.opening = ['0', c] ∧ (c = 'x' ∨ c = 'X') := by
      rcases List.mem_pair.mp s.opening_mem with h | h
      · exact ⟨'x', h, .inl rfl⟩
      · exact ⟨'X', h, .inr rfl⟩
    rw [hopening] at hbare
    rw [intLiteral?_hexadecimal hbare hc]
    exact hread
  | binary =>
    obtain ⟨c, hopening, hc⟩ : ∃ c, s.opening = ['0', c] ∧ (c = 'b' ∨ c = 'B') := by
      rcases List.mem_pair.mp s.opening_mem with h | h
      · exact ⟨'b', h, .inl rfl⟩
      · exact ⟨'B', h, .inr rfl⟩
    rw [hopening] at hbare
    rw [intLiteral?_binary hbare hc]
    exact hread
  | octal =>
    have hdigits : ∀ c ∈ s.digits.map Digit.char, c.isDigit = true := by
      intro c hc
      obtain ⟨d, -, rfl⟩ := List.mem_map.mp hc
      exact (d.isDigit_char (by decide)).1
    rw [List.mem_singleton.mp s.opening_mem] at hbare
    rw [intLiteral?_octal hbare (fun h => s.digits_ne_nil (List.map_eq_nil_iff.mp h)) hdigits]
    exact hread
  | decimal =>
    rw [List.mem_singleton.mp s.opening_mem, List.nil_append] at hbare
    by_cases hzero : (s.digits.map Digit.char).head? = some '0'
    · -- zeros are read as octal, which makes no difference for zero
      have hn : n = 0 := by
        refine s.leading rfl ?_
        rw [List.head?_map] at hzero
        obtain ⟨d, hd, hchar⟩ := Option.map_eq_some_iff.mp hzero
        rw [hd]
        exact congrArg some ((d.isDigit_char (Nat.le_refl 10)).2.mp hchar)
      subst hn
      obtain ⟨k, hk⟩ := s.bareNumber_zeros
      exact intLiteral?_zeros hk
    · rw [intLiteral?_decimal hbare fun h => absurd h hzero]
      exact hread

end AndroidLint.Source
