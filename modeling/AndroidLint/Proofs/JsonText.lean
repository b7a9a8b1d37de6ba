/-
  File:      AndroidLint/Proofs/JsonText.lean
  Subject:   JSON that is written is read back.

  A plain value is one whose numbers all have 64 bits and no sign, fraction or exponent. The printer
  and the reader meet in the middle: each level of a value is read back whatever follows it, as long
  as that does not make a number longer:

  * `readText_escape`:      a text is read back up to its closing quote;
  * `readNumber_toDigits`:  a number is read back;
  * `readValue_print`:      a plain value is read back at every depth;
  * `parse?_pretty`:        the text of a plain value is that value.
-/
import AndroidLint.Json.Printer
import AndroidLint.Json.Reader

namespace AndroidLint

/-! ## 1. Numbers -/

namespace Text

theorem digitValue?_of_isDigit {c : Char} (h : c.isDigit = true) :
    digitValue? 10 c = some (c.toNat - '0'.toNat) := by
  obtain ⟨hlow, hhigh⟩ := Char.isDigit_iff_toNat.mp h
  have hrange : '0' ≤ c ∧ c ≤ '9' := ⟨hlow, hhigh⟩
  have hvalue : c.toNat - '0'.toNat < 10 := by
    have hzero : '0'.toNat = 48 := rfl
    have hnine : '9'.toNat = 57 := rfl
    omega
  simp only [digitValue?, if_pos hrange, if_pos hvalue]

theorem valueFrom?_of_isDigit {cs : List Char} (h : ∀ c ∈ cs, c.isDigit = true) (value : Nat) :
    valueFrom? 10 value cs = some (Nat.ofDigitChars 10 cs value) := by
  induction cs generalizing value with
  | nil => rfl
  | cons c cs ih =>
    rw [valueFrom?, digitValue?_of_isDigit (h c List.mem_cons_self), Nat.ofDigitChars_cons,
      Nat.mul_comm]
    exact ih (fun d hd => h d (List.mem_cons_of_mem c hd)) _

/-- **The digits of a number denote it.** -/
theorem natural?_toDigits (n : Nat) : natural? 10 (Nat.toDigits 10 n) = some n := by
  have hdigits : ∀ c ∈ Nat.toDigits 10 n, c.isDigit = true :=
    fun c hc => Nat.isDigit_of_mem_toDigits (by decide) (by decide) hc
  have hsome : (Nat.toDigits 10 n).isEmpty = false :=
    List.isEmpty_eq_false_iff.mpr Nat.toDigits_ne_nil
  rw [natural?, hsome, if_neg Bool.false_ne_true, valueFrom?_of_isDigit hdigits,
    Nat.ofDigitChars_ten_toDigits]

end Text

namespace Json

/-- What follows makes no number longer. -/
def EndsNumber (rest : List Char) : Prop :=
  ∀ c, rest.head? = some c → c.isDigit = false ∧ c ≠ '.' ∧ c ≠ 'e' ∧ c ≠ 'E'

theorem endsNumber_nil : EndsNumber [] := fun _ h => by cases h

theorem endsNumber_comma (rest : List Char) : EndsNumber (',' :: rest) := by
  intro c h
  cases h
  decide

theorem endsNumber_newLine (depth : Nat) (rest : List Char) :
    EndsNumber (newLine depth ++ rest) := by
  intro c h
  cases h
  decide

theorem readDigits_append {ds rest : List Char} (hds : ∀ d ∈ ds, d.isDigit = true) (hsome : ds ≠ [])
    (hrest : EndsNumber rest) : readDigits (ds ++ rest) = some (ds, rest) := by
  have hstop : rest.takeWhile Char.isDigit = [] := by
    cases rest with
    | nil => rfl
    | cons c cs => exact List.takeWhile_cons_of_neg (by simp [(hrest c rfl).1])
  have htake : (ds ++ rest).takeWhile Char.isDigit = ds := by
    rw [List.takeWhile_append_of_pos hds, hstop, List.append_nil]
  rw [readDigits, htake, List.drop_left]
  exact if_neg (by simpa using hsome)

theorem readFraction_of_endsNumber {rest : List Char} (h : EndsNumber rest) :
    readFraction rest = some ([], rest) := by
  unfold readFraction
  split
  · exact absurd rfl (h '.' rfl).2.1
  · rfl

theorem readExponent_of_endsNumber {rest : List Char} (h : EndsNumber rest) :
    readExponent rest = some ([], rest) := by
  cases rest with
  | nil => rfl
  | cons c cs =>
    obtain ⟨_, _, hlow, hhigh⟩ := h c rfl
    exact if_neg (by simp [hlow, hhigh])

theorem head?_toDigits_append (n : Nat) (rest : List Char) :
    (Nat.toDigits 10 n ++ rest).head? = (Nat.toDigits 10 n).head? := by
  cases h : Nat.toDigits 10 n with
  | nil => exact absurd h Nat.toDigits_ne_nil
  | cons d ds => rfl

theorem head?_toDigits_ne_zero {n : Nat} (hn : 0 < n) : (Nat.toDigits 10 n).head? ≠ some '0' := by
  induction n using Nat.strongRecOn with
  | ind n ih =>
    by_cases hsmall : n < 10
    · rw [Nat.toDigits_of_lt_base hsmall, List.head?_cons, ne_eq, Option.some.injEq,
        Nat.digitChar_eq_zero]
      omega
    · rw [Nat.toDigits_of_base_le (by decide) (by omega), head?_toDigits_append]
      exact ih (n / 10) (by omega) (by omega)

/-- The digits of a number are one number: only those of zero begin with a zero. -/
theorem readWhole_toDigits (n : Nat) {rest : List Char} (hrest : EndsNumber rest) :
    readWhole (Nat.toDigits 10 n ++ rest) = some (Nat.toDigits 10 n, rest) := by
  by_cases hn : n = 0
  · subst hn
    have hnext : rest.head?.any Char.isDigit = false := by
      cases rest with
      | nil => rfl
      | cons c cs => exact (hrest c rfl).1
    rw [Nat.toDigits_zero, List.singleton_append, readWhole, hnext]
    rfl
  · have hdigits : ∀ c ∈ Nat.toDigits 10 n, c.isDigit = true :=
      fun c hc => Nat.isDigit_of_mem_toDigits (by decide) (by decide) hc
    unfold readWhole
    split
    · next cs heq =>
      refine absurd ?_ (head?_toDigits_ne_zero (Nat.pos_of_ne_zero hn))
      rw [← head?_toDigits_append n rest, heq, List.head?_cons]
    · exact readDigits_append hdigits Nat.toDigits_ne_nil hrest

/-- **A number of 64 bits is read back.** -/
theorem readNumber_toDigits {n : Nat} (hn : n < UInt64.size) {rest : List Char}
    (hrest : EndsNumber rest) :
    readNumber (Nat.toDigits 10 n ++ rest) = some (.nat n, rest) := by
  unfold readNumber
  split
  next sign rest' hsign =>
    split at hsign
    · next cs heq =>
      -- no digit is a sign
      have hhead : (Nat.toDigits 10 n).head? = some '-' := by
        rw [← head?_toDigits_append n rest, heq, List.head?_cons]
      have hdigit := Nat.isDigit_of_mem_toDigits (by decide) (by decide) (List.mem_of_head? hhead)
      exact absurd hdigit (by decide)
    · cases hsign
      simp only [readWhole_toDigits n hrest, readFraction_of_endsNumber hrest,
        readExponent_of_endsNumber hrest, Text.natural?_toDigits, Option.bind_eq_bind,
        Option.bind_some, List.isEmpty_nil, Bool.and_self, if_true, if_pos hn, Option.pure_def]

/-! ## 2. Texts -/

theorem natural?_unit : ∀ n < 0x20,
    Text.natural? 16 ['0', '0', hexDigit (n / 16), hexDigit (n % 16)] = some n := by
  decide +kernel

/-- A control character is read back from its number. -/
theorem readEscape_unit {c : Char} (hc : c.toNat < 0x20) (rest : List Char) :
    readEscape ('u' :: '0' :: '0' :: hexDigit (c.toNat / 16) :: hexDigit (c.toNat % 16) :: rest) =
      some (c, rest) := by
  have hunit : ¬ (0xD800 ≤ c.toNat ∧ c.toNat < 0xDC00) := by omega
  have hsecond : ¬ (0xDC00 ≤ c.toNat ∧ c.toNat < 0xE000) := by omega
  simp only [readEscape, readCode, readUnit, natural?_unit c.toNat hc, Option.map_some,
    Option.bind_eq_bind, Option.bind_some, if_neg hunit, if_neg hsecond, Option.pure_def,
    Char.ofNat_toNat]

/-- A character is written as it is, or as an escape that is read back. -/
theorem escape_cases (c : Char) :
    (escape c = [c] ∧ c ≠ '"' ∧ c ≠ '\\' ∧ ¬ c.toNat < 0x20) ∨
      ∃ e, escape c = '\\' :: e ∧ ∀ rest, readEscape (e ++ rest) = some (c, rest) := by
  have hletter : ∀ {e : Char}, e ≠ 'u' → simpleEscape? e = some c →
      ∀ rest, readEscape ([e] ++ rest) = some (c, rest) := by
    intro e hu he rest
    rw [List.singleton_append, readEscape, he, Option.map_some]
    exact hu
  fun_cases escape c with
  | case1 h => exact .inr ⟨_, rfl, hletter (by decide) (congrArg some h.symm)⟩
  | case2 _ h => exact .inr ⟨_, rfl, hletter (by decide) (congrArg some h.symm)⟩
  | case3 _ _ h => exact .inr ⟨_, rfl, hletter (by decide) (congrArg some h.symm)⟩
  | case4 _ _ _ h => exact .inr ⟨_, rfl, hletter (by decide) (congrArg some h.symm)⟩
  | case5 _ _ _ _ h => exact .inr ⟨_, rfl, hletter (by decide) (congrArg some h.symm)⟩
  | case6 _ _ _ _ _ h => exact .inr ⟨_, rfl, hletter (by decide) (congrArg some h.symm)⟩
  | case7 _ _ _ _ _ _ h => exact .inr ⟨_, rfl, hletter (by decide) (congrArg some h.symm)⟩
  | case8 _ _ _ _ _ _ _ hcontrol => exact .inr ⟨_, rfl, readEscape_unit hcontrol⟩
  | case9 hquote hslash _ _ _ _ _ hcontrol => exact .inl ⟨rfl, hquote, hslash, hcontrol⟩

/-- A character is read back from how it is written. -/
theorem readText_escape_append (c : Char) (fuel : Nat) (cs : List Char) :
    readText (fuel + 1) (escape c ++ cs) =
      (readText fuel cs).map fun p => (c :: p.1, p.2) := by
  rcases escape_cases c with ⟨hplain, hquote, hslash, hcontrol⟩ | ⟨e, hescape, hread⟩
  · rw [hplain, List.singleton_append, readText]
    · exact if_neg hcontrol
    · exact hquote
    · exact hslash
  · rw [hescape, List.cons_append, readText, hread]
    cases h : readText fuel cs <;> simp [h]

/-- **A text is read back up to its closing quote.** -/
theorem readText_escape (cs : List Char) {fuel : Nat} (hfuel : cs.length < fuel)
    (rest : List Char) :
    readText fuel (cs.flatMap escape ++ '"' :: rest) = some (cs, rest) := by
  induction cs generalizing fuel with
  | nil =>
    obtain ⟨fuel, rfl⟩ := Nat.exists_eq_add_of_lt hfuel
    rfl
  | cons c cs ih =>
    obtain ⟨fuel, rfl⟩ : ∃ n, fuel = n + 1 := ⟨fuel - 1, by omega⟩
    rw [List.length_cons] at hfuel
    rw [List.flatMap_cons, List.append_assoc, readText_escape_append, ih (by omega), Option.map_some]

theorem length_le_flatMap_escape (cs : List Char) : cs.length ≤ (cs.flatMap escape).length := by
  induction cs with
  | nil => exact Nat.le_refl _
  | cons c cs ih =>
    have hc : 0 < (escape c).length := by
      rcases escape_cases c with ⟨h, _⟩ | ⟨e, h, _⟩ <;> simp [h]
    rw [List.flatMap_cons, List.length_append, List.length_cons]
    omega

/-! ## 3. Blanks -/

theorem skipBlanks_cons {c : Char} (hc : isBlank c = false) (cs : List Char) :
    skipBlanks (c :: cs) = c :: cs :=
  List.dropWhile_cons_of_neg (by simp [hc])

theorem skipBlanks_space (cs : List Char) : skipBlanks (' ' :: cs) = skipBlanks cs := rfl

theorem skipBlanks_newLine (depth : Nat) (cs : List Char) :
    skipBlanks (newLine depth ++ cs) = skipBlanks cs := by
  have hblank : ∀ c ∈ newLine depth, isBlank c = true := by
    intro c hc
    rcases List.mem_cons.mp hc with rfl | hc
    · rfl
    · rw [List.eq_of_mem_replicate hc]
      rfl
  exact List.dropWhile_append_of_pos hblank

/-! ## 4. Values -/

/-- All numbers of the value have 64 bits and no sign, fraction or exponent. -/
inductive Value.IsPlain : Value → Prop where
  | null : IsPlain .null
  | bool (b : Bool) : IsPlain (.bool b)
  | nat {n : Nat} (h : n < UInt64.size) : IsPlain (.nat n)
  | str (s : String) : IsPlain (.str s)
  | arr {items : List Value} (h : ∀ v ∈ items, IsPlain v) : IsPlain (.arr items)
  | obj {members : List (String × Value)} (h : ∀ m ∈ members, IsPlain m.2) : IsPlain (.obj members)

/-- A value begins with a character that is no blank and closes no array. -/
theorem print_cons (depth : Nat) {v : Value} (hv : v.IsPlain) :
    ∃ c cs, print depth v = c :: cs ∧ isBlank c = false ∧ c ≠ ']' := by
  cases hv with
  | null => exact ⟨_, _, rfl, by decide, by decide⟩
  | bool b => cases b <;> exact ⟨_, _, rfl, by decide, by decide⟩
  | @nat n _ =>
    cases h : Nat.toDigits 10 n with
    | nil => exact absurd h Nat.toDigits_ne_nil
    | cons d ds =>
      have hd : d.isDigit = true :=
        Nat.isDigit_of_mem_toDigits (by decide) (by decide) (h ▸ List.mem_cons_self)
      refine ⟨d, ds, h, ?_, ?_⟩
      · cases hblank : isBlank d with
        | false => rfl
        | true =>
          simp only [isBlank, Bool.or_eq_true, beq_iff_eq] at hblank
          rcases hblank with ((rfl | rfl) | rfl) | rfl <;> cases hd
      · rintro rfl
        cases hd
  | str s => exact ⟨_, _, rfl, by decide, by decide⟩
  | @arr items _ => cases items <;> exact ⟨_, _, rfl, by decide, by decide⟩
  | @obj members _ => cases members <;> exact ⟨_, _, rfl, by decide, by decide⟩

theorem skipBlanks_print (depth : Nat) {v : Value} (hv : v.IsPlain) (rest : List Char) :
    skipBlanks (print depth v ++ rest) = print depth v ++ rest := by
  obtain ⟨c, cs, hprint, hblank, _⟩ := print_cons depth hv
  rw [hprint, List.cons_append, skipBlanks_cons hblank]

/-- A text in quotes is read back; a key is one, and so is a value. -/
theorem readText_quoted (s : String) (rest : List Char) :
    quoted s ++ rest = '"' :: (s.toList.flatMap escape ++ '"' :: rest) ∧
      readText ((s.toList.flatMap escape ++ '"' :: rest).length + 1)
        (s.toList.flatMap escape ++ '"' :: rest) = some (s.toList, rest) := by
  constructor
  · simp [quoted]
  · refine readText_escape s.toList ?_ rest
    have := length_le_flatMap_escape s.toList
    rw [List.length_append]
    omega

theorem skipBlanks_quoted (s : String) (rest : List Char) :
    skipBlanks (quoted s ++ rest) = quoted s ++ rest := rfl

/-- Written at a depth, the value is read back whatever follows. -/
def ReadsBack (depth : Nat) (v : Value) : Prop :=
  ∀ fuel rest, 2 * (print depth v).length ≤ fuel → EndsNumber rest →
    readValue fuel (print depth v ++ rest) = some (v, rest)

/-- There is fuel for the first character. -/
theorem readsBack_of_succ {depth : Nat} {v : Value} (hv : v.IsPlain)
    (h : ∀ fuel rest, 2 * (print depth v).length ≤ fuel + 1 → EndsNumber rest →
      readValue (fuel + 1) (print depth v ++ rest) = some (v, rest)) : ReadsBack depth v := by
  intro fuel rest hfuel hrest
  obtain ⟨c, cs, hprint, _⟩ := print_cons depth hv
  obtain ⟨fuel, rfl⟩ : ∃ n, fuel = n + 1 :=
    ⟨fuel - 1, by rw [hprint, List.length_cons] at hfuel; omega⟩
  exact h fuel rest hfuel hrest

theorem readsBack_str (depth : Nat) (s : String) : ReadsBack depth (.str s) := by
  refine readsBack_of_succ (.str s) fun fuel rest _ _ => ?_
  obtain ⟨hquoted, hread⟩ := readText_quoted s rest
  simp only [print, hquoted, readValue, hread, Option.map_some, String.ofList_toList]

theorem readsBack_nat (depth : Nat) {n : Nat} (hn : n < UInt64.size) :
    ReadsBack depth (.nat n) := by
  refine readsBack_of_succ (.nat hn) fun fuel rest _ hrest => ?_
  have hread := readNumber_toDigits hn hrest
  rw [print]
  cases h : Nat.toDigits 10 n with
  | nil => exact absurd h Nat.toDigits_ne_nil
  | cons d ds =>
    have hd : d.isDigit = true :=
      Nat.isDigit_of_mem_toDigits (by decide) (by decide) (h ▸ List.mem_cons_self)
    rw [h, List.cons_append] at hread
    rw [List.cons_append, readValue, hread]
    -- a digit begins none of the other values
    all_goals
      intro _ hd'
      obtain ⟨rfl, _⟩ := List.cons.inj hd'
      cases hd

/-- The items of an array are read back, one after the other. -/
theorem readItems_print {depth : Nat} {vs : List Value}
    (hvs : ∀ w ∈ vs, w.IsPlain ∧ ReadsBack depth w)
    {v : Value} (hv : ReadsBack depth v) (outer : Nat) {fuel : Nat} (rest : List Char)
    (hfuel : 2 * ((print depth v).length + (printItems depth vs).length) < fuel) :
    readItems fuel (print depth v ++ (printItems depth vs ++ (newLine outer ++ ']' :: rest))) =
      some (v :: vs, rest) := by
  induction vs generalizing v fuel with
  | nil =>
    obtain ⟨fuel, rfl⟩ : ∃ n, fuel = n + 1 := ⟨fuel - 1, by omega⟩
    rw [printItems, List.nil_append, readItems, hv fuel _ (by omega) (endsNumber_newLine _ _)]
    simp only [Option.bind_eq_bind, Option.bind_some, skipBlanks_newLine,
      skipBlanks_cons (c := ']') rfl, Option.pure_def]
  | cons w ws ih =>
    obtain ⟨hplain, hw⟩ := hvs w List.mem_cons_self
    simp only [printItems, List.length_cons, List.length_append] at hfuel
    obtain ⟨fuel, rfl⟩ : ∃ n, fuel = n + 1 := ⟨fuel - 1, by omega⟩
    have hrest : readItems fuel (print depth w ++ (printItems depth ws ++
        (newLine outer ++ ']' :: rest))) = some (w :: ws, rest) :=
      ih (fun x hx => hvs x (List.mem_cons_of_mem w hx)) hw (by omega)
    simp only [printItems, List.cons_append, List.append_assoc]
    rw [readItems, hv fuel _ (by omega) (endsNumber_comma _)]
    simp only [Option.bind_eq_bind, Option.bind_some, skipBlanks_cons (c := ',') rfl,
      skipBlanks_newLine, skipBlanks_print depth hplain, hrest, Option.pure_def]

/-- The members of an object are read back, one after the other. -/
theorem readMembers_print {depth : Nat} {ms : List (String × Value)}
    (hms : ∀ m ∈ ms, m.2.IsPlain ∧ ReadsBack depth m.2) (k : String) {v : Value}
    (hplain : v.IsPlain) (hv : ReadsBack depth v) (outer : Nat) {fuel : Nat} (rest : List Char)
    (hfuel : 2 * ((print depth v).length + (printMembers depth ms).length) < fuel) :
    readMembers fuel (quoted k ++ ([':', ' '] ++ (print depth v ++
        (printMembers depth ms ++ (newLine outer ++ '\x7d' :: rest))))) =
      some ((k, v) :: ms, rest) := by
  induction ms generalizing k v fuel with
  | nil =>
    obtain ⟨fuel, rfl⟩ : ∃ n, fuel = n + 1 := ⟨fuel - 1, by omega⟩
    obtain ⟨hquoted, hkey⟩ := readText_quoted k ([':', ' '] ++ (print depth v ++
      (newLine outer ++ '\x7d' :: rest)))
    rw [printMembers, List.nil_append, hquoted, readMembers, hkey]
    simp only [Option.bind_eq_bind, Option.bind_some, List.cons_append, List.nil_append,
      skipBlanks_cons (c := ':') rfl, skipBlanks_space, skipBlanks_print depth hplain,
      hv fuel _ (by omega) (endsNumber_newLine _ _), skipBlanks_newLine,
      skipBlanks_cons (c := '\x7d') rfl, Option.pure_def, String.ofList_toList]
  | cons m ms ih =>
    obtain ⟨k', w⟩ := m
    obtain ⟨hnext, hw⟩ : w.IsPlain ∧ ReadsBack depth w := hms (k', w) List.mem_cons_self
    simp only [printMembers, List.length_cons, List.length_append] at hfuel
    obtain ⟨fuel, rfl⟩ : ∃ n, fuel = n + 1 := ⟨fuel - 1, by omega⟩
    have hrest : readMembers fuel (quoted k' ++ ([':', ' '] ++ (print depth w ++
        (printMembers depth ms ++ (newLine outer ++ '\x7d' :: rest))))) =
          some ((k', w) :: ms, rest) :=
      ih (fun x hx => hms x (List.mem_cons_of_mem _ hx)) k' hnext hw (by omega)
    obtain ⟨hquoted, hkey⟩ := readText_quoted k ([':', ' '] ++ (print depth v ++
      (printMembers depth ((k', w) :: ms) ++ (newLine outer ++ '\x7d' :: rest))))
    rw [hquoted, readMembers, hkey]
    simp only [printMembers, Option.bind_eq_bind, Option.bind_some, List.cons_append,
      List.nil_append, List.append_assoc] at hrest ⊢
    simp only [skipBlanks_cons (c := ':') rfl, skipBlanks_space, skipBlanks_print depth hplain,
      hv fuel _ (by omega) (endsNumber_comma _), skipBlanks_cons (c := ',') rfl,
      skipBlanks_newLine, skipBlanks_quoted, hrest, Option.bind_some, Option.pure_def,
      String.ofList_toList]

theorem readsBack_arr {depth : Nat} {items : List Value} (hplain : ∀ v ∈ items, v.IsPlain)
    (hitems : ∀ v ∈ items, ReadsBack (depth + 1) v) : ReadsBack depth (.arr items) := by
  refine readsBack_of_succ (.arr hplain) fun fuel rest hfuel _ => ?_
  cases items with
  | nil => rfl
  | cons v vs =>
    obtain ⟨hv, hvs⟩ := List.forall_mem_cons.mp hitems
    obtain ⟨hhead, htail⟩ := List.forall_mem_cons.mp hplain
    obtain ⟨c, cs, hprint, hblank, hclose⟩ := print_cons (depth + 1) hhead
    simp only [print, List.length_cons, List.length_append] at hfuel
    have hread : readItems fuel (print (depth + 1) v ++ (printItems (depth + 1) vs ++
        (newLine depth ++ ']' :: rest))) = some (v :: vs, rest) :=
      readItems_print (fun w hw => ⟨htail w hw, hvs w hw⟩) hv depth rest (by omega)
    simp only [print, List.cons_append, List.append_assoc, List.nil_append, hprint] at hread ⊢
    rw [readValue, skipBlanks_newLine, skipBlanks_cons hblank]
    split
    · next heq => exact absurd (List.cons.inj heq).1 hclose
    · rw [hread, Option.map_some]

theorem readsBack_obj {depth : Nat} {members : List (String × Value)}
    (hplain : ∀ m ∈ members, m.2.IsPlain) (hmembers : ∀ m ∈ members, ReadsBack (depth + 1) m.2) :
    ReadsBack depth (.obj members) := by
  refine readsBack_of_succ (.obj hplain) fun fuel rest hfuel _ => ?_
  cases members with
  | nil => rfl
  | cons m ms =>
    obtain ⟨k, v⟩ := m
    obtain ⟨(hv : ReadsBack (depth + 1) v), hms⟩ := List.forall_mem_cons.mp hmembers
    obtain ⟨(hhead : v.IsPlain), htail⟩ := List.forall_mem_cons.mp hplain
    simp only [print, List.length_cons, List.length_append] at hfuel
    have hread : readMembers fuel (quoted k ++ ([':', ' '] ++ (print (depth + 1) v ++
        (printMembers (depth + 1) ms ++ (newLine depth ++ '\x7d' :: rest))))) =
          some ((k, v) :: ms, rest) :=
      readMembers_print (fun m hm => ⟨htail m hm, hms m hm⟩) k hhead hv depth rest (by omega)
    simp only [print, List.cons_append, List.append_assoc, List.nil_append] at hread ⊢
    rw [readValue, skipBlanks_newLine, skipBlanks_quoted]
    split
    · next heq => cases heq
    · rw [hread, Option.map_some]

/-- **A plain value is read back at every depth, whatever follows it.** -/
theorem readValue_print {v : Value} (hv : v.IsPlain) (depth : Nat) : ReadsBack depth v := by
  induction hv generalizing depth with
  | null => exact readsBack_of_succ .null fun _ _ _ _ => rfl
  | bool b => exact readsBack_of_succ (.bool b) fun _ _ _ _ => by cases b <;> rfl
  | nat hn => exact readsBack_nat depth hn
  | str s => exact readsBack_str depth s
  | arr hplain ih => exact readsBack_arr hplain fun v hv => ih v hv (depth + 1)
  | obj hplain ih => exact readsBack_obj hplain fun m hm => ih m hm (depth + 1)

/-- **The text of a plain value is that value.** -/
theorem parse?_pretty {v : Value} (hv : v.IsPlain) : parse? (pretty v) = some v := by
  have hread := readValue_print hv 0 (2 * (print 0 v).length + 1) [] (by omega) endsNumber_nil
  have hskip := skipBlanks_print 0 hv []
  rw [List.append_nil] at hread hskip
  simp only [parse?, pretty, String.toList_ofList, hskip, hread, Option.bind_eq_bind,
    Option.bind_some]
  rfl

end Json

end AndroidLint
