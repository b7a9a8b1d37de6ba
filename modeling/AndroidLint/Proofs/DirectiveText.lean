/-
  File:      AndroidLint/Proofs/DirectiveText.lean
  Subject:   A directive is read back from the characters it is written with.

  Each part of a directive is a run of characters of a class, and what is written behind it does not
  begin with a character of that class. So reading stops where writing stopped, whatever text
  follows the directive. Only a conversion `t` looks one character further, since a conversion behind it
  would make it the letter of a date:

  * `Readable`:          the parts are of their classes;
  * `EndsBefore`:        what follows does not turn a conversion into a date letter;
  * `readable_of_read`:  a directive that is read has both;
  * `read_written`:      a directive that has both is read back.
-/
import AndroidLint.Proofs.FormatPattern

namespace AndroidLint.Format

open AndroidLint.Text

/-! ## 1. Runs of a class -/

/-- The text does not begin with a character of the class. -/
def StopsRun (p : Char → Bool) (cs : List Char) : Prop := ∀ c, cs.head? = some c → p c = false

section Runs

variable {p : Char → Bool} {run next : List Char}

theorem stopsRun_nil : StopsRun p [] := fun _ h => by cases h

theorem stopsRun_cons {c : Char} {cs : List Char} (h : p c = false) : StopsRun p (c :: cs) := by
  intro d hd
  cases hd
  exact h

theorem takeWhile_append_of_stopsRun (hrun : ∀ c ∈ run, p c = true) (hnext : StopsRun p next) :
    (run ++ next).takeWhile p = run := by
  have hnone : next.takeWhile p = [] := by
    cases next with
    | nil => rfl
    | cons c cs => exact List.takeWhile_cons_of_neg (by rw [hnext c rfl]; exact Bool.false_ne_true)
  rw [List.takeWhile_append_of_pos hrun, hnone, List.append_nil]

theorem dropWhile_append_of_stopsRun (hrun : ∀ c ∈ run, p c = true) (hnext : StopsRun p next) :
    (run ++ next).dropWhile p = next := by
  rw [List.dropWhile_append_of_pos hrun]
  cases next with
  | nil => rfl
  | cons c cs => exact List.dropWhile_cons_of_neg (by rw [hnext c rfl]; exact Bool.false_ne_true)

/-- A run is stopped by a run of other characters, and where that is empty by what follows it. -/
theorem StopsRun.append (hrun : StopsRun p run) (hnext : run = [] → StopsRun p next) :
    StopsRun p (run ++ next) := by
  cases run with
  | nil => exact hnext rfl
  | cons c cs =>
    intro d hd
    exact hrun d hd

theorem stopsRun_dropWhile (p : Char → Bool) (cs : List Char) : StopsRun p (cs.dropWhile p) := by
  intro c hc
  have hnot := List.head?_dropWhile_not p cs
  rw [hc] at hnot
  exact hnot

theorem StopsRun.takeWhile {cs : List Char} (h : StopsRun p cs) (q : Char → Bool) :
    StopsRun p (cs.takeWhile q) := by
  cases cs with
  | nil => exact stopsRun_nil
  | cons c cs =>
    by_cases hq : q c = true
    · rw [List.takeWhile_cons_of_pos hq]
      exact stopsRun_cons (h c rfl)
    · rw [List.takeWhile_cons_of_neg hq]
      exact stopsRun_nil

/-- What is left behind a run begins inside `run` or behind it. -/
theorem dropWhile_append_ne {a : Char} {tail : List Char} (hrun : ∀ c ∈ run, c ≠ a)
    (hnext : next.dropWhile p ≠ a :: tail) : (run ++ next).dropWhile p ≠ a :: tail := by
  induction run with
  | nil => exact hnext
  | cons c cs ih =>
    rw [List.cons_append]
    by_cases hc : p c = true
    · rw [List.dropWhile_cons_of_pos hc]
      exact ih fun d hd => hrun d (List.mem_cons_of_mem c hd)
    · rw [List.dropWhile_cons_of_neg hc]
      exact fun heq => hrun c List.mem_cons_self (List.cons.inj heq).1

end Runs

namespace Directive

/-! ## 2. The parts of a directive -/

/-- The parts of a directive are of their classes. -/
structure Readable (d : Directive) : Prop where
  number : ∀ ds, d.number = some ds → ds ≠ [] ∧ ∀ c ∈ ds, isDigit c = true
  flags : ∀ c ∈ d.flags, isFlag c = true
  fieldWidth : ∀ c ∈ d.fieldWidth, isDigit c = true
  /-- A zero in front of the width is a flag. -/
  ownWidth : StopsRun isFlag d.fieldWidth
  precision : ∀ c ∈ d.precision, isDigit c = true
  date : ∀ t, d.date = some t → t = 't' ∨ t = 'T'
  conversion : isConversion d.conversion = true

/-- What follows the directive does not turn its conversion into the letter of a date. -/
def EndsBefore (d : Directive) (rest : List Char) : Prop :=
  d.date = none → d.conversion = 't' ∨ d.conversion = 'T' → StopsRun isConversion rest

/-- The directive from the date letter on, with the text that follows it. -/
def conversionText (d : Directive) (rest : List Char) : List Char :=
  d.date.toList ++ d.conversion :: rest

/-- From the precision on. -/
def precisionText (d : Directive) (rest : List Char) : List Char :=
  pointed d.precision ++ d.conversionText rest

/-- From the width on. -/
def widthText (d : Directive) (rest : List Char) : List Char := d.fieldWidth ++ d.precisionText rest

/-- From the flags on. -/
def flagsText (d : Directive) (rest : List Char) : List Char := d.flags ++ d.widthText rest

theorem written_append (d : Directive) (rest : List Char) :
    d.written ++ rest = '%' :: (dollared d.number ++ d.flagsText rest) := by
  rw [written_eq]
  simp only [flagsText, widthText, precisionText, conversionText, List.cons_append,
    List.append_assoc, List.nil_append]

/-! ## 3. Reading stops where writing stopped -/

theorem isConversion_of_date {t : Char} (h : t = 't' ∨ t = 'T') : isConversion t = true := by
  rcases h with rfl | rfl <;> decide

theorem isDigit_eq_false_of_isConversion {c : Char} (h : isConversion c = true) :
    isDigit c = false := by
  refine Bool.eq_false_iff.mpr fun hc => ?_
  rw [isConversion_eq_false_of_isDigit hc] at h
  exact Bool.false_ne_true h

theorem isFlag_eq_false_of_isConversion {c : Char} (h : isConversion c = true) :
    isFlag c = false := by
  refine Bool.eq_false_iff.mpr fun hc => ?_
  rw [isConversion_eq_false_of_isFlag hc] at h
  exact Bool.false_ne_true h

theorem ne_of_isConversion {a c : Char} (h : isConversion c = true) (ha : isConversion a = false) :
    c ≠ a := by
  rintro rfl
  rw [ha] at h
  exact Bool.false_ne_true h

section Reading

variable {d : Directive} (h : d.Readable) (rest : List Char)
include h

/-- The last part begins with a conversion: a date letter is one too. -/
theorem Readable.conversionText_eq_cons :
    ∃ c cs, d.conversionText rest = c :: cs ∧ isConversion c = true := by
  unfold conversionText
  cases hd : d.date with
  | none => exact ⟨_, _, rfl, h.conversion⟩
  | some t => exact ⟨_, _, rfl, isConversion_of_date (h.date t hd)⟩

/-- The last part stops a run of any class that holds no conversion. -/
theorem Readable.stopsRun_conversionText {p : Char → Bool}
    (hp : ∀ c, isConversion c = true → p c = false) : StopsRun p (d.conversionText rest) := by
  obtain ⟨c, cs, htext, hc⟩ := h.conversionText_eq_cons rest
  rw [htext]
  exact stopsRun_cons (hp c hc)

theorem Readable.stopsRun_precisionText {p : Char → Bool}
    (hp : ∀ c, isConversion c = true → p c = false) (hpoint : p '.' = false) :
    StopsRun p (d.precisionText rest) := by
  refine StopsRun.append ?_ fun _ => h.stopsRun_conversionText rest hp
  unfold pointed
  split
  · exact stopsRun_nil
  · exact stopsRun_cons hpoint

theorem Readable.readConversion_conversionText (hrest : d.EndsBefore rest) :
    readConversion (d.conversionText rest) = some (d.date, d.conversion, rest) := by
  unfold conversionText
  cases hd : d.date with
  | some t => simp [readConversion, h.date t hd, h.conversion]
  | none =>
    cases rest with
    | nil => simp [readConversion, h.conversion]
    | cons c cs =>
      have hno : ¬ ((d.conversion = 't' ∨ d.conversion = 'T') ∧ isConversion c = true) := by
        rintro ⟨ht, hc⟩
        rw [hrest hd ht c rfl] at hc
        exact Bool.false_ne_true hc
      simp [readConversion, hno, h.conversion]

theorem Readable.readPrecision_precisionText :
    readPrecision (d.precisionText rest) = (d.precision, d.conversionText rest) := by
  have hdigit : StopsRun isDigit (d.conversionText rest) :=
    h.stopsRun_conversionText rest fun c hc => isDigit_eq_false_of_isConversion hc
  unfold precisionText pointed
  cases hp : d.precision with
  | nil =>
    obtain ⟨c, cs, htext, hc⟩ := h.conversionText_eq_cons rest
    rw [List.isEmpty_nil, if_pos rfl, List.nil_append, htext]
    exact readPrecision_cons_of_ne (ne_of_isConversion hc (by decide)) cs
  | cons e es =>
    have hes : ∀ c ∈ e :: es, isDigit c = true := hp ▸ h.precision
    rw [List.isEmpty_cons, if_neg Bool.false_ne_true, List.cons_append, readPrecision,
      takeWhile_append_of_stopsRun hes hdigit, dropWhile_append_of_stopsRun hes hdigit]

theorem Readable.stopsRun_widthText : StopsRun isFlag (d.widthText rest) :=
  h.ownWidth.append fun _ =>
    h.stopsRun_precisionText rest (fun _ hc => isFlag_eq_false_of_isConversion hc) (by decide)

/-- Behind the number, digits do not run up to a dollar sign. -/
theorem Readable.dropWhile_flagsText_ne (tail : List Char) :
    (d.flagsText rest).dropWhile isDigit ≠ '$' :: tail := by
  have hdigit : ∀ c, isDigit c = true → c ≠ '$' := by
    rintro c hc rfl
    revert hc
    decide
  refine dropWhile_append_ne (fun c hc => ?_) (dropWhile_append_ne (fun c hc => ?_)
    (dropWhile_append_ne (fun c hc => ?_) ?_))
  · rintro rfl
    have hflag := h.flags _ hc
    revert hflag
    decide
  · exact hdigit c (h.fieldWidth c hc)
  · unfold pointed at hc
    split at hc
    · cases hc
    · rcases List.mem_cons.mp hc with rfl | hc
      · decide
      · exact hdigit c (h.precision c hc)
  · obtain ⟨c, cs, htext, hc⟩ := h.conversionText_eq_cons rest
    rw [htext, List.dropWhile_cons_of_neg (by rw [isDigit_eq_false_of_isConversion hc]; decide)]
    exact fun heq => ne_of_isConversion hc (by decide) (List.cons.inj heq).1

theorem Readable.readNumber_flagsText :
    readNumber (dollared d.number ++ d.flagsText rest) = (d.number, d.flagsText rest) := by
  cases hn : d.number with
  | none => exact readNumber_of_none (Or.inr (h.dropWhile_flagsText_ne rest))
  | some ds =>
    obtain ⟨hsome, hds⟩ := h.number ds hn
    have hdollar : StopsRun isDigit ('$' :: d.flagsText rest) := stopsRun_cons (by decide)
    rw [dollared, List.append_assoc]
    exact readNumber_dollar hsome (takeWhile_append_of_stopsRun hds hdollar)
      (dropWhile_append_of_stopsRun hds hdollar)

/-- **A directive is read back from the characters it is written with**, whatever follows it, except
    a conversion behind a conversion `t`. -/
theorem Readable.read_written (hrest : d.EndsBefore rest) :
    read (d.written ++ rest) = some (d, rest) := by
  have hflags := h.stopsRun_widthText rest
  have hdigits : StopsRun isDigit (d.precisionText rest) :=
    h.stopsRun_precisionText rest (fun _ hc => isDigit_eq_false_of_isConversion hc) (by decide)
  have htakeFlags : (d.flagsText rest).takeWhile isFlag = d.flags :=
    takeWhile_append_of_stopsRun h.flags hflags
  have hdropFlags : (d.flagsText rest).dropWhile isFlag = d.widthText rest :=
    dropWhile_append_of_stopsRun h.flags hflags
  have htakeWidth : (d.widthText rest).takeWhile isDigit = d.fieldWidth :=
    takeWhile_append_of_stopsRun h.fieldWidth hdigits
  have hdropWidth : (d.widthText rest).dropWhile isDigit = d.precisionText rest :=
    dropWhile_append_of_stopsRun h.fieldWidth hdigits
  rw [written_append, read]
  simp only [h.readNumber_flagsText rest, htakeFlags, hdropFlags, htakeWidth, hdropWidth,
    h.readPrecision_precisionText rest, h.readConversion_conversionText rest hrest]
  rfl

end Reading

/-! ## 4. Directives that are read -/

theorem readNumber_digits {cs ds : List Char} (h : (readNumber cs).1 = some ds) :
    ds ≠ [] ∧ ∀ c ∈ ds, isDigit c = true := by
  unfold readNumber at h
  simp only at h
  split at h
  · next d ds' rest hd hr =>
    cases h
    refine ⟨by rw [hd]; exact List.cons_ne_nil d ds', fun c hc => List.mem_takeWhile_imp hc⟩
  · cases h

theorem readPrecision_digits (cs : List Char) : ∀ c ∈ (readPrecision cs).1, isDigit c = true := by
  unfold readPrecision
  split
  · split
    · exact List.forall_mem_nil _
    · exact fun c hc => List.mem_takeWhile_imp hc
  · exact List.forall_mem_nil _

/-- What is read as the end of a directive. -/
theorem readConversion_eq_some {cs rest : List Char} {t : Option Char} {c : Char}
    (h : readConversion cs = some (t, c, rest)) :
    isConversion c = true ∧ (∀ x, t = some x → x = 't' ∨ x = 'T') ∧
      (t = none → c = 't' ∨ c = 'T' → StopsRun isConversion rest) := by
  unfold readConversion at h
  split at h
  · next x y zs =>
    split at h
    · next hdate =>
      cases h
      exact ⟨hdate.2, fun x hx => by cases hx; exact hdate.1, fun hnone => by cases hnone⟩
    · next hdate =>
      split at h
      · next hx =>
        cases h
        refine ⟨hx, (fun x hx => by cases hx), fun _ ht => stopsRun_cons ?_⟩
        exact Bool.eq_false_iff.mpr fun hy => hdate ⟨ht, hy⟩
      · cases h
  · split at h
    · next hc =>
      cases h
      exact ⟨hc, (fun x hx => by cases hx), fun _ _ => stopsRun_nil⟩
    · cases h
  · cases h

/-- **A directive that is read can be read back**, and the text behind it leaves it as it is. -/
theorem readable_of_read {cs rest : List Char} {d : Directive} (h : read cs = some (d, rest)) :
    d.Readable ∧ d.EndsBefore rest := by
  unfold read at h
  split at h
  · next cs =>
    simp only [Option.bind_eq_bind, Option.pure_def] at h
    obtain ⟨⟨t, c, r⟩, hc, he⟩ := Option.bind_eq_some_iff.mp h
    cases he
    obtain ⟨hconversion, hdate, hends⟩ := readConversion_eq_some hc
    refine ⟨⟨fun ds hds => readNumber_digits hds, fun c hc => List.mem_takeWhile_imp hc,
      fun c hc => List.mem_takeWhile_imp hc, ?_, readPrecision_digits _, hdate, hconversion⟩, hends⟩
    exact (stopsRun_dropWhile isFlag _).takeWhile isDigit
  · cases h

end Directive

end AndroidLint.Format
