/-
  File:      AndroidLint/Proofs/QuotedLiterals.lean
  Subject:   The values of strings and characters in quotes.

  A backslash in front of a character undoes its special meaning, and reading a literal takes that
  back. The quotes at both ends, however, are taken off before the backslashes are read, and with
  the closing quote goes an escaped quote in front of it:

  * `unescape_escaped`:       reading backslashes inverts writing them;
  * `literalBody_quoted`:     what is left without the quotes;
  * `unescape_quoted`:        the value of a literal.
-/
import AndroidLint.Java.Value
import AndroidLint.Kotlin.Walk

namespace AndroidLint.Source

/-! ## 1. How values are written -/

/-- The characters that letters behind a backslash stand for. -/
def controlLetters : List (Char × Char) :=
  [('\n', 'n'), ('\t', 't'), ('\r', 'r'), ('\x00', '0')]

/-- What stands behind a backslash for a character that is not written as it is: the quote that
    ends the literal and, if `both` is set, the other quote are written so. -/
def escapeLetter? (both : Bool) (quote c : Char) : Option Char :=
  match controlLetters.lookup c with
  | some letter => some letter
  | none => if c = '\\' ∨ c = quote ∨ both = true ∧ (c = '"' ∨ c = '\'') then some c else none

/-- A character as it is written inside a literal. -/
def escaped (both : Bool) (quote c : Char) : List Char :=
  match escapeLetter? both quote c with
  | some letter => ['\\', letter]
  | none => [c]

/-- Characters as they are written inside a literal. -/
def escapedAll (both : Bool) (quote : Char) (cs : List Char) : List Char :=
  cs.flatMap (escaped both quote)

/-- The literal that denotes some characters. -/
def quoted (both : Bool) (quote : Char) (cs : List Char) : String :=
  String.ofList (quote :: (escapedAll both quote cs ++ [quote]))

/-- The two quotes. -/
def IsQuote (c : Char) : Prop := c = '"' ∨ c = '\''

/-! ## 2. Backslashes -/

theorem unescape_cons {c : Char} (h : c ≠ '\\') (cs : List Char) :
    unescape (c :: cs) = c :: unescape cs := by
  rw [unescape]
  exact h

section Quote

variable {both : Bool} {quote : Char}

/-- The letter behind the backslash is read as the character, and is the quote only for the quote
    itself. -/
theorem escapeLetter?_eq_some {c letter : Char} (hquote : IsQuote quote)
    (h : escapeLetter? both quote c = some letter) :
    (∀ cs, unescape ('\\' :: letter :: cs) = c :: unescape cs) ∧ (letter = quote ↔ c = quote) := by
  unfold escapeLetter? at h
  split at h
  · next found hfound =>
    cases h
    have hmem : (c, letter) ∈ controlLetters := by
      obtain ⟨front, back, hparts, _⟩ := List.lookup_eq_some_iff.mp hfound
      rw [hparts]
      exact List.mem_append_right _ List.mem_cons_self
    simp only [controlLetters, List.mem_cons, Prod.mk.injEq, List.not_mem_nil, or_false] at hmem
    rcases hmem with ⟨rfl, rfl⟩ | ⟨rfl, rfl⟩ | ⟨rfl, rfl⟩ | ⟨rfl, rfl⟩ <;>
      exact ⟨fun _ => rfl, by rcases hquote with rfl | rfl <;> decide⟩
  · split at h
    · next hc =>
      cases h
      have hself : c = '\\' ∨ IsQuote c := by
        rcases hc with hc | rfl | hc
        · exact .inl hc
        · exact .inr hquote
        · exact .inr hc.2
      refine ⟨fun cs => ?_, Iff.rfl⟩
      rcases hself with rfl | rfl | rfl <;> rfl
    · cases h

/-- A character that is written as it is. -/
theorem escapeLetter?_eq_none {c : Char} (h : escapeLetter? both quote c = none) :
    c ≠ '\\' ∧ c ≠ quote := by
  unfold escapeLetter? at h
  split at h
  · cases h
  · split at h
    · cases h
    · next hc => exact ⟨fun hslash => hc (.inl hslash), fun heq => hc (.inr (.inl heq))⟩

/-- Reading a character that was written in a literal. -/
theorem unescape_escaped (hquote : IsQuote quote) (c : Char) (cs : List Char) :
    unescape (escaped both quote c ++ cs) = c :: unescape cs := by
  unfold escaped
  split
  · next h => exact (escapeLetter?_eq_some hquote h).1 cs
  · next h => exact unescape_cons (escapeLetter?_eq_none h).1 cs

/-- **Reading backslashes inverts writing them.** -/
theorem unescape_escapedAll (hquote : IsQuote quote) (cs rest : List Char) :
    unescape (escapedAll both quote cs ++ rest) = cs ++ unescape rest := by
  induction cs with
  | nil => rfl
  | cons c cs ih =>
    show unescape (escaped both quote c ++ escapedAll both quote cs ++ rest) = _
    rw [List.append_assoc, unescape_escaped hquote, ih, List.cons_append]

/-! ## 3. Quotes -/

theorem dropWhile_beq_cons_self (cs : List Char) :
    (quote :: cs).dropWhile (· == quote) = cs.dropWhile (· == quote) := by
  rw [List.dropWhile_cons, if_pos (beq_self_eq_true quote)]

theorem dropWhile_beq_cons_of_ne {c : Char} (h : c ≠ quote) (cs : List Char) :
    (c :: cs).dropWhile (· == quote) = c :: cs := by
  rw [List.dropWhile_cons, if_neg (fun heq => h (eq_of_beq heq))]

/-- Of two quotes around a text that does not begin with one, the first goes alone; with the other
    go all that stand in front of it. -/
theorem literalBody_between {cs : List Char} (h : cs.head? ≠ some quote) :
    literalBody quote (String.ofList (quote :: (cs ++ [quote]))) =
      (cs.reverse.dropWhile (· == quote)).reverse := by
  unfold literalBody
  rw [String.toList_ofList, dropWhile_beq_cons_self]
  cases cs with
  | nil => rw [List.nil_append, dropWhile_beq_cons_self]; rfl
  | cons c cs =>
    have hc : c ≠ quote := fun heq => h (congrArg some heq)
    rw [List.cons_append, dropWhile_beq_cons_of_ne hc, ← List.cons_append, List.reverse_append,
      List.reverse_singleton, List.singleton_append, dropWhile_beq_cons_self]

theorem escapedAll_append (cs ds : List Char) :
    escapedAll both quote (cs ++ ds) = escapedAll both quote cs ++ escapedAll both quote ds :=
  List.flatMap_append

theorem escapedAll_singleton (c : Char) : escapedAll both quote [c] = escaped both quote c :=
  List.append_nil _

/-- What is written in a literal does not begin with the quote. -/
theorem head?_escapedAll_ne (hquote : IsQuote quote) (cs : List Char) :
    (escapedAll both quote cs).head? ≠ some quote := by
  cases cs with
  | nil => exact nofun
  | cons c cs =>
    show (escaped both quote c ++ escapedAll both quote cs).head? ≠ some quote
    unfold escaped
    split
    · rcases hquote with rfl | rfl <;> exact fun h => absurd (Option.some.inj h) (by decide)
    · next h => exact fun heq => (escapeLetter?_eq_none h).2 (Option.some.inj heq)

/-- A written character ends with the quote only if it is the quote. -/
theorem exists_escaped_concat (hquote : IsQuote quote) {c : Char} (hc : c ≠ quote) :
    ∃ ds d, escaped both quote c = ds ++ [d] ∧ d ≠ quote := by
  unfold escaped
  split
  · next letter h =>
    exact ⟨['\\'], letter, rfl, fun heq => hc ((escapeLetter?_eq_some hquote h).2.mp heq)⟩
  · exact ⟨[], c, rfl, hc⟩

/-- An escaped quote at the end loses its quote, but keeps its backslash. -/
theorem literalBody_quoted_quote (hquote : IsQuote quote) (cs : List Char) :
    literalBody quote (quoted both quote (cs ++ [quote])) = escapedAll both quote cs ++ ['\\'] := by
  have hslash : '\\' ≠ quote := by rcases hquote with rfl | rfl <;> decide
  have hlast : escapedAll both quote [quote] = ['\\', quote] := by
    rcases hquote with rfl | rfl <;> rfl
  unfold quoted
  rw [literalBody_between (head?_escapedAll_ne hquote _), escapedAll_append, hlast,
    List.reverse_append, List.reverse_cons, List.reverse_singleton, List.singleton_append,
    List.cons_append, dropWhile_beq_cons_self, List.singleton_append,
    dropWhile_beq_cons_of_ne hslash, List.reverse_cons, List.reverse_reverse]

/-- All else loses nothing but the quotes around it. -/
theorem literalBody_quoted (hquote : IsQuote quote) {cs : List Char}
    (h : cs.getLast? ≠ some quote) :
    literalBody quote (quoted both quote cs) = escapedAll both quote cs := by
  unfold quoted
  rw [literalBody_between (head?_escapedAll_ne hquote _)]
  rcases List.eq_nil_or_concat cs with rfl | ⟨front, c, rfl⟩
  · rfl
  · rw [List.concat_eq_append] at h ⊢
    have hc : c ≠ quote := fun heq => h (by rw [heq, List.getLast?_concat])
    obtain ⟨ds, d, hparts, hd⟩ :
        ∃ ds d, escaped both quote c = ds ++ [d] ∧ d ≠ quote := exists_escaped_concat hquote hc
    rw [escapedAll_append, escapedAll_singleton, hparts, ← List.append_assoc, List.reverse_concat,
      dropWhile_beq_cons_of_ne hd, List.reverse_cons, List.reverse_reverse]

end Quote

/-! ## 4. Values -/

/-- What a literal denotes that was written for some characters: a quote at their end is lost. -/
theorem unescape_quoted {quote : Char} (hquote : IsQuote quote) (both : Bool) (cs : List Char) :
    unescape (literalBody quote (quoted both quote cs)) =
      if cs.getLast? = some quote then cs.dropLast ++ ['\\'] else cs := by
  split
  · next h =>
    obtain ⟨front, rfl⟩ := List.getLast?_eq_some_iff.mp h
    rw [literalBody_quoted_quote hquote, unescape_escapedAll hquote, List.dropLast_concat]
    rfl
  · next h =>
    have hread : unescape (escapedAll both quote cs ++ []) = cs ++ unescape [] :=
      unescape_escapedAll hquote cs []
    rw [List.append_nil] at hread
    rw [literalBody_quoted hquote h, hread]
    exact List.append_nil cs

theorem stringLiteral_quoted (both : Bool) (s : String) :
    stringLiteral (quoted both '"' s.toList) =
      if s.toList.getLast? = some '"' then String.ofList (s.toList.dropLast ++ ['\\']) else s := by
  rw [stringLiteral, unescape_quoted (.inl rfl)]
  split
  · rfl
  · exact String.ofList_toList

theorem charLiteral_quoted (both : Bool) (c : Char) :
    charLiteral (quoted both '\'' [c]) = if c = '\'' then '\\' else c := by
  rw [charLiteral, unescape_quoted (.inr rfl)]
  by_cases hc : c = '\'' <;> simp [hc]

/-- **Literals denote what was written in them, except for a quote at the end.** -/
theorem literals_values (both : Bool) (s : String) (c : Char) :
    (∀ (scopes : Java.Scopes) (role : Syntax.Role) (range : ByteRange) (children : List Java.Tree),
      (Java.expr scopes ⟨.stringLiteral, role, range, quoted both '"' s.toList, children⟩).kind =
        .str (if s.toList.getLast? = some '"' then String.ofList (s.toList.dropLast ++ ['\\'])
          else s) ∧
      (Java.expr scopes ⟨.characterLiteral, role, range, quoted both '\'' [c], children⟩).kind =
        .char (if c = '\'' then '\\' else c)) ∧
    ∀ (vs : Kotlin.Variables) (role : Syntax.Role) (range : ByteRange)
      (children : List Kotlin.Tree),
      (Kotlin.expr vs ⟨.stringLiteral, role, range, quoted both '"' s.toList, children⟩).kind =
        .str (if s.toList.getLast? = some '"' then String.ofList (s.toList.dropLast ++ ['\\'])
          else s) ∧
      (Kotlin.expr vs ⟨.characterLiteral, role, range, quoted both '\'' [c], children⟩).kind =
        .char (if c = '\'' then '\\' else c) := by
  refine ⟨fun scopes role range children => ⟨?_, ?_⟩, fun vs role range children => ⟨?_, ?_⟩⟩
  · rw [Java.expr]
    exact congrArg ExprKind.str (stringLiteral_quoted both s)
  · rw [Java.expr]
    exact congrArg ExprKind.char (charLiteral_quoted both c)
  · rw [Kotlin.expr]
    exact congrArg ExprKind.str (stringLiteral_quoted both s)
  · rw [Kotlin.expr]
    exact congrArg ExprKind.char (charLiteral_quoted both c)

/-- A quote and an apostrophe are read as backslashes. -/
theorem literals_values_quotes :
    (Java.expr .empty ⟨.stringLiteral, .plain, ⟨0, 4⟩, quoted false '"' ['"'], []⟩).kind ≠
      .str "\"" ∧
    (Java.expr .empty ⟨.characterLiteral, .plain, ⟨0, 4⟩, quoted false '\'' ['\''], []⟩).kind ≠
      .char '\'' ∧
    (Kotlin.expr [] ⟨.stringLiteral, .plain, ⟨0, 4⟩, quoted false '"' ['"'], []⟩).kind ≠ .str "\"" ∧
    (Kotlin.expr [] ⟨.characterLiteral, .plain, ⟨0, 4⟩, quoted false '\'' ['\''], []⟩).kind ≠
      .char '\'' := by
  have hstring : stringLiteral (quoted false '"' ['"']) ≠ "\"" := by decide
  have hchar : charLiteral (quoted false '\'' ['\'']) ≠ '\'' := by decide
  rw [Java.expr, Java.expr, Kotlin.expr, Kotlin.expr]
  exact ⟨fun h => hstring (ExprKind.str.inj h), fun h => hchar (ExprKind.char.inj h),
    fun h => hstring (ExprKind.str.inj h), fun h => hchar (ExprKind.char.inj h)⟩

end AndroidLint.Source
