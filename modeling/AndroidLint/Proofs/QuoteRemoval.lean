/-
  File:      AndroidLint/Proofs/QuoteRemoval.lean
  Subject:   The double quotes that a resource string loses.

  A character is escaped when the one before it is a backslash that is not escaped itself, so what
  stands in front of a place decides about all that follows. Leaving a quote out moves everything
  behind it next to what stood in front:

  * `escapedAt`:           whether the character at a place is escaped;
  * `marksFrom_strip`:     the characters that stay are escaped exactly when they were before;
  * `stripQuotes_marks`:   the quotes that are not escaped go, all other characters stay.
-/
import AndroidLint.Format.Quote

namespace AndroidLint.Format

/-! ## 1. Escaped characters -/

/-- Whether the character at a place is escaped; `start` says it of the first one. -/
def escapedAt (start : Bool) (cs : List Char) : Nat → Bool
  | 0 => start
  | i + 1 => cs[i]? == some '\\' && !escapedAt start cs i

/-- The characters in their order, each with whether it is escaped. -/
def marksFrom (start : Bool) (cs : List Char) : List (Char × Bool) :=
  cs.mapIdx fun i c => (c, escapedAt start cs i)

/-- The characters of a text, each with whether it is escaped. -/
def marks (text : String) : List (Char × Bool) := marksFrom false text.toList

/-- A character with its mark is a double quote that is not escaped. -/
def isBareQuote (m : Char × Bool) : Bool := m.1 == '"' && !m.2

theorem escapedAt_cons (start : Bool) (c : Char) (cs : List Char) (i : Nat) :
    escapedAt start (c :: cs) (i + 1) = escapedAt (c == '\\' && !start) cs i := by
  induction i with
  | zero => simp [escapedAt]
  | succ i ih => rw [escapedAt, ih, List.getElem?_cons_succ, escapedAt]

@[simp] theorem marksFrom_nil (start : Bool) : marksFrom start [] = [] := rfl

@[simp] theorem marksFrom_cons (start : Bool) (c : Char) (cs : List Char) :
    marksFrom start (c :: cs) = (c, start) :: marksFrom (c == '\\' && !start) cs := by
  simp only [marksFrom, List.mapIdx_cons, escapedAt_cons]
  rfl

theorem map_fst_marksFrom (start : Bool) (cs : List Char) :
    (marksFrom start cs).map Prod.fst = cs := by
  induction cs generalizing start with
  | nil => rfl
  | cons c cs ih => rw [marksFrom_cons, List.map_cons, ih]

/-! ## 2. What stays -/

/-- Removing the quotes keeps the marks. -/
theorem marksFrom_strip (start : Bool) (cs : List Char) :
    marksFrom start (stripQuotesFrom start cs) =
      (marksFrom start cs).filter fun m => !isBareQuote m := by
  induction cs generalizing start with
  | nil => rfl
  | cons c cs ih =>
    rw [stripQuotesFrom, marksFrom_cons]
    cases start with
    | true => simp [isBareQuote, ih]
    | false =>
      by_cases hslash : c = '\\'
      · simp [isBareQuote, hslash, ih]
      · by_cases hquote : c = '"'
        -- The quote goes: what follows it was not escaped by it, nor is it by what is in front.
        · simp [isBareQuote, hquote, ih]
        · have hnext : (c == '\\') = false := beq_false_of_ne hslash
          simp [isBareQuote, hslash, hquote, hnext, ih]

theorem stripQuotesFrom_eq (start : Bool) (cs : List Char) :
    stripQuotesFrom start cs =
      ((marksFrom start cs).filter fun m => !isBareQuote m).map Prod.fst := by
  rw [← marksFrom_strip, map_fst_marksFrom]

theorem stripQuotesFrom_idem (start : Bool) (cs : List Char) :
    stripQuotesFrom start (stripQuotesFrom start cs) = stripQuotesFrom start cs := by
  rw [stripQuotesFrom_eq start (stripQuotesFrom start cs), marksFrom_strip, List.filter_filter,
    stripQuotesFrom_eq]
  simp only [Bool.and_self]

/-- A text stays as it is when it has no quote to lose. -/
theorem stripQuotesFrom_eq_self_iff (start : Bool) (cs : List Char) :
    stripQuotesFrom start cs = cs ↔ ∀ m ∈ marksFrom start cs, isBareQuote m = false := by
  have hmarks : stripQuotesFrom start cs = cs ↔
      ((marksFrom start cs).filter fun m => !isBareQuote m) = marksFrom start cs := by
    constructor
    · intro h
      rw [← marksFrom_strip, h]
    · intro h
      rw [stripQuotesFrom_eq, h, map_fst_marksFrom]
  rw [hmarks, List.filter_eq_self]
  simp only [Bool.not_eq_true']

theorem forall_marksFrom_iff (start : Bool) (cs : List Char) :
    (∀ m ∈ marksFrom start cs, isBareQuote m = false) ↔
      ∀ i, cs[i]? = some '"' → escapedAt start cs i = true := by
  have hplace (i : Nat) : (marksFrom start cs)[i]? =
      cs[i]?.map fun c => (c, escapedAt start cs i) := List.getElem?_mapIdx
  constructor
  · intro h i hi
    have hmem : ('"', escapedAt start cs i) ∈ marksFrom start cs :=
      List.mem_of_getElem? (by rw [hplace, hi, Option.map_some])
    simpa [isBareQuote] using h _ hmem
  · intro h m hm
    obtain ⟨i, hi⟩ := List.mem_iff_getElem?.mp hm
    rw [hplace] at hi
    obtain ⟨c, hc, rfl⟩ := Option.map_eq_some_iff.mp hi
    by_cases hquote : c = '"'
    · simp [isBareQuote, h i (hquote ▸ hc)]
    · simp [isBareQuote, hquote]

/-- **Exactly the double quotes that are not escaped are left out.** All other characters stay in
    their order, and each is escaped exactly when it was; so a second time nothing is left to
    remove, and a text stays as it is exactly when all its double quotes are escaped. -/
theorem stripQuotes_marks (text : String) :
    (stripQuotes text).toList = ((marks text).filter fun m => !isBareQuote m).map Prod.fst ∧
    marks (stripQuotes text) = (marks text).filter (fun m => !isBareQuote m) ∧
    stripQuotes (stripQuotes text) = stripQuotes text ∧
    (stripQuotes text = text ↔
      ∀ i, text.toList[i]? = some '"' → escapedAt false text.toList i = true) := by
  have hchars : (stripQuotes text).toList = stripQuotesFrom false text.toList :=
    String.toList_ofList
  refine ⟨?_, ?_, ?_, ?_⟩
  · rw [hchars, stripQuotesFrom_eq]
    rfl
  · rw [marks, hchars, marksFrom_strip]
    rfl
  · refine String.toList_inj.mp ?_
    rw [stripQuotes, String.toList_ofList, hchars, stripQuotesFrom_idem]
  · rw [← String.toList_inj, hchars, stripQuotesFrom_eq_self_iff, forall_marksFrom_iff]

-- The first quote goes, since its backslash is escaped; the second one stays behind three of them.
example : stripQuotesFrom false ['\\', '\\', '"', '\\', '"'] = ['\\', '\\', '\\', '"'] := by decide

end AndroidLint.Format
