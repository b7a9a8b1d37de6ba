/-
  File:      AndroidLint/Proofs/Beginnings.lean
  Subject:   What a text begins with, and where one text first occurs in another.

  Both questions look ahead in a text, but not further than they have to:

  * `dropHead?_isSome_iff`:     a beginning can be dropped exactly if the text has it;
  * `begins_of_begins_cons`:    a beginning ends before the first character that is not in it;
  * `splitAt?_of_first`:        a text is split at an occurrence that has no other before it;
  * `splitAt?_behind`:          a first occurrence does not depend on what follows it.
-/
import AndroidLint.Text.Split

namespace AndroidLint.Text

/-! ## 1. Beginnings -/

/-- A beginning in which `x` does not occur ends before the first `x`. -/
theorem begins_of_begins_cons {head front rest : List Char} {x : Char} (hx : x ∉ head)
    (h : head <+: front ++ x :: rest) : head <+: front := by
  have hfront : front <+: front ++ x :: rest := ⟨x :: rest, rfl⟩
  rcases List.prefix_or_prefix_of_prefix h hfront with hbegins | ⟨more, rfl⟩
  · exact hbegins
  · cases more with
    | nil => exact ⟨[], by simp⟩
    | cons y more =>
      rw [List.prefix_append_right_inj] at h
      rw [(List.cons_prefix_cons.mp h).1] at hx
      exact absurd (by simp) hx

/-- A text that has another letter at some place begins otherwise. -/
theorem not_begins_of_getElem? {head text : List Char} {n : Nat} {x y : Char}
    (hhead : head[n]? = some x) (htext : text[n]? = some y) (hne : x ≠ y) (rest : List Char) :
    ¬ head <+: text ++ rest := by
  rintro ⟨behind, hsame⟩
  have hletter := congrArg (·[n]?) hsame
  simp only [List.getElem?_append_left (List.getElem?_eq_some_iff.mp hhead).1, hhead,
    List.getElem?_append_left (List.getElem?_eq_some_iff.mp htext).1, htext] at hletter
  exact hne (Option.some.inj hletter)

theorem eq_append_of_dropHead? {head cs rest : List Char} (h : dropHead? head cs = some rest) :
    cs = head ++ rest := by
  induction head generalizing cs with
  | nil =>
    cases h
    rfl
  | cons c head ih =>
    cases cs with
    | nil => cases h
    | cons d cs =>
      rw [dropHead?] at h
      split at h
      · next heq =>
        rw [ih h, heq]
        rfl
      · cases h

theorem dropHead?_append (head rest : List Char) : dropHead? head (head ++ rest) = some rest := by
  induction head with
  | nil => rfl
  | cons c head ih => rw [List.cons_append, dropHead?, if_pos rfl, ih]

theorem dropHead?_isSome_iff {head cs : List Char} :
    (dropHead? head cs).isSome = true ↔ head <+: cs := by
  constructor
  · intro h
    obtain ⟨rest, hrest⟩ := Option.isSome_iff_exists.mp h
    exact ⟨rest, (eq_append_of_dropHead? hrest).symm⟩
  · rintro ⟨rest, rfl⟩
    rw [dropHead?_append]
    rfl

/-- A beginning is missing behind which a character stands that does not occur in it, if it is
    missing in what stands before the character. -/
theorem dropHead?_eq_none_of_notMem {head front : List Char} {x : Char} (hx : x ∉ head)
    (h : ¬ head <+: front) (rest : List Char) : dropHead? head (front ++ x :: rest) = none := by
  rw [← Option.not_isSome_iff_eq_none, dropHead?_isSome_iff]
  exact fun hbegins => h (begins_of_begins_cons hx hbegins)

/-! ## 2. First occurrences -/

theorem eq_append_of_splitAt? {needle cs front rest : List Char}
    (h : splitAt? needle cs = some (front, rest)) : cs = front ++ needle ++ rest := by
  induction cs generalizing front with
  | nil =>
    rw [splitAt?] at h
    split at h
    · next hempty =>
      cases h
      rw [List.isEmpty_iff.mp hempty]
      rfl
    · cases h
  | cons c cs ih =>
    rw [splitAt?] at h
    split at h
    · next hhead =>
      cases h
      exact eq_append_of_dropHead? hhead
    · obtain ⟨⟨f, r⟩, hf, he⟩ := Option.map_eq_some_iff.mp h
      cases he
      rw [ih hf]
      rfl

theorem splitAt?_append (needle rest : List Char) :
    splitAt? needle (needle ++ rest) = some ([], rest) := by
  cases hcs : needle ++ rest with
  | nil =>
    obtain ⟨rfl, rfl⟩ := List.append_eq_nil_iff.mp hcs
    rfl
  | cons c cs => rw [splitAt?, ← hcs, dropHead?_append]

/-- The first occurrence of a text does not depend on what follows it. -/
theorem splitAt?_behind {needle cs front rest : List Char}
    (h : splitAt? needle cs = some (front, rest)) (rest' : List Char) :
    splitAt? needle (front ++ needle ++ rest') = some (front, rest') := by
  induction cs generalizing front with
  | nil =>
    rw [splitAt?] at h
    split at h
    · cases h
      exact splitAt?_append needle rest'
    · cases h
  | cons c cs ih =>
    rw [splitAt?] at h
    split at h
    · cases h
      exact splitAt?_append needle rest'
    · next hnone =>
      obtain ⟨⟨f, r⟩, hf, he⟩ := Option.map_eq_some_iff.mp h
      cases he
      have hnone' : dropHead? needle (c :: (f ++ needle ++ rest')) = none := by
        rw [← Option.not_isSome_iff_eq_none, dropHead?_isSome_iff]
        intro hbegins
        -- the occurrence would end inside of what is known, and be an earlier one
        have hknown : needle <+: c :: (f ++ needle) :=
          List.prefix_of_prefix_length_le hbegins ⟨rest', by simp⟩ (by simp; omega)
        have hearlier : needle <+: c :: cs := by
          rw [eq_append_of_splitAt? hf, ← List.cons_append]
          exact hknown.trans (List.prefix_append _ _)
        rw [← dropHead?_isSome_iff, hnone] at hearlier
        cases hearlier
      rw [List.cons_append, List.cons_append, splitAt?, hnone', ih hf]
      rfl

/-- A text that is nowhere before its end is cut at its end. -/
theorem splitAt?_of_first {needle front : List Char} (rest : List Char)
    (h : ∀ as bs, front = as ++ bs → bs ≠ [] → ¬ needle <+: bs ++ (needle ++ rest)) :
    splitAt? needle (front ++ (needle ++ rest)) = some (front, rest) := by
  induction front with
  | nil => exact splitAt?_append needle rest
  | cons c front ih =>
    have hnone : dropHead? needle (c :: (front ++ (needle ++ rest))) = none := by
      rw [← Option.not_isSome_iff_eq_none, dropHead?_isSome_iff]
      exact h [] (c :: front) rfl (List.cons_ne_nil _ _)
    have hrest := ih fun as bs hparts => h (c :: as) bs (congrArg (c :: ·) hparts)
    rw [List.cons_append, splitAt?, hnone, hrest]
    rfl

end AndroidLint.Text
