/-
  File:      AndroidLint/Grouping.lean
  Subject:   Entries by key, and entries that repeat others.
-/

namespace AndroidLint.Grouping

/-! ## 1. Groups -/

/-- Put an entry at the end of the group of its key. The groups are in the order of their keys. -/
def insert {κ α : Type} (compare : κ → κ → Ordering) (key : κ) (entry : α) :
    List (κ × List α) → List (κ × List α)
  | [] => [(key, [entry])]
  | (k, entries) :: rest =>
    match compare key k with
    | .lt => (key, [entry]) :: (k, entries) :: rest
    | .eq => (k, entries ++ [entry]) :: rest
    | .gt => (k, entries) :: insert compare key entry rest

/-- Entries by key, the keys in order, the entries of one key in the order given. -/
def groups {κ α : Type} (compare : κ → κ → Ordering) (key : α → κ) (entries : List α) :
    List (κ × List α) :=
  entries.foldl (fun gs e => insert compare (key e) e gs) []

/-! ## 2. Repeats -/

/-- Each entry whose key is that of an entry seen before, together with the first such entry. -/
def repeatsFrom {κ α : Type} [BEq κ] (key : α → κ) : (seen : List α) → List α → List (α × α)
  | _, [] => []
  | seen, e :: es =>
    match seen.find? (key · == key e) with
    | some first => (first, e) :: repeatsFrom key seen es
    | none => repeatsFrom key (seen ++ [e]) es

/-- Each entry whose key has occurred before, together with the first entry of that key. -/
def repeats {κ α : Type} [BEq κ] (key : α → κ) (entries : List α) : List (α × α) :=
  repeatsFrom key [] entries

/-- Of neighbours that are the same, keep the first. -/
def withoutRepeats {α : Type} (same : α → α → Bool) : List α → List α
  | [] => []
  | [a] => [a]
  | a :: b :: rest =>
    if same a b then withoutRepeats same (a :: rest) else a :: withoutRepeats same (b :: rest)
termination_by entries => entries.length

theorem withoutRepeats_sublist {α : Type} (same : α → α → Bool) (entries : List α) :
    (withoutRepeats same entries).Sublist entries := by
  fun_induction withoutRepeats same entries with
  | case1 => exact .slnil
  | case2 a => exact .refl [a]
  | case3 a b rest hsame ih => exact ih.trans (.cons_cons a (.cons b (.refl rest)))
  | case4 a b rest hother ih => exact ih.cons_cons a

end AndroidLint.Grouping
