/-
  File:      AndroidLint/Text/Split.lean
  Subject:   Taking texts apart at a character, and looking for one text in another.
-/
import AndroidLint.Text.Line

namespace AndroidLint.Text

/-! ## 1. Parts between separators -/

/-- The parts of a text between the occurrences of a separator: one more than there are
    separators. -/
def splitOn (separator : Char) : List Char → List (List Char)
  | [] => [[]]
  | c :: cs =>
    if c = separator then [] :: splitOn separator cs
    else
      match splitOn separator cs with
      | [] => [[c]]
      | l :: ls => (c :: l) :: ls

/-- The parts of a string between the occurrences of a separator. -/
def split (separator : Char) (text : String) : List String :=
  (splitOn separator text.toList).map String.ofList

/-- Strings joined with a separator between neighbours. -/
def join (separator : String) (texts : List String) : String :=
  String.ofList (joinWith separator.toList (texts.map String.toList))

/-- What stands before and after the first separator. -/
def splitFirst? (separator : Char) (text : String) : Option (String × String) :=
  match text.toList.span (· != separator) with
  | (_, []) => none
  | (head, _ :: tail) => some (String.ofList head, String.ofList tail)

/-- What stands before and after the last separator. -/
def splitLast? (separator : Char) (text : String) : Option (String × String) :=
  match text.toList.reverse.span (· != separator) with
  | (_, []) => none
  | (tail, _ :: head) => some (String.ofList head.reverse, String.ofList tail.reverse)

/-- The part after the last separator, the whole text when there is none. -/
def lastPart (separator : Char) (text : String) : String :=
  match splitLast? separator text with
  | some (_, last) => last
  | none => text

/-! ## 2. Fixed beginnings and ends -/

/-- What follows a beginning, when the text has it. -/
def dropHead? : List Char → List Char → Option (List Char)
  | [], cs => some cs
  | _ :: _, [] => none
  | h :: hs, c :: cs => if h = c then dropHead? hs cs else none

/-- What follows a beginning of a string, when the string has it. -/
def afterHead? (head text : String) : Option String :=
  (dropHead? head.toList text.toList).map String.ofList

/-- Whether a string begins with another. -/
def hasHead (head text : String) : Bool := (dropHead? head.toList text.toList).isSome

/-- Whether a string ends with another. -/
def hasTail (tail text : String) : Bool :=
  (dropHead? tail.toList.reverse text.toList.reverse).isSome

/-- Without the characters in front that satisfy `p`. -/
def dropFront (p : Char → Bool) (text : String) : String :=
  String.ofList (text.toList.dropWhile p)

/-- Without the characters at the end that satisfy `p`. -/
def dropBack (p : Char → Bool) (text : String) : String :=
  String.ofList (text.toList.reverse.dropWhile p).reverse

/-! ## 3. Searching -/

/-- What stands before and after the first occurrence of `needle`. -/
def splitAt? (needle : List Char) : List Char → Option (List Char × List Char)
  | [] => if needle.isEmpty then some ([], []) else none
  | c :: cs =>
    match dropHead? needle (c :: cs) with
    | some rest => some ([], rest)
    | none => (splitAt? needle cs).map fun p => (c :: p.1, p.2)

theorem dropHead?_length {head cs rest : List Char} (h : dropHead? head cs = some rest) :
    rest.length + head.length = cs.length := by
  induction head generalizing cs with
  | nil => cases h; simp
  | cons c head ih =>
    cases cs with
    | nil => cases h
    | cons d cs =>
      simp only [dropHead?] at h
      split at h
      next => have := ih h; simp only [List.length_cons]; omega
      next => cases h

theorem splitAt?_length {needle cs front rest : List Char}
    (h : splitAt? needle cs = some (front, rest)) :
    front.length + needle.length + rest.length = cs.length := by
  induction cs generalizing front with
  | nil =>
    simp only [splitAt?] at h
    split at h
    next hn => cases h; simpa using hn
    next => cases h
  | cons c cs ih =>
    simp only [splitAt?] at h
    split at h
    next hd =>
      cases h
      have := dropHead?_length hd
      simp only [List.length_nil]; omega
    next =>
      obtain ⟨⟨f, r⟩, hf, he⟩ := Option.map_eq_some_iff.1 h
      obtain ⟨rfl, rfl⟩ := Prod.mk.inj he
      have := ih hf
      simp only [List.length_cons] at this ⊢
      omega

/-- The byte offsets at which a text occurs in another one that begins at `offset`, from left to
    right, none inside the one before. The empty text occurs nowhere. -/
def occurrencesFrom (needle : List Char) (offset : Nat) (cs : List Char) : List Nat :=
  if _nonempty : needle = [] then []
  else
    match _found : splitAt? needle cs with
    | none => []
    | some (front, rest) =>
      let start := offset + width front
      start :: occurrencesFrom needle (start + width needle) rest
termination_by cs.length
decreasing_by
  have h := splitAt?_length _found
  have := List.length_pos_iff.2 _nonempty
  omega

/-- The byte offsets at which a text occurs in another one. -/
def occurrences (needle cs : List Char) : List Nat := occurrencesFrom needle 0 cs

/-- Replace one character by another throughout. -/
def replaceChar (old new : Char) (text : String) : String :=
  String.ofList (text.toList.map fun c => if c = old then new else c)

/-- With small letters for the ASCII capital letters. -/
def lower (text : String) : String := String.ofList (text.toList.map Char.toLower)

end AndroidLint.Text
