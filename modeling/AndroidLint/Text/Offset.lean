/-
  File:      AndroidLint/Text/Offset.lean
  Subject:   Byte offsets into a text.

  A position in a file is the number of bytes of its UTF-8 form that stand before it. Texts are
  worked on as lists of characters; this module is the bridge:

  * `width`   the bytes a run of characters takes;
  * `cut?`    cuts a text at an offset, and refuses an offset inside a character or past the end;
  * `slice?`  the characters of a byte range;
  * `clamp`   the nearest character boundary at or below an offset.
-/

namespace AndroidLint

/-- A half-open range of byte offsets. -/
structure ByteRange where
  start : Nat
  stop : Nat
  deriving DecidableEq, Repr, Inhabited

namespace ByteRange

/-- The number of bytes in the range, zero when its ends are the wrong way round. -/
def length (r : ByteRange) : Nat := r.stop - r.start

/-- Whether the range holds no byte. -/
def isEmpty (r : ByteRange) : Bool := r.stop ≤ r.start

/-- The range moved towards the end of the text. -/
def shift (r : ByteRange) (n : Nat) : ByteRange := ⟨r.start + n, r.stop + n⟩

end ByteRange

namespace Text

/-! ## 1. Width -/

/-- Bytes that a run of characters takes in UTF-8. -/
def width : List Char → Nat
  | [] => 0
  | c :: cs => c.utf8Size + width cs

@[simp] theorem width_nil : width [] = 0 := rfl

@[simp] theorem width_cons (c : Char) (cs : List Char) :
    width (c :: cs) = c.utf8Size + width cs := rfl

@[simp] theorem width_append (as bs : List Char) : width (as ++ bs) = width as + width bs := by
  induction as with
  | nil => simp
  | cons c cs ih => simp [ih]; omega

/-! ## 2. Cutting at an offset -/

/-- Cut a text at a byte offset into what stands before it and what stands after it. `none` when
    the offset lies inside a character or past the end. -/
def cut? : Nat → List Char → Option (List Char × List Char)
  | 0, cs => some ([], cs)
  | _ + 1, [] => none
  | n + 1, c :: cs =>
    if c.utf8Size ≤ n + 1 then
      (cut? (n + 1 - c.utf8Size) cs).map fun p => (c :: p.1, p.2)
    else none

/-- What `cut?` gives is the text in two parts, the first as wide as the offset says. -/
theorem cut?_eq_some {n : Nat} {cs as bs : List Char} (h : cut? n cs = some (as, bs)) :
    cs = as ++ bs ∧ width as = n := by
  induction cs generalizing n as bs with
  | nil =>
    cases n with
    | zero => simp [cut?] at h; simp [h]
    | succ n => simp [cut?] at h
  | cons c cs ih =>
    cases n with
    | zero => simp [cut?] at h; simp [h]
    | succ n =>
      simp only [cut?] at h
      split at h
      next hle =>
        obtain ⟨⟨as', bs'⟩, hc, he⟩ := Option.map_eq_some_iff.1 h
        obtain ⟨rfl, rfl⟩ := Prod.mk.inj he
        obtain ⟨rfl, hw⟩ := ih hc
        exact ⟨rfl, by simp only [width_cons, hw]; omega⟩
      next => simp at h

/-- Every prefix of a text is reached by a cut at its width. -/
theorem cut?_width_append (as bs : List Char) : cut? (width as) (as ++ bs) = some (as, bs) := by
  induction as with
  | nil => simp [cut?]
  | cons c cs ih =>
    have hc : 0 < c.utf8Size := Char.utf8Size_pos c
    obtain ⟨n, hn⟩ : ∃ n, c.utf8Size + width cs = n + 1 := ⟨c.utf8Size + width cs - 1, by omega⟩
    simp only [width_cons, List.cons_append, hn, cut?]
    rw [if_pos (by omega), show n + 1 - c.utf8Size = width cs by omega, ih]
    rfl

/-- Whether an offset is the border between two characters of the text, or one of its ends. -/
def isBoundary (cs : List Char) (n : Nat) : Bool := (cut? n cs).isSome

/-- The characters of a byte range; `none` when an end is no boundary or the ends are the wrong way
    round. -/
def slice? (cs : List Char) (r : ByteRange) : Option (List Char) :=
  if r.stop < r.start then none
  else do
    let (_, after) ← cut? r.start cs
    let (inside, _) ← cut? (r.stop - r.start) after
    pure inside

/-! ## 3. The boundary at or below an offset -/

/-- The greatest character boundary that is not above `n`. -/
def clamp : Nat → List Char → Nat
  | 0, _ => 0
  | _ + 1, [] => 0
  | n + 1, c :: cs =>
    if c.utf8Size ≤ n + 1 then c.utf8Size + clamp (n + 1 - c.utf8Size) cs else 0

/-- The characters that stand wholly before an offset. -/
def before : Nat → List Char → List Char
  | 0, _ => []
  | _ + 1, [] => []
  | n + 1, c :: cs =>
    if c.utf8Size ≤ n + 1 then c :: before (n + 1 - c.utf8Size) cs else []

theorem width_before (n : Nat) (cs : List Char) : width (before n cs) = clamp n cs := by
  induction cs generalizing n with
  | nil => cases n <;> simp [before, clamp]
  | cons c cs ih =>
    cases n with
    | zero => simp [before, clamp]
    | succ n =>
      simp only [before, clamp]
      split
      next => simp [ih]
      next => simp

/-- The characters that do not stand wholly before an offset. -/
def after : Nat → List Char → List Char
  | 0, cs => cs
  | _ + 1, [] => []
  | n + 1, c :: cs =>
    if c.utf8Size ≤ n + 1 then after (n + 1 - c.utf8Size) cs else c :: cs

/-- `before` and `after` are the text in two parts. -/
theorem before_append_after (n : Nat) (cs : List Char) : before n cs ++ after n cs = cs := by
  induction cs generalizing n with
  | nil => cases n <;> rfl
  | cons c cs ih =>
    cases n with
    | zero => rfl
    | succ n =>
      simp only [before, after]
      split
      next => simp [ih]
      next => rfl

/-- Put `new` in place of a byte range. -/
def splice (cs : List Char) (r : ByteRange) (new : List Char) : List Char :=
  before r.start cs ++ new ++ after r.stop cs

end Text

end AndroidLint
