/-
  File:      AndroidLint/Proofs/Slices.lean
  Subject:   Parts of a text and the byte ranges they take.

  A text that is given in parts has a boundary wherever two parts meet, and the range between two
  such boundaries is cut out as the parts between them:

  * `isBoundary_width`:  the end of a first part is a boundary;
  * `slice?_width`:      the range of a middle part is cut out as that part;
  * `before_width`:      the characters before the end of a first part are that part;
  * `splice_width`:      what is put in place of a middle part stands between the other two;
  * `exists_parts`:      conversely, a text in which a range fits is in three parts, and the range is
                         that of the middle one.

  Ranges that follow each other between two offsets are in order (`InOrder`).
-/
import AndroidLint.Text.Offset

namespace AndroidLint

namespace Text

/-! ## 1. Texts in parts -/

theorem isBoundary_width (as bs : List Char) : isBoundary (as ++ bs) (width as) = true := by
  rw [isBoundary, cut?_width_append]
  rfl

/-- At a boundary a text is in two parts. -/
theorem exists_parts_of_isBoundary {cs : List Char} {n : Nat} (h : isBoundary cs n = true) :
    ∃ as bs, cs = as ++ bs ∧ width as = n := by
  obtain ⟨⟨as, bs⟩, hcut⟩ := Option.isSome_iff_exists.mp h
  exact ⟨as, bs, cut?_eq_some hcut⟩

theorem le_width_of_isBoundary {cs : List Char} {n : Nat} (h : isBoundary cs n = true) :
    n ≤ width cs := by
  obtain ⟨as, bs, rfl, rfl⟩ := exists_parts_of_isBoundary h
  rw [width_append]
  exact Nat.le_add_right _ _

theorem slice?_width (as bs cs : List Char) :
    slice? (as ++ bs ++ cs) ⟨width as, width as + width bs⟩ = some bs := by
  have hlt : ¬ width as + width bs < width as := by omega
  have hlen : width as + width bs - width as = width bs := by omega
  rw [slice?, if_neg hlt, List.append_assoc, cut?_width_append]
  simp only [Option.bind_eq_bind, Option.bind_some, hlen]
  rw [cut?_width_append]
  rfl

theorem before_width_add (as bs : List Char) (n : Nat) :
    before (width as + n) (as ++ bs) = as ++ before n bs := by
  induction as with
  | nil => rw [width_nil, Nat.zero_add, List.nil_append, List.nil_append]
  | cons c cs ih =>
    have hc : 0 < c.utf8Size := Char.utf8Size_pos c
    obtain ⟨m, hm⟩ : ∃ m, c.utf8Size + width cs + n = m + 1 :=
      ⟨c.utf8Size + width cs + n - 1, by omega⟩
    rw [width_cons, List.cons_append, hm, before, if_pos (by omega),
      show m + 1 - c.utf8Size = width cs + n by omega, ih, List.cons_append]

theorem before_width (as bs : List Char) : before (width as) (as ++ bs) = as := by
  have hzero : before 0 bs = [] := by cases bs <;> rfl
  rw [← Nat.add_zero (width as), before_width_add, hzero, List.append_nil]

theorem after_width (as bs : List Char) : after (width as) (as ++ bs) = bs := by
  have hparts := before_append_after (width as) (as ++ bs)
  rw [before_width] at hparts
  exact List.append_cancel_left hparts

theorem after_width_add (as bs : List Char) (n : Nat) :
    after (width as + n) (as ++ bs) = after n bs := by
  have hparts := before_append_after (width as + n) (as ++ bs)
  rw [before_width_add, List.append_assoc] at hparts
  exact List.append_cancel_left (List.append_cancel_left (hparts.trans
    (congrArg (as ++ ·) (before_append_after n bs).symm)))

theorem splice_width (as bs cs new : List Char) :
    splice (as ++ (bs ++ cs)) ⟨width as, width as + width bs⟩ new = as ++ (new ++ cs) := by
  rw [splice, before_width, after_width_add, after_width, List.append_assoc]

/-- What is put into the second part of a text leaves the first one alone. -/
theorem splice_behind (as bs new : List Char) (r : ByteRange) :
    splice (as ++ bs) (r.shift (width as)) new = as ++ splice bs r new := by
  simp only [splice, ByteRange.shift, Nat.add_comm _ (width as), before_width_add, after_width_add,
    List.append_assoc]

/-- Of two first parts of a text the narrower one is a first part of the other. -/
theorem exists_append_of_width_le {as bs cs ds : List Char} (h : as ++ bs = cs ++ ds)
    (hle : width as ≤ width cs) : ∃ mid, cs = as ++ mid ∧ bs = mid ++ ds := by
  rcases List.append_eq_append_iff.mp h with hsplit | ⟨rest, rfl, rfl⟩
  · exact hsplit
  · have hrest : width rest = 0 := by
      rw [width_append] at hle
      omega
    cases rest with
    | nil => exact ⟨[], by simp, by simp⟩
    | cons c rest =>
      have hpos := Char.utf8Size_pos c
      rw [width_cons] at hrest
      omega

/-- A text has one first part of a width. -/
theorem append_inj_of_width {as bs cs ds : List Char} (h : as ++ bs = cs ++ ds)
    (hw : width as = width cs) : as = cs ∧ bs = ds := by
  obtain ⟨mid, rfl, rfl⟩ := exists_append_of_width_le h (Nat.le_of_eq hw)
  rw [width_append] at hw
  cases mid with
  | nil => exact ⟨(List.append_nil as).symm, rfl⟩
  | cons c mid =>
    have hpos := Char.utf8Size_pos c
    rw [width_cons] at hw
    omega

theorem length_le_width (cs : List Char) : cs.length ≤ width cs := by
  induction cs with
  | nil => exact Nat.le_refl 0
  | cons c cs ih =>
    have hc := c.utf8Size_pos
    rw [List.length_cons, width_cons]
    omega

/-- A text that has a character has a byte. -/
theorem width_pos {cs : List Char} (h : cs ≠ []) : 0 < width cs := by
  cases cs with
  | nil => exact absurd rfl h
  | cons c cs => exact Nat.lt_of_lt_of_le (Char.utf8Size_pos c) (Nat.le_add_right _ _)

end Text

namespace ByteRange

open Text

/-! ## 2. Ranges in a text -/

/-- The range lies inside the text, its ends are boundaries, and they are the right way round. -/
structure FitsIn (contents : List Char) (r : ByteRange) : Prop where
  ordered : r.start ≤ r.stop
  bounded : r.stop ≤ width contents
  starts : isBoundary contents r.start = true
  stops : isBoundary contents r.stop = true

/-- The range of a part of the text fits in it. -/
theorem fitsIn_width (as bs cs : List Char) :
    FitsIn (as ++ bs ++ cs) ⟨width as, width as + width bs⟩ where
  ordered := Nat.le_add_right _ _
  bounded := by simp only [width_append]; omega
  starts := by
    rw [List.append_assoc]
    exact isBoundary_width as (bs ++ cs)
  stops := by
    show isBoundary _ (width as + width bs) = true
    rw [← width_append]
    exact isBoundary_width (as ++ bs) cs

/-- A range that fits is that of a part of the text. -/
theorem FitsIn.exists_parts {contents : List Char} {r : ByteRange} (h : r.FitsIn contents) :
    ∃ as bs cs, contents = as ++ bs ++ cs ∧ r = ⟨width as, width as + width bs⟩ := by
  obtain ⟨as, rest, has, hwas⟩ := exists_parts_of_isBoundary h.starts
  obtain ⟨front, cs, hfront, hwfront⟩ := exists_parts_of_isBoundary h.stops
  have hle : width as ≤ width front := by
    rw [hwas, hwfront]
    exact h.ordered
  obtain ⟨bs, rfl, rfl⟩ := exists_append_of_width_le (has.symm.trans hfront) hle
  rw [width_append] at hwfront
  refine ⟨as, bs, cs, hfront, ?_⟩
  rw [hwas] at hwfront ⊢
  rw [hwfront]

/-- A range of the second part of a text is one of the text, moved behind the first part. -/
theorem FitsIn.behind {bs : List Char} {r : ByteRange} (h : r.FitsIn bs) (as : List Char) :
    (r.shift (width as)).FitsIn (as ++ bs) := by
  obtain ⟨xs, ys, zs, rfl, rfl⟩ := h.exists_parts
  have hshift : (⟨width xs, width xs + width ys⟩ : ByteRange).shift (width as) =
      ⟨width (as ++ xs), width (as ++ xs) + width ys⟩ := by
    simp only [shift, width_append, mk.injEq]
    exact ⟨by omega, by omega⟩
  rw [hshift, ← List.append_assoc, ← List.append_assoc]
  exact fitsIn_width (as ++ xs) ys zs

/-- A range of the first part of a text is one of the text. -/
theorem FitsIn.append {as : List Char} {r : ByteRange} (h : r.FitsIn as) (bs : List Char) :
    r.FitsIn (as ++ bs) := by
  obtain ⟨xs, ys, zs, rfl, rfl⟩ := h.exists_parts
  rw [List.append_assoc]
  exact fitsIn_width xs ys (zs ++ bs)

theorem shift_shift (r : ByteRange) (m n : Nat) : (r.shift m).shift n = r.shift (n + m) := by
  simp only [shift, mk.injEq]
  exact ⟨by omega, by omega⟩

/-- The range lies inside another one. -/
def Inside (r s : ByteRange) : Prop := s.start ≤ r.start ∧ r.stop ≤ s.stop

/-- The range ends before another one begins, and begins before it. -/
def Precedes (r s : ByteRange) : Prop := r.stop ≤ s.start ∧ r.start < s.start

/-! ## 3. Ranges in order -/

/-- Ranges that follow each other between two offsets, none of them empty. -/
def InOrder (low high : Nat) : List ByteRange → Prop
  | [] => low ≤ high
  | r :: rs => low ≤ r.start ∧ r.start < r.stop ∧ InOrder r.stop high rs

namespace InOrder

variable {low high : Nat} {rs : List ByteRange}

theorem le (h : InOrder low high rs) : low ≤ high := by
  induction rs generalizing low with
  | nil => exact h
  | cons r rs ih =>
    obtain ⟨hlow, hr, hrest⟩ := h
    have hle := ih hrest
    omega

theorem mono (h : InOrder low high rs) {low' high' : Nat} (hlow : low' ≤ low)
    (hhigh : high ≤ high') : InOrder low' high' rs := by
  induction rs generalizing low low' with
  | nil => exact Nat.le_trans hlow (Nat.le_trans h hhigh)
  | cons r rs ih =>
    obtain ⟨hr, hne, hrest⟩ := h
    exact ⟨Nat.le_trans hlow hr, hne, ih hrest (Nat.le_refl _)⟩

theorem of_mem (h : InOrder low high rs) {r : ByteRange} (hr : r ∈ rs) :
    low ≤ r.start ∧ r.stop ≤ high := by
  induction rs generalizing low with
  | nil => cases hr
  | cons s rs ih =>
    obtain ⟨hlow, hne, hrest⟩ := h
    rcases List.mem_cons.mp hr with rfl | hr
    · exact ⟨hlow, hrest.le⟩
    · obtain ⟨hstart, hstop⟩ := ih hrest hr
      exact ⟨by omega, hstop⟩

/-- Ranges in order are disjoint and increase strictly. -/
theorem pairwise (h : InOrder low high rs) : rs.Pairwise Precedes := by
  induction rs generalizing low with
  | nil => exact List.Pairwise.nil
  | cons r rs ih =>
    obtain ⟨_, hne, hrest⟩ := h
    refine List.pairwise_cons.mpr ⟨fun s hs => ?_, ih hrest⟩
    have hstart := (hrest.of_mem hs).1
    exact ⟨hstart, Nat.lt_of_lt_of_le hne hstart⟩

/-- One more range behind the last one. -/
theorem concat {r : ByteRange} (h : InOrder low r.start rs) (hne : r.start < r.stop) :
    InOrder low r.stop (rs ++ [r]) := by
  induction rs generalizing low with
  | nil => exact ⟨h, hne, Nat.le_refl _⟩
  | cons s rs ih =>
    obtain ⟨hlow, hs, hrest⟩ := h
    exact ⟨hlow, hs, ih hrest⟩

end InOrder

end ByteRange

end AndroidLint
