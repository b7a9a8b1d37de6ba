/-
  File:      AndroidLint/Proofs/FormatFixes.lean
  Subject:   A specifier of a format string in place of another.

  The correction of a wrong argument type writes the argument number and a conversion that suits the
  type, and nothing else, in the place of a specifier. A written number sets the count for all
  specifiers behind it, and what stands before the place could be read differently with another text
  behind it. Neither happens:

  * `exists_partedAt`, `PartedAt.replaced`:  around a good directive that takes the place of another
                                             all directives are found as they were;
  * `number_of_takes`:                       behind argument `k` counting goes on with the number
                                             after `k`, written or not;
  * `fix_wrongType`:                         the text that the correction writes;
  * `accepts_suggested`:                     the conversion that is suggested for a type accepts it;
  * `respecified_sound`:                     the corrected text, specifier by specifier.
-/
import AndroidLint.Check.FormatCalls
import AndroidLint.Proofs.DirectiveText
import AndroidLint.Proofs.FormatLoops

namespace AndroidLint.Format

open AndroidLint.Text

/-! ## 1. Steps along a text -/

theorem locate_plain {c : Char} (hb : c ≠ '\\') (hp : c ≠ '%') (offset : Nat) (cs : List Char) :
    locate offset (c :: cs) = locate (offset + c.utf8Size) cs := by
  rw [locate_eq_visits, locate_eq_visits, visitsFrom_plain hb hp]

theorem locate_escape (offset : Nat) (c : Char) (cs : List Char) :
    locate offset ('\\' :: c :: cs) = locate (offset + width ['\\', c]) cs := by
  have hskip := visitsFrom_append (offset + 1) [c] cs
  rw [locate_eq_visits, locate_eq_visits, visitsFrom_escape,
    show width ['\\', c] = 1 + width [c] from rfl, ← Nat.add_assoc]
  exact congrArg (List.filterMap Visit.directive?) hskip

theorem locate_directive {cs rest : List Char} {d : Directive}
    (h : Directive.read cs = some (d, rest)) (offset : Nat) :
    locate offset cs =
      (d, ⟨offset, offset + width d.written⟩) :: locate (offset + width d.written) rest := by
  rw [locate_eq_visits, locate_eq_visits, visitsFrom_directive h]
  rfl

theorem kindFrom_plain {c : Char} (hb : c ≠ '\\') (hp : c ≠ '%') (cs : List Char) :
    kindFrom (c :: cs) = kindFrom cs := by
  rw [kindFrom]
  · exact hb
  · exact hp

theorem kindFrom_escape (c : Char) (cs : List Char) :
    kindFrom ('\\' :: c :: cs) = kindFrom cs := by
  rw [kindFrom]

theorem kindFrom_directive {cs rest : List Char} {d : Directive}
    (h : Directive.read cs = some (d, rest)) (hfault : d.fault = none) :
    kindFrom cs = kindFrom rest := by
  rw [kindFrom_eq_visits 0, kindFrom_eq_visits (0 + width d.written), visitsFrom_directive h,
    List.findSome?_cons]
  simp only [Visit.fault?, hfault]

/-! ## 2. The text around a directive -/

theorem Directive.EndsBefore.of_head?_eq {d : Directive} {rest rest' : List Char}
    (h : d.EndsBefore rest) (hhead : rest'.head? = rest.head?) : d.EndsBefore rest' := by
  intro hdate hletter c hc
  rw [hhead] at hc
  exact h hdate hletter c hc

/-- A format string, taken apart at one of its directives. What is said about the text in front of
    the directive holds for whatever else that begins with a percent sign is put behind it. -/
structure PartedAt (offset : Nat) (cs : List Char) (earlier : List (Directive × ByteRange))
    (d : Directive) (r : ByteRange) (later : List (Directive × ByteRange))
    (front rest : List Char) : Prop where
  text : cs = front ++ (d.written ++ rest)
  range : r = ⟨offset + width front, offset + width front + width d.written⟩
  later_eq : later = locate r.stop rest
  rest_format : kindFrom rest = .format
  earlier_stop : ∀ x ∈ earlier, x.2.stop ≤ r.start
  locate_eq : ∀ t, locate offset (front ++ '%' :: t) = earlier ++ locate r.start ('%' :: t)
  kindFrom_eq : ∀ t, kindFrom (front ++ '%' :: t) = kindFrom ('%' :: t)

namespace PartedAt

variable {offset : Nat} {cs front rest : List Char} {earlier later : List (Directive × ByteRange)}
  {d : Directive} {r : ByteRange}

/-- A directive at the head of the text. -/
theorem head (h : Directive.read cs = some (d, rest)) (hrest : kindFrom rest = .format) :
    PartedAt offset cs [] d ⟨offset, offset + width d.written⟩
      (locate (offset + width d.written) rest) [] rest where
  text := (Directive.written_append_of_read h).symm
  range := rfl
  later_eq := rfl
  rest_format := hrest
  earlier_stop := List.forall_mem_nil _
  locate_eq _ := rfl
  kindFrom_eq _ := rfl

/-- More text in front, in which the directives `found` stand. -/
theorem behind (chunk : List Char) (found : List (Directive × ByteRange))
    (h : PartedAt (offset + width chunk) cs earlier d r later front rest)
    (hfound : ∀ x ∈ found, x.2.stop ≤ offset + width chunk)
    (hlocate : ∀ t, locate offset (chunk ++ (front ++ '%' :: t)) =
      found ++ locate (offset + width chunk) (front ++ '%' :: t))
    (hkind : ∀ t, kindFrom (chunk ++ (front ++ '%' :: t)) = kindFrom (front ++ '%' :: t)) :
    PartedAt offset (chunk ++ cs) (found ++ earlier) d r later (chunk ++ front) rest where
  text := by rw [h.text, List.append_assoc]
  range := by rw [h.range, width_append, Nat.add_assoc offset]
  later_eq := h.later_eq
  rest_format := h.rest_format
  earlier_stop x hx := by
    rcases List.mem_append.mp hx with hx | hx
    · rw [h.range]
      exact Nat.le_trans (hfound x hx) (Nat.le_add_right _ _)
    · exact h.earlier_stop x hx
  locate_eq t := by rw [List.append_assoc, hlocate, h.locate_eq, List.append_assoc]
  kindFrom_eq t := by rw [List.append_assoc, hkind, h.kindFrom_eq]

/-- **Another good directive can stand in the place of one**, and all around it is found as it
    was. -/
theorem replaced (h : PartedAt offset cs earlier d r later front rest) {e : Directive}
    (hread : Directive.read (e.written ++ rest) = some (e, rest)) (hfault : e.fault = none) :
    locate offset (front ++ (e.written ++ rest)) =
        earlier ++ (e, ⟨r.start, r.start + width e.written⟩) ::
          locate (r.start + width e.written) rest ∧
      kindFrom (front ++ (e.written ++ rest)) = .format := by
  obtain ⟨t, ht⟩ : ∃ t, e.written ++ rest = '%' :: t := ⟨_, rfl⟩
  constructor
  · rw [ht, h.locate_eq, ← ht, locate_directive hread]
  · rw [ht, h.kindFrom_eq, ← ht, kindFrom_directive hread hfault, h.rest_format]

theorem splice_eq (h : PartedAt 0 cs earlier d r later front rest) (new : List Char) :
    splice cs r new = front ++ (new ++ rest) := by
  rw [h.text, h.range, Nat.zero_add, splice_width]

end PartedAt

/-- **A format string can be taken apart at each of its directives.** -/
theorem exists_partedAt {cs : List Char} (hformat : kindFrom cs = .format) {offset : Nat}
    {earlier later : List (Directive × ByteRange)} {d : Directive} {r : ByteRange}
    (h : locate offset cs = earlier ++ (d, r) :: later) :
    ∃ front rest, PartedAt offset cs earlier d r later front rest := by
  fun_induction kindFrom cs generalizing offset earlier with
  | case1 =>
    rw [locate_eq_visits] at h
    cases earlier <;> cases h
  | case2 =>
    rw [locate_eq_visits, visitsFrom_escape] at h
    cases earlier <;> cases h
  | case3 c cs ih =>
    rw [locate_escape] at h
    obtain ⟨front, rest, hparts⟩ := ih hformat h
    exact ⟨_, rest, hparts.behind ['\\', c] [] (List.forall_mem_nil _)
      (fun t => locate_escape offset c _) (fun t => kindFrom_escape c _)⟩
  | case4 cs hread => cases hformat
  | case5 cs e rest hread fault hfault =>
    rcases Directive.fault_eq_some hfault with rfl | rfl <;> cases hformat
  | case6 cs e tail hread hfault ih =>
    rw [locate_directive hread] at h
    cases earlier with
    | nil =>
      obtain ⟨hfirst, rfl⟩ := List.cons.inj h
      cases hfirst
      exact ⟨[], tail, PartedAt.head hread hformat⟩
    | cons x earlier =>
      obtain ⟨rfl, htail⟩ := List.cons.inj h
      obtain ⟨front, rest, hparts⟩ := ih hformat htail
      obtain ⟨hreadable, hends⟩ := Directive.readable_of_read hread
      -- the directive before it is still read, since the text behind it begins as it did
      have hread' : ∀ t, Directive.read (e.written ++ (front ++ '%' :: t)) =
          some (e, front ++ '%' :: t) := by
        intro t
        refine hreadable.read_written _ (hends.of_head?_eq ?_)
        rw [hparts.text]
        cases front <;> rfl
      rw [← Directive.written_append_of_read hread]
      exact ⟨_, rest, hparts.behind e.written [(e, ⟨offset, offset + width e.written⟩)]
        (by simp) (fun t => locate_directive (hread' t) offset)
        (fun t => kindFrom_directive (hread' t) hfault)⟩
  | case7 c cs hb hp ih =>
    rw [locate_plain hb hp] at h
    obtain ⟨front, rest, hparts⟩ := ih hformat h
    exact ⟨_, rest, hparts.behind [c] [] (List.forall_mem_nil _)
      (fun t => locate_plain hb hp offset _) (fun t => kindFrom_plain hb hp _)⟩

/-! ## 3. Directives that are moved -/

/-- The directives of a text that begins elsewhere are the same, each as far away. -/
theorem locate_shift (offset n : Nat) (cs : List Char) :
    locate (offset + n) cs = (locate offset cs).map fun x => (x.1, x.2.shift n) := by
  have hskip : ∀ (cs : List Char) (skip offset : Nat),
      (visitsFrom skip (offset + n) cs).filterMap Visit.directive? =
        ((visitsFrom skip offset cs).filterMap Visit.directive?).map
          fun x => (x.1, x.2.shift n) := by
    intro cs
    induction cs with
    | nil => exact fun _ _ => rfl
    | cons c cs ih =>
      intro skip offset
      have hnext : ∀ k, (visitsFrom k (offset + n + c.utf8Size) cs).filterMap Visit.directive? =
          ((visitsFrom k (offset + c.utf8Size) cs).filterMap Visit.directive?).map
            fun x => (x.1, x.2.shift n) := by
        intro k
        rw [Nat.add_right_comm]
        exact ih k (offset + c.utf8Size)
      simp only [visitsFrom]
      split
      · exact hnext _
      · split
        · exact hnext _
        · split
          · split
            · next w hw =>
              have hrange : (⟨offset + n, offset + n + width w.taken⟩ : ByteRange) =
                  (⟨offset, offset + width w.taken⟩ : ByteRange).shift n := by
                rw [Nat.add_right_comm]
                rfl
              simp only [List.filterMap_cons, Visit.directive?, List.map_cons, hnext, hrange]
            · exact hnext _
          · exact hnext _
  rw [locate_eq_visits, locate_eq_visits]
  exact hskip cs 0 offset

/-- Numbering does not look at ranges. -/
theorem number_map (f : ByteRange → ByteRange) (next : Nat) (ds : List (Directive × ByteRange)) :
    number next (ds.map fun x => (x.1, f x.2)) =
      (number next ds).map fun s => { s with range := f s.range } := by
  induction ds generalizing next with
  | nil => rfl
  | cons x ds ih =>
    obtain ⟨index, explicit, next', hx⟩ := number_cons next x.1
    rw [List.map_cons, hx, hx, List.map_cons, ih]
    rfl

/-- Numbered directives, taken apart at one of them. What stands before it is numbered the same way
    whatever follows. -/
theorem number_eq_append {next : Nat} {ds : List (Directive × ByteRange)}
    {before after : List Specifier} {s : Specifier} (h : number next ds = before ++ s :: after) :
    ∃ earlier d later next', ds = earlier ++ (d, s.range) :: later ∧
      before = number next earlier ∧ number next' ((d, s.range) :: later) = s :: after ∧
      ∀ ds', number next (earlier ++ ds') = before ++ number next' ds' := by
  induction before generalizing next ds with
  | nil =>
    cases ds with
    | nil => cases h
    | cons x ds =>
      obtain ⟨index, explicit, next', hx⟩ := number_cons next x.1
      have hrange : s.range = x.2 := by
        rw [hx] at h
        exact congrArg Specifier.range (List.cons.inj h).1.symm
      rw [hrange]
      exact ⟨[], x.1, ds, next, rfl, rfl, h, fun _ => rfl⟩
  | cons b before ih =>
    cases ds with
    | nil => cases h
    | cons x ds =>
      obtain ⟨index, explicit, between, hx⟩ := number_cons next x.1
      rw [hx] at h
      obtain ⟨hb, htail⟩ := List.cons.inj h
      obtain ⟨earlier, d, later, next', rfl, hbefore, hown, hnumber⟩ := ih htail
      refine ⟨x :: earlier, d, later, next', rfl, ?_, hown, fun ds' => ?_⟩
      · rw [hx, ← hbefore, hb]
      · rw [List.cons_append, hx, hnumber, hb, List.cons_append]

/-- Behind a specifier of argument `k` numbering goes on with the number after `k`, whether its own
    number was written or not. -/
theorem number_of_takes {next k : Nat} {d : Directive} {r : ByteRange}
    {later : List (Directive × ByteRange)} {s : Specifier} {after : List Specifier}
    (h : number next ((d, r) :: later) = s :: after) (hs : s.takes k = true) (hk : 1 ≤ k) :
    after = number (following k) later := by
  unfold Specifier.takes at hs
  rw [Bool.and_eq_true, Bool.not_eq_true', beq_iff_eq] at hs
  obtain ⟨hliteral, rfl⟩ := hs
  rw [number] at h
  split at h
  · next hd =>
    obtain ⟨rfl, _⟩ := List.cons.inj h
    exact absurd hd (by rw [show d.isLiteral = false from hliteral]; exact Bool.false_ne_true)
  · split at h
    · obtain ⟨rfl, rfl⟩ := List.cons.inj h
      rfl
    · split at h
      · obtain ⟨rfl, rfl⟩ := List.cons.inj h
        rfl
      · obtain ⟨rfl, _⟩ := List.cons.inj h
        exact absurd hk (Nat.not_succ_le_zero 0)

/-! ## 4. Numbered specifiers -/

/-- How a specifier with a written argument number and nothing else is written. -/
def numberedText (k : Nat) (c : Char) : String := s!"%{k}${c}"

/-- The correction of a wrong argument type puts such a specifier in the place of the one that does
    not accept the type. -/
theorem fix_wrongType (location : Location) (s : Check.FormatString) (index position : Nat)
    (spec : Specifier) (type : String) :
    (Check.wrongType location s index position spec type).fix =
      (Check.suggestedConversion? type).bind fun c => (s.rawRange? spec).map fun range =>
        .replacing s!"Replace with {numberedText index c}" s.file.path range
          (numberedText index c) := by
  unfold Check.wrongType
  cases Check.suggestedConversion? type with
  | none => rfl
  | some c => cases s.rawRange? spec <;> rfl

/-- The directive that it is. -/
def numbered (k : Nat) (c : Char) : Directive := ⟨some (Nat.toDigits 10 k), [], [], [], none, c⟩

theorem written_numbered (k : Nat) (c : Char) :
    (numbered k c).written = (numberedText k c).toList := by
  have htext : numberedText k c =
      "%" ++ String.ofList (Nat.toDigits 10 k) ++ "$" ++ String.singleton c := rfl
  rw [htext]
  simp [numbered, Directive.written]

theorem isDigit_of_mem_toDigits {k : Nat} {c : Char} (h : c ∈ Nat.toDigits 10 k) :
    c.isDigit = true :=
  Nat.isDigit_of_mem_toDigits (by decide) (by decide) h

theorem numberValue?_toDigits {k : Nat} (hk : k < UInt32.size) :
    Directive.numberValue? (Nat.toDigits 10 k) = some k := by
  have hall : (Nat.toDigits 10 k).all Char.isDigit = true :=
    List.all_eq_true.mpr fun c hc => isDigit_of_mem_toDigits hc
  have hvalue : (Nat.toDigits 10 k).foldl (fun n c => 10 * n + (c.toNat - '0'.toNat)) 0 = k :=
    Nat.ofDigitChars_ten_toDigits
  rw [Directive.numberValue?, if_pos hall]
  simp only [hvalue, if_pos hk]

/-- The conversions that are suggested for types. -/
def suggestions : List Char := ['b', 'c', 's', 'd', 'f']

/-- They are known conversions that format an argument, and none of them can be a date letter. -/
theorem of_mem_suggestions {c : Char} (h : c ∈ suggestions) :
    Directive.isConversion c = true ∧ ¬ (c = 't' ∨ c = 'T') ∧
      ConversionClass.ofChar c ≠ .unknown ∧ (c == '%' || c == 'n') = false := by
  simp only [suggestions, List.mem_cons, List.not_mem_nil, or_false] at h
  rcases h with rfl | rfl | rfl | rfl | rfl <;> decide

section Numbered

variable {k : Nat} {c : Char} (hc : c ∈ suggestions)
include hc

theorem readable_numbered : (numbered k c).Readable := by
  refine ⟨fun ds hds => ?_, List.forall_mem_nil _, List.forall_mem_nil _, stopsRun_nil,
    List.forall_mem_nil _, (fun t ht => by cases ht), (of_mem_suggestions hc).1⟩
  cases hds
  exact ⟨Nat.toDigits_ne_nil, fun d hd => isDigit_of_ascii (isDigit_of_mem_toDigits hd)⟩

theorem read_numbered (rest : List Char) :
    Directive.read ((numbered k c).written ++ rest) = some (numbered k c, rest) :=
  (readable_numbered hc).read_written rest fun _ ht => absurd ht (of_mem_suggestions hc).2.1

variable (hk : k < UInt32.size)
include hk

theorem fault_numbered : (numbered k c).fault = none := by
  have hknown := (of_mem_suggestions hc).2.2.1
  simp [Directive.fault, numbered, numberValue?_toDigits hk, hknown]

theorem number_numbered (next : Nat) (r : ByteRange) (ds : List (Directive × ByteRange)) :
    number next ((numbered k c, r) :: ds) =
      (numbered k c).toSpecifier r k true :: number (following k) ds := by
  have hliteral : (numbered k c).isLiteral = false := (of_mem_suggestions hc).2.2.2
  rw [number, if_neg (by rw [hliteral]; exact Bool.false_ne_true)]
  simp only [numbered, numberValue?_toDigits hk]

end Numbered

/-! ## 5. Counting arguments -/

/-- What a specifier adds to the number of arguments. -/
def Specifier.reach (s : Specifier) : Nat := if s.isLiteral then 0 else s.index

theorem argumentCount_eq (specs : List Specifier) :
    argumentCount specs = (specs.map Specifier.reach).foldl max 0 := by
  have hfold : ∀ (specs : List Specifier) (n : Nat),
      (specs.filter fun s => !s.isLiteral && 0 < s.index).foldl (fun n s => max n s.index) n =
        (specs.map Specifier.reach).foldl max n := by
    intro specs
    induction specs with
    | nil => exact fun _ => rfl
    | cons s specs ih =>
      intro n
      rw [List.map_cons, List.foldl_cons, List.filter_cons]
      split
      · next hs =>
        rw [Bool.and_eq_true, Bool.not_eq_true'] at hs
        have hreach : s.reach = s.index := by rw [Specifier.reach, hs.1]; rfl
        rw [List.foldl_cons, ih, hreach]
      · next hs =>
        have hreach : s.reach = 0 := by
          unfold Specifier.reach
          cases hliteral : s.isLiteral with
          | true => rfl
          | false => simpa [hliteral] using hs
        rw [ih, hreach, Nat.max_zero]
  exact hfold specs 0

theorem reach_of_takes {s : Specifier} {k : Nat} (h : s.takes k = true) : s.reach = k := by
  unfold Specifier.takes at h
  rw [Bool.and_eq_true, Bool.not_eq_true', beq_iff_eq] at h
  rw [Specifier.reach, h.1]
  exact h.2

/-! ## 6. A specifier in place of another -/

/-- The text with another specifier in place of `s`, its argument number written. -/
def respecified (text : String) (s : Specifier) (k : Nat) (c : Char) : String :=
  String.ofList (splice text.toList s.range (numberedText k c).toList)

/-- The specifier that then stands in the place of `s`. -/
def Specifier.respecified (s : Specifier) (k : Nat) (c : Char) : Specifier :=
  ⟨k, true, "", false, c, ⟨s.range.start, s.range.start + width (numberedText k c).toList⟩⟩

/-- A specifier as far behind the offset `new` as it was behind `old`. -/
def Specifier.moved (old new : Nat) (s : Specifier) : Specifier :=
  { s with range := ⟨s.range.start - old + new, s.range.stop - old + new⟩ }

/-- The types that a conversion is suggested for. -/
theorem suggestedConversion?_cases {type : String} {c : Char}
    (h : Check.suggestedConversion? type = some c) :
    c = 'b' ∧ type = "boolean" ∨ c = 'c' ∧ type = "char" ∨ c = 's' ∨
      c = 'd' ∧ Check.isIntegral type = true ∨ c = 'f' ∧ Check.isFloating type = true := by
  unfold Check.suggestedConversion? at h
  split at h
  · next htype => cases h; exact Or.inl ⟨rfl, htype⟩
  · split at h
    · next htype => cases h; exact Or.inr (Or.inl ⟨rfl, htype⟩)
    · split at h
      · cases h; exact Or.inr (Or.inr (Or.inl rfl))
      · split at h
        · next htype => cases h; exact Or.inr (Or.inr (Or.inr (Or.inl ⟨rfl, htype⟩)))
        · split at h
          · next htype => cases h; exact Or.inr (Or.inr (Or.inr (Or.inr ⟨rfl, htype⟩)))
          · cases h

theorem mem_suggestions {type : String} {c : Char} (h : Check.suggestedConversion? type = some c) :
    c ∈ suggestions := by
  rcases suggestedConversion?_cases h with ⟨rfl, _⟩ | ⟨rfl, _⟩ | rfl | ⟨rfl, _⟩ | ⟨rfl, _⟩ <;>
    decide

/-- **The conversion that is suggested for a type accepts it.** -/
theorem accepts_suggested {type : String} {c : Char}
    (h : Check.suggestedConversion? type = some c) {s : Specifier} (hdate : s.date = false)
    (hconversion : s.conversion = c) : Check.accepts s type = true := by
  have hclass : s.conversionClass = ConversionClass.ofChar c := by
    rw [Specifier.conversionClass, hdate, hconversion]
    rfl
  rw [Check.accepts, hclass]
  rcases suggestedConversion?_cases h with
    ⟨rfl, rfl⟩ | ⟨rfl, rfl⟩ | rfl | ⟨rfl, htype⟩ | ⟨rfl, htype⟩
  · rfl
  · rfl
  · rfl
  · exact htype
  · exact htype

/-- Specifiers behind another one move with its end. -/
theorem number_locate_moved (next old new : Nat) (cs : List Char) :
    number next (locate new cs) = (number next (locate old cs)).map (·.moved old new) ∧
      ∀ s ∈ number next (locate old cs), old ≤ s.range.start := by
  have hmove : ∀ offset, number next (locate offset cs) = (number next (locate 0 cs)).map
      fun s => { s with range := s.range.shift offset } := by
    intro offset
    have hshift := locate_shift 0 offset cs
    rw [Nat.zero_add] at hshift
    rw [hshift]
    exact number_map (·.shift offset) next (locate 0 cs)
  constructor
  · rw [hmove new, hmove old, List.map_map]
    refine List.map_congr_left fun s _ => ?_
    simp only [Function.comp_apply, Specifier.moved, ByteRange.shift, Nat.add_sub_cancel]
  · intro s hs
    rw [hmove old] at hs
    obtain ⟨s', _, rfl⟩ := List.mem_map.mp hs
    exact Nat.le_add_left _ _

/-- **The specifiers of a format string after one of them was replaced.** -/
theorem specifiers_respecified {text : String} {before after : List Specifier} {s : Specifier}
    {k : Nat} {c : Char} (hformat : kind text = .format)
    (hspecs : specifiers text = before ++ s :: after) (hs : s.takes k = true) (hk : 1 ≤ k)
    (hk' : k < UInt32.size) (hc : c ∈ suggestions) :
    kind (respecified text s k c) = .format ∧
      specifiers (respecified text s k c) = before ++ s.respecified k c ::
        after.map (·.moved s.range.stop (s.respecified k c).range.stop) ∧
      (∀ b ∈ before, b.range.stop ≤ s.range.start) ∧
      ∀ a ∈ after, s.range.stop ≤ a.range.start := by
  obtain ⟨earlier, d, later, next, hlocate, hbefore, hown, hnumber⟩ := number_eq_append hspecs
  have hkind := kindFrom_of_kind hformat (fun h => by cases h)
  obtain ⟨front, rest, hparts⟩ := exists_partedAt hkind hlocate
  have hafter : after = number (following k) (locate s.range.stop rest) := by
    rw [number_of_takes hown hs hk, hparts.later_eq]
  have htext : (respecified text s k c).toList = front ++ ((numbered k c).written ++ rest) := by
    rw [respecified, String.toList_ofList, hparts.splice_eq, written_numbered]
  obtain ⟨hlocate', hkind'⟩ := hparts.replaced (read_numbered hc rest) (fault_numbered hc hk')
  rw [← htext] at hlocate' hkind'
  refine ⟨?_, ?_, fun b hb => ?_, fun a ha => ?_⟩
  · have hpercent : (respecified text s k c).toList.contains '%' = true := by
      rw [htext, List.contains_iff_mem]
      exact List.mem_append_right front List.mem_cons_self
    rw [kind, if_pos hpercent, hkind']
  · have hspec : (numbered k c).toSpecifier
        ⟨s.range.start, s.range.start + width (numbered k c).written⟩ k true =
          s.respecified k c := by
      rw [written_numbered]
      rfl
    rw [specifiers, hlocate', hnumber, number_numbered hc hk', hspec, hafter,
      ← (number_locate_moved _ _ _ _).1, written_numbered]
    rfl
  · rw [hbefore] at hb
    obtain ⟨e, r, index, explicit, he, rfl⟩ := exists_directive_of_mem_number hb
    exact hparts.earlier_stop _ he
  · rw [hafter] at ha
    exact (number_locate_moved _ _ 0 _).2 a ha

/-- **Correcting the first specifier of an argument changes that specifier only.** The text is still
    a format string. The specifiers before the corrected one stay, those behind it move with its end,
    and all keep their numbers, flags and conversions. The corrected one is the first that takes its
    argument, it accepts the type, and the text takes as many arguments as before. -/
theorem respecified_sound (text : String) (s : Specifier) (k : Nat) (type : String) (c : Char)
    (hformat : kind text = .format) (hs : specifierFor (specifiers text) k = some s)
    (hk : 1 ≤ k) (hk' : k < UInt32.size) (hc : Check.suggestedConversion? type = some c) :
    kind (respecified text s k c) = .format ∧
    (∃ before after, specifiers text = before ++ s :: after ∧
      (∀ b ∈ before, b.range.stop ≤ s.range.start) ∧
      (∀ a ∈ after, s.range.stop ≤ a.range.start) ∧
      specifiers (respecified text s k c) = before ++ s.respecified k c ::
        after.map (·.moved s.range.stop (s.respecified k c).range.stop)) ∧
    specifierFor (specifiers (respecified text s k c)) k = some (s.respecified k c) ∧
    Check.accepts (s.respecified k c) type = true ∧
    argumentCount (specifiers (respecified text s k c)) = argumentCount (specifiers text) := by
  obtain ⟨htakes, before, after, hspecs, hfirst⟩ := List.find?_eq_some_iff_append.mp hs
  obtain ⟨hkind, hspecs', hbefore, hafter⟩ :=
    specifiers_respecified hformat hspecs htakes hk hk' (mem_suggestions hc)
  have htakes' : (s.respecified k c).takes k = true := by
    have hliteral : (s.respecified k c).isLiteral = false :=
      (of_mem_suggestions (mem_suggestions hc)).2.2.2
    rw [Specifier.takes, hliteral]
    exact beq_self_eq_true k
  refine ⟨hkind, ⟨before, after, hspecs, hbefore, hafter, hspecs'⟩, ?_,
    accepts_suggested hc rfl rfl, ?_⟩
  · exact List.find?_eq_some_iff_append.mpr ⟨htakes', before, _, hspecs', hfirst⟩
  · have hmoved : (after.map (·.moved s.range.stop (s.respecified k c).range.stop)).map
        Specifier.reach = after.map Specifier.reach := by
      rw [List.map_map]
      rfl
    rw [argumentCount_eq, argumentCount_eq, hspecs, hspecs', List.map_append, List.map_append,
      List.map_cons, List.map_cons, hmoved, reach_of_takes htakes, reach_of_takes htakes']

/-- An unnumbered specifier right behind an escaped percent sign, with unnumbered ones on both
    sides. -/
def crowdedText : String := "é %-8s\\%%s, %d"

theorem respecified_sound_crowded :
    kind crowdedText = .format ∧
      specifierFor (specifiers crowdedText) 2 = some ⟨2, false, "", false, 's', ⟨9, 11⟩⟩ ∧
      Check.suggestedConversion? "int" = some 'd' ∧
      ∃ corrected s', corrected = "é %-8s\\%%2$d, %d" ∧ kind corrected = .format ∧
        specifierFor (specifiers corrected) 2 = some s' ∧ Check.accepts s' "int" = true ∧
        argumentCount (specifiers corrected) = argumentCount (specifiers crowdedText) := by
  have hformat : kind crowdedText = .format := by decide +kernel
  have hs : specifierFor (specifiers crowdedText) 2 =
      some ⟨2, false, "", false, 's', ⟨9, 11⟩⟩ := by decide +kernel
  have hc : Check.suggestedConversion? "int" = some 'd' := by decide +kernel
  obtain ⟨hkind, _, hfirst, haccepts, hcount⟩ :=
    respecified_sound crowdedText _ 2 "int" 'd' hformat hs (by decide) (by decide) hc
  exact ⟨hformat, hs, hc, _, _, by decide +kernel, hkind, hfirst, haccepts, hcount⟩

end AndroidLint.Format
