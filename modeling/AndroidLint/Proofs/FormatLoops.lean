/-
  File:      AndroidLint/Proofs/FormatLoops.lean
  Subject:   The two loops over the bytes of a format string, and that they agree.

  Run over bytes, both questions about a format string are loops with cursors:

  * `searchLoop`  asks for the next match from `index` on, walks the cursor `scanned` up to the
                  match, two bytes at a backslash, and drops the match when the cursor has passed
                  its beginning. The cursor lags: it stays at the beginning of the match it kept;
  * `kindLoop`    goes from byte to byte, two at a backslash and a whole directive at a percent
                  sign, and keeps the ranges it has stepped over.

  A cursor can land inside a character. Since a byte below 128 is a character of its own, it never
  takes a byte there for a backslash or a percent sign. Both loops are given the rounds that they
  may take, and answer nothing when these do not suffice:

  * `searchLoop_eq`:         the first loop ends with the directives of `locate`;
  * `kindLoop_eq`:           the second one ends with the kind, and steps over directives;
  * `specifiers_kind_scan`:  both agree with the pass from left to right, for every text.
-/
import AndroidLint.Proofs.Bytes
import AndroidLint.Proofs.FormatScan

namespace AndroidLint.Format

open AndroidLint.Text

/-! ## 1. The loops -/

/-- The byte of a backslash. -/
def backslashByte : UInt8 := 0x5C

/-- The byte of a percent sign. -/
def percentByte : UInt8 := 0x25

/-- The cursor for escapes, walked up to a place. -/
def walkTo (bs : List UInt8) (start scanned : Nat) : Nat :=
  if scanned < start then
    walkTo bs start (if bs[scanned]? = some backslashByte then scanned + 2 else scanned + 1)
  else scanned
termination_by start - scanned
decreasing_by split <;> omega

/-- The least character boundary that is not below an offset. -/
def boundaryAbove : Nat → List Char → Nat
  | 0, _ => 0
  | _ + 1, [] => 0
  | n + 1, c :: cs => c.utf8Size + boundaryAbove (n + 1 - c.utf8Size) cs

/-- The next match from a byte on. -/
def matchFrom (cs : List Char) (index : Nat) : Option (Directive × ByteRange) := do
  let (_, rest) ← cut? index cs
  let (skipped, d, _) ← search rest
  pure (d, ⟨index + width skipped, index + width skipped + width d.written⟩)

/-- The loop that finds directives, in at most so many rounds. -/
def searchLoop (cs : List Char) : Nat → Nat → Nat → Option (List (Directive × ByteRange))
  | 0, _, _ => none
  | rounds + 1, index, scanned =>
    match matchFrom cs index with
    | none => some []
    | some (d, range) =>
      let scanned := walkTo (bytes cs) range.start scanned
      if range.start < scanned then
        let scanned := boundaryAbove scanned cs
        searchLoop cs rounds scanned scanned
      else (searchLoop cs rounds range.stop scanned).map ((d, range) :: ·)

/-- The loop that tells the kind, in at most so many rounds, with the ranges it steps over. -/
def kindLoop (cs : List Char) : Nat → Nat → Option (Kind × List ByteRange)
  | 0, _ => none
  | rounds + 1, i =>
    match (bytes cs)[i]? with
    | none => some (.format, [])
    | some b =>
      if b = backslashByte then kindLoop cs rounds (i + 2)
      else if b = percentByte then
        match (cut? i cs).bind fun p => Directive.read p.2 with
        | none => some (.notFormat, [])
        | some (d, _) =>
          match d.fault with
          | some fault => some (fault, [])
          | none =>
            (kindLoop cs rounds (i + width d.written)).map fun r =>
              (r.1, ⟨i, i + width d.written⟩ :: r.2)
      else kindLoop cs rounds (i + 1)

/-! ## 2. Bytes that the cursors pass by -/

theorem ne_backslash_of_mem {c : Char} (hc : c ≠ '\\') {b : UInt8}
    (h : b ∈ String.utf8EncodeChar c) : b ≠ backslashByte := by
  rintro rfl
  exact hc (Char.toNat_inj.mp (toNat_of_byte h (by decide)).1)

theorem ne_percent_of_mem {c : Char} (hc : c ≠ '%') {b : UInt8}
    (h : b ∈ String.utf8EncodeChar c) : b ≠ percentByte := by
  rintro rfl
  exact hc (Char.toNat_inj.mp (toNat_of_byte h (by decide)).1)

/-- In a character of more than one byte there is no backslash and no percent sign. -/
theorem ne_of_mem_of_size {c : Char} (hs : 1 < c.utf8Size) {b : UInt8}
    (h : b ∈ String.utf8EncodeChar c) : b ≠ backslashByte ∧ b ≠ percentByte := by
  constructor <;>
  · rintro rfl
    have := (toNat_of_byte h (by decide)).2
    omega

/-! ## 3. The cursor for escapes -/

theorem walkTo_of_le {bs : List UInt8} {start scanned : Nat} (h : start ≤ scanned) :
    walkTo bs start scanned = scanned := by
  rw [walkTo, if_neg (by omega)]

/-- Bytes that are no backslash are passed one by one. -/
theorem walkTo_of_ne {bs : List UInt8} {start a b : Nat} (hab : a ≤ b) (hb : b ≤ start)
    (h : ∀ k, a ≤ k → k < b → bs[k]? ≠ some backslashByte) :
    walkTo bs start a = walkTo bs start b := by
  induction hn : b - a generalizing a with
  | zero => rw [show a = b by omega]
  | succ n ih =>
    rw [walkTo, if_pos (by omega), if_neg (h a (Nat.le_refl a) (by omega))]
    exact ih (by omega) (fun k hk => h k (by omega)) (by omega)

/-- The cursor passes a character that is no backslash, and the rest of a character whose first
    byte it has passed. -/
theorem walkTo_char {c : Char} {as cs : List Char} {start k : Nat}
    (hs : width as + c.utf8Size ≤ start) (hk : k = width as ∧ c ≠ '\\' ∨ k = width as + 1) :
    walkTo (bytes (as ++ c :: cs)) start k =
      walkTo (bytes (as ++ c :: cs)) start (width as + c.utf8Size) := by
  have hsize := c.utf8Size_pos
  refine walkTo_of_ne (by omega) hs fun i h1 h2 => ?_
  obtain ⟨b, hb, he⟩ := getElem?_bytes as cs c (k := i) (by omega) h2
  rw [he]
  intro h
  have hback := Option.some.inj h
  rcases hk with ⟨_, hc⟩ | hk
  · exact ne_backslash_of_mem hc hb hback
  · exact (ne_of_mem_of_size (by omega) hb).1 hback

/-- The cursor passes a run without backslashes. -/
theorem walkTo_plain {run : List Char} (hrun : ∀ c ∈ run, c ≠ '\\') (as cs : List Char)
    (start : Nat) (hs : width as + width run ≤ start) :
    walkTo (bytes (as ++ run ++ cs)) start (width as) =
      walkTo (bytes (as ++ run ++ cs)) start (width as + width run) := by
  induction run generalizing as with
  | nil => rfl
  | cons c run ih =>
    rw [width_cons] at hs ⊢
    have hnext := ih (fun d hd => hrun d (List.mem_cons_of_mem _ hd)) (as ++ [c])
      (by rw [width_append]; simp; omega)
    rw [show as ++ [c] ++ run = as ++ c :: run by simp,
      show width (as ++ [c]) = width as + c.utf8Size by simp] at hnext
    rw [← Nat.add_assoc, ← hnext, List.append_assoc, List.cons_append]
    exact walkTo_char (by omega) (Or.inl ⟨rfl, hrun c List.mem_cons_self⟩)

/-- **The cursor passes the end of a run exactly when the character behind it is escaped.** -/
theorem walkTo_run (escaped : Bool) (as run cs : List Char) :
    walkTo (bytes (as ++ run ++ cs)) (width as + width run) (width as + escaped.toNat) =
      width as + width run + (escapedBehind escaped run).toNat := by
  induction run generalizing escaped as with
  | nil =>
    rw [walkTo_of_le (by simp)]
    rfl
  | cons c run ih =>
    have hsize := c.utf8Size_pos
    have hnext := fun e => ih e (as ++ [c])
    simp only [show as ++ [c] ++ run = as ++ c :: run by simp,
      show width (as ++ [c]) = width as + c.utf8Size by simp] at hnext
    rw [width_cons, ← Nat.add_assoc]
    cases escaped with
    | true =>
      rw [show escapedBehind true (c :: run) = escapedBehind false run from rfl, ← hnext false,
        show true.toNat = 1 from rfl, List.append_assoc, List.cons_append]
      exact walkTo_char (by omega) (Or.inr rfl)
    | false =>
      by_cases hc : c = '\\'
      · subst hc
        obtain ⟨b, hb, he⟩ :=
          getElem?_bytes as (run ++ cs) '\\' (k := width as) (by omega) (by omega)
        have hb' : b = backslashByte := List.mem_singleton.mp hb
        rw [← List.cons_append, ← List.append_assoc] at he
        rw [show width as + false.toNat = width as from rfl, walkTo, if_pos (by omega), he, hb',
          if_pos rfl]
        exact hnext true
      · have hnot : escapedBehind false (c :: run) = escapedBehind false run := by
          simp only [escapedBehind, List.foldl_cons, beq_false_of_ne hc, Bool.and_false]
        rw [hnot, ← hnext false, List.append_assoc, List.cons_append]
        exact walkTo_char (by omega) (Or.inl ⟨rfl, hc⟩)

/-! ## 4. The loop that finds directives -/

theorem boundaryAbove_width (as cs : List Char) :
    boundaryAbove (width as) (as ++ cs) = width as := by
  induction as with
  | nil => cases cs <;> rfl
  | cons c as ih =>
    have hc := c.utf8Size_pos
    obtain ⟨n, hn⟩ : ∃ n, c.utf8Size + width as = n + 1 := ⟨c.utf8Size + width as - 1, by omega⟩
    rw [width_cons, List.cons_append, hn, boundaryAbove, ← hn, Nat.add_sub_cancel_left, ih]

theorem matchFrom_width (as cs : List Char) :
    matchFrom (as ++ cs) (width as) =
      (search cs).map fun found => (found.2.1,
        ⟨width as + width found.1, width as + width found.1 + width found.2.1.written⟩) := by
  rw [matchFrom, cut?_width_append]
  simp only [Option.bind_eq_bind, Option.bind_some]
  cases search cs <;> rfl

/-- **The loop ends, and finds what the search finds**, when its lagging cursor is as good as one
    that stands at `index`. -/
theorem searchLoop_eq (as cs : List Char) {rounds scanned : Nat} (hr : cs.length < rounds)
    (hs : ∀ start, width as ≤ start →
      walkTo (bytes (as ++ cs)) start scanned = walkTo (bytes (as ++ cs)) start (width as)) :
    searchLoop (as ++ cs) rounds (width as) scanned = some (locate (width as) cs) := by
  induction rounds generalizing as cs scanned with
  | zero => omega
  | succ rounds ih =>
    rw [searchLoop, matchFrom_width, locate]
    cases hfound : search cs with
    | none => rfl
    | some found =>
      obtain ⟨skipped, d, rest⟩ := found
      obtain ⟨tail, rfl, hread⟩ := append_of_search hfound
      have hcursor := walkTo_run false as skipped tail
      rw [show escapedBehind false skipped = escapedAfter skipped from rfl,
        show width as + false.toNat = width as from rfl, List.append_assoc] at hcursor
      have hlen := search_length_lt hfound
      simp only [Option.map_some]
      rw [hs _ (by omega), hcursor]
      by_cases he : escapedAfter skipped = true
      · -- the match is escaped: both cursors go on right behind its percent sign
        obtain ⟨t, rfl⟩ := Directive.eq_cons_of_read hread
        have hwidth : width (as ++ skipped ++ ['%']) = width as + width skipped + 1 := by
          rw [width_append, width_append]
          rfl
        have htext : as ++ (skipped ++ '%' :: t) = as ++ skipped ++ ['%'] ++ t := by simp
        rw [he, if_pos (by simp), if_pos rfl, show true.toNat = 1 from rfl, ← hwidth, htext,
          boundaryAbove_width, ← List.drop_drop, List.drop_left]
        exact ih _ t (by simp at hr; omega) fun _ _ => rfl
      · -- the match is kept: the cursor stays at its beginning, and no backslash is in it
        have hwidth : width (as ++ skipped ++ d.written) =
            width as + width skipped + width d.written := by
          rw [width_append, width_append]
        have htext : as ++ (skipped ++ tail) = as ++ skipped ++ d.written ++ rest := by
          rw [List.append_assoc, List.append_assoc, Directive.written_append_of_read hread]
        rw [Bool.eq_false_iff.mpr he, if_neg (by simp), if_neg (by simp),
          show false.toNat = 0 from rfl, Nat.add_zero, ← hwidth, htext,
          ih (as ++ skipped ++ d.written) rest (by omega) fun start hstart => ?_]
        · rfl
        · have hplain := walkTo_plain (fun c => Directive.ne_backslash_of_mem_written hread)
            (as ++ skipped) rest start (by rw [width_append, ← hwidth]; exact hstart)
          rw [width_append as skipped, ← hwidth] at hplain
          exact hplain

/-! ## 5. The loop that tells the kind -/

/-- Bytes that are no backslash and no percent sign take a round each. -/
theorem kindLoop_skip {cs : List Char} {rounds i j : Nat} (hij : i ≤ j) (hr : j - i ≤ rounds)
    (h : ∀ k, i ≤ k → k < j →
      ∃ b, (bytes cs)[k]? = some b ∧ b ≠ backslashByte ∧ b ≠ percentByte) :
    kindLoop cs rounds i = kindLoop cs (rounds - (j - i)) j := by
  induction hn : j - i generalizing i rounds with
  | zero => rw [show i = j by omega, Nat.sub_zero]
  | succ n ih =>
    obtain ⟨b, hb, h1, h2⟩ := h i (Nat.le_refl i) (by omega)
    obtain ⟨r, rfl⟩ : ∃ r, rounds = r + 1 := ⟨rounds - 1, by omega⟩
    rw [kindLoop, hb]
    simp only [if_neg h1, if_neg h2]
    rw [ih (by omega) (by omega) (fun k hk => h k (by omega)) (by omega),
      show r + 1 - (n + 1) = r - n by omega]

/-- The loop passes a character that means nothing to it, and the rest of a character whose first
    byte it has passed. -/
theorem kindLoop_char {c : Char} {as cs : List Char} {rounds k : Nat}
    (hk : k = width as ∧ c ≠ '\\' ∧ c ≠ '%' ∨ k = width as + 1) (hr : c.utf8Size ≤ rounds) :
    kindLoop (as ++ c :: cs) rounds k =
      kindLoop (as ++ [c] ++ cs) (rounds - (width as + c.utf8Size - k)) (width (as ++ [c])) := by
  have hsize := c.utf8Size_pos
  rw [List.append_assoc, List.singleton_append,
    show width (as ++ [c]) = width as + c.utf8Size by simp]
  refine kindLoop_skip (by omega) (by omega) fun i h1 h2 => ?_
  obtain ⟨b, hb, he⟩ := getElem?_bytes as cs c (k := i) (by omega) h2
  refine ⟨b, he, ?_⟩
  rcases hk with ⟨_, hc, hp⟩ | hk
  · exact ⟨ne_backslash_of_mem hc hb, ne_percent_of_mem hp hb⟩
  · exact ne_of_mem_of_size (by omega) hb

theorem kindLoop_backslash (as cs : List Char) (rounds : Nat) :
    kindLoop (as ++ '\\' :: cs) (rounds + 1) (width as) =
      kindLoop (as ++ ['\\'] ++ cs) rounds (width (as ++ ['\\']) + 1) := by
  obtain ⟨b, hb, he⟩ := getElem?_bytes as cs '\\' (Nat.le_refl (width as))
    (Nat.lt_add_of_pos_right (Char.utf8Size_pos _))
  rw [kindLoop, he, List.mem_singleton.mp hb, List.append_assoc, width_append]
  rfl

theorem kindLoop_percent (as cs : List Char) (rounds : Nat) :
    kindLoop (as ++ '%' :: cs) (rounds + 1) (width as) =
      match Directive.read ('%' :: cs) with
      | none => some (.notFormat, [])
      | some (d, _) =>
        match d.fault with
        | some fault => some (fault, [])
        | none =>
          (kindLoop (as ++ '%' :: cs) rounds (width as + width d.written)).map fun r =>
            (r.1, ⟨width as, width as + width d.written⟩ :: r.2) := by
  obtain ⟨b, hb, he⟩ := getElem?_bytes as cs '%' (Nat.le_refl (width as))
    (Nat.lt_add_of_pos_right (Char.utf8Size_pos _))
  rw [kindLoop, he, List.mem_singleton.mp hb, cut?_width_append]
  rfl

/-- The ranges of the directives up to the first visit at fault. -/
def goodRanges (vs : List Visit) : List ByteRange :=
  ((vs.takeWhile (·.fault?.isNone)).filterMap Visit.directive?).map (·.2)

/-- **The loop ends with the kind of the text**, and has stepped over the directives up to the first
    visit at fault. -/
theorem kindLoop_eq (as cs : List Char) {rounds : Nat} (hr : width cs < rounds) :
    kindLoop (as ++ cs) rounds (width as) =
      some (kindFrom cs, goodRanges (visitsFrom 0 (width as) cs)) := by
  obtain ⟨r, rfl⟩ : ∃ r, rounds = r + 1 := ⟨rounds - 1, by omega⟩
  fun_induction kindFrom cs generalizing as r with
  | case1 =>
    rw [kindLoop, List.append_nil, getElem?_bytes_eq_none (Nat.le_refl _)]
    rfl
  | case2 =>
    rw [width_cons, width_nil] at hr
    obtain ⟨s, rfl⟩ : ∃ s, r = s + 1 := ⟨r - 1, by have := Char.utf8Size_pos '\\'; omega⟩
    rw [kindLoop_backslash, kindLoop, List.append_nil, getElem?_bytes_eq_none (by omega)]
    rfl
  | case3 c cs ih =>
    rw [width_cons, width_cons] at hr
    have hsize := c.utf8Size_pos
    have hback := Char.utf8Size_pos '\\'
    obtain ⟨s, hs⟩ : ∃ s, r = s + 1 + (c.utf8Size - 1) := ⟨r - c.utf8Size, by omega⟩
    rw [kindLoop_backslash, kindLoop_char (Or.inr rfl) (by omega),
      show r - (width (as ++ ['\\']) + c.utf8Size - (width (as ++ ['\\']) + 1)) = s + 1 by omega,
      ih _ _ (by omega), visitsFrom_escape, show (1 : Nat) = 0 + 1 from rfl, visitsFrom_succ,
      width_append, width_append]
    rfl
  | case4 cs hread =>
    rw [kindLoop_percent, hread, visitsFrom_loose hread]
    rfl
  | case5 cs d rest hread fault hf =>
    rw [kindLoop_percent, hread, visitsFrom_directive hread]
    simp [hf, goodRanges, Visit.fault?]
  | case6 cs d rest hread hf ih =>
    have htext := Directive.written_append_of_read hread
    have hwidth : width d.written + width rest = width ('%' :: cs) := by
      rw [← width_append, htext]
    have hpos : 0 < width d.written :=
      Nat.lt_of_lt_of_le (Char.utf8Size_pos '%') (Nat.le_add_right _ _)
    obtain ⟨s, rfl⟩ : ∃ s, r = s + 1 := ⟨r - 1, by omega⟩
    have hnext := ih (as ++ d.written) s (by omega)
    rw [List.append_assoc, htext, width_append] at hnext
    rw [kindLoop_percent, hread, visitsFrom_directive hread]
    simp [hf, hnext, goodRanges, Visit.fault?, Visit.directive?]
  | case7 c cs hb hp ih =>
    rw [width_cons] at hr
    have hsize := c.utf8Size_pos
    obtain ⟨s, hs⟩ : ∃ s, r + 1 = s + 1 + c.utf8Size := ⟨r - c.utf8Size, by omega⟩
    rw [kindLoop_char (Or.inl ⟨rfl, fun h => hb h, fun h => hp h⟩) (by omega),
      show r + 1 - (width as + c.utf8Size - width as) = s + 1 by omega, ih _ _ (by omega),
      visitsFrom_plain (fun h => hb h) (fun h => hp h), width_append]
    rfl

/-! ## 6. Both loops and the pass -/

theorem specifiers_eq_scan (text : String) : specifiers text = number 1 (scan text) := by
  rw [specifiers, locate_eq_visits]
  rfl

theorem kindFrom_of_kind {text : String} {k : Kind} (h : kind text = k) (hk : k ≠ .plain) :
    kindFrom text.toList = k := by
  unfold kind at h
  split at h
  · exact h
  · exact absurd h.symm hk

/-- In a format string every percent sign begins a directive, and the loop steps over all of
    them. -/
theorem goodRanges_of_format {text : String} (h : kindFrom text.toList = .format) :
    goodRanges (visits text) = (specifiers text).map (·.range) := by
  have hall : (visits text).takeWhile (·.fault?.isNone) = visits text := by
    rw [List.takeWhile_eq_self_iff]
    intro v hv
    rw [fault?_eq_none_of_format h hv]
    rfl
  rw [goodRanges, hall, specifiers_eq_scan, number_map_range]
  rfl

theorem known_of_format {text : String} (h : kindFrom text.toList = .format) {s : Specifier}
    (hs : s ∈ specifiers text) : s.conversionClass ≠ .unknown := by
  obtain ⟨d, range, index, explicit, hd, rfl⟩ := exists_directive_of_mem_number hs
  have hfault : d.fault = none := fault_eq_none_of_format h hd
  show (if d.date.isSome then ConversionClass.dateTime else .ofChar d.conversion) ≠ .unknown
  rcases Directive.known_of_fault_eq_none hfault with hk | hk
  · rw [if_pos hk]
    exact fun h => by cases h
  · split
    · exact fun h => by cases h
    · exact hk

/-- The directive that makes a text invalid is among its specifiers. -/
theorem exists_specifier_of_invalid {text t : String} (h : kind text = .invalid t) :
    ∃ s ∈ specifiers text, slice? text.toList s.range = some t.toList := by
  have hk := kindFrom_of_kind h (fun h => by cases h)
  obtain ⟨d, range, hv, ht⟩ := exists_directive_of_invalid hk 0
  have hrange : range ∈ (specifiers text).map (·.range) := by
    rw [specifiers_eq_scan, number_map_range]
    exact List.mem_map.mpr ⟨(d, range), List.mem_filterMap.mpr ⟨_, hv, rfl⟩, rfl⟩
  obtain ⟨s, hs, rfl⟩ := List.mem_map.mp hrange
  have hslice : slice? ([] ++ text.toList) s.range = some d.written :=
    slice?_of_mem_visitsFrom rfl hv
  exact ⟨s, hs, by rw [← ht]; exact hslice⟩

/-- **Specifiers and kind follow one pass from left to right**, for every text:

    * the specifiers are the matches that the pass meets, numbered;
    * in a format string the pass meets a match at every percent sign, no specifier is of unknown
      class, and their ranges are the ones that the loop for the kind steps over;
    * the directive of an invalid text is one of the specifiers, so a definition with this text is
      reported at a specifier;
    * both loops end, within a round for each character and each byte and one more. -/
theorem specifiers_kind_scan (text : String) :
    specifiers text = number 1 (scan text) ∧
    (kind text = .format →
      (∀ v ∈ visits text, v.directive?.isSome = true) ∧
      (∀ s ∈ specifiers text, s.conversionClass ≠ .unknown) ∧
      kindLoop text.toList (width text.toList + 1) 0 =
        some (.format, (specifiers text).map (·.range))) ∧
    (∀ t, kind text = .invalid t →
      (∃ s ∈ specifiers text, slice? text.toList s.range = some t.toList) ∧
      ∀ file definition, (Check.FormatString.ofDefinition file definition).text = text →
        ∃ s, (Check.FormatString.ofDefinition file definition).specifiers.find? (fun spec =>
          (Check.FormatString.ofDefinition file definition).written spec == t.toList) = some s) ∧
    searchLoop text.toList (text.toList.length + 1) 0 0 = some (locate 0 text.toList) ∧
    ∃ steps, kindLoop text.toList (width text.toList + 1) 0 =
      some (kindFrom text.toList, steps) := by
  have hloop := kindLoop_eq [] text.toList (Nat.lt_succ_self _)
  refine ⟨specifiers_eq_scan text, fun hf => ?_, fun t ht => ?_, ?_, ⟨_, hloop⟩⟩
  · have hk := kindFrom_of_kind hf (fun h => by cases h)
    refine ⟨fun v hv => ?_, fun s hs => known_of_format hk hs, ?_⟩
    · have hnone := fault?_eq_none_of_format hk hv
      cases v with
      | loose offset => cases hnone
      | directive d range => rfl
    · rw [← goodRanges_of_format hk, ← hk]
      exact hloop
  · obtain ⟨s, hs, hslice⟩ := exists_specifier_of_invalid ht
    refine ⟨⟨s, hs, hslice⟩, fun file definition htext => ?_⟩
    subst htext
    rw [← Option.isSome_iff_exists, List.find?_isSome]
    refine ⟨s, hs, ?_⟩
    rw [Check.FormatString.written, hslice]
    exact beq_self_eq_true _
  · exact searchLoop_eq [] text.toList (Nat.lt_succ_self _) fun _ _ => rfl

end AndroidLint.Format
