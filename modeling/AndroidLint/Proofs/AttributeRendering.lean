/-
  File:      AndroidLint/Proofs/AttributeRendering.lean
  Subject:   Attributes are read as they are written.

  A tag is written from its name, its attributes and an end, with any blanks between the parts. The
  reader finds each attribute where it was written, whatever its value holds:

  * `TagRest.takeWhole_run`:   a run up to a character that is not in it;
  * `WrittenAttribute.read`:   one attribute and the rest of the tag;
  * `attributesFrom_written`:  all attributes of a tag;
  * `attributesOf_written`:    the same for a tag that stands somewhere in a text.

  Each round of the reader takes characters away, so there is no endless sequence of rounds
  (`wellFounded_round`).
-/
import AndroidLint.Proofs.DirectiveText
import AndroidLint.Proofs.XmlAttributes

namespace AndroidLint.Xml

open Text

/-! ## 1. Written tags -/

/-- Blanks between the parts of a tag, or none. -/
abbrev Blanks : Type := { cs : List Char // ∀ c ∈ cs, isTagBlank c = true }

/-- An attribute as it is written in a tag. -/
structure WrittenAttribute where
  /-- The blanks before the name. -/
  gap : Blanks
  name : List Char
  /-- The blanks before and behind the equals sign. -/
  beforeSign : Blanks
  behindSign : Blanks
  quote : Char
  /-- What stands between the quotes. -/
  value : List Char
  name_nonempty : name ≠ []
  name_plain : ∀ c ∈ name, c ≠ '=' ∧ c ≠ '>' ∧ isTagBlank c = false
  name_head : name.head? ≠ some '/'
  isQuote : quote = '"' ∨ quote = '\''
  value_open : quote ∉ value

namespace WrittenAttribute

/-- From the first character of the name to the opening quote. -/
def opening (w : WrittenAttribute) : List Char :=
  w.name ++ (w.beforeSign.val ++ '=' :: (w.behindSign.val ++ [w.quote]))

/-- From the first character of the name to the closing quote. -/
def body (w : WrittenAttribute) : List Char := w.opening ++ (w.value ++ [w.quote])

/-- The attribute and the blanks before it. -/
def text (w : WrittenAttribute) : List Char := w.gap.val ++ w.body

end WrittenAttribute

/-- The end of a tag, with a slash where the tag is a whole element. -/
structure TagEnd where
  gap : Blanks
  slash : Bool

/-- What stands before the `>` of the tag. -/
def TagEnd.text (t : TagEnd) : List Char := t.gap.val ++ if t.slash then ['/'] else []

/-- A tag as it is written. -/
def renderTag (tag : List Char) (ws : List WrittenAttribute) (ending : TagEnd) : List Char :=
  writtenTag tag (ws.flatMap (·.text) ++ ending.text)

/-! ## 2. Runs of characters -/

namespace TagRest

/-- **A run goes up to the first character that is not in it.** -/
theorem take_run {p : Char → Bool} {run rest : List Char} (hrun : ∀ c ∈ run, p c = true)
    (hrest : Format.StopsRun p rest) (offset : Nat) (torn : Bool) :
    take p ⟨offset, run ++ rest, torn⟩ = (run, ⟨offset + width run, rest, torn⟩) := by
  unfold take
  rw [Format.takeWhile_append_of_stopsRun hrun hrest,
    Format.dropWhile_append_of_stopsRun hrun hrest]

theorem takeWhole_run {p : Char → Bool} {run rest : List Char} (hrun : ∀ c ∈ run, p c = true)
    (hrest : Format.StopsRun p rest) (offset : Nat) :
    takeWhole p ⟨offset, run ++ rest, false⟩ = .ok (run, ⟨offset + width run, rest, false⟩) := by
  unfold takeWhole
  rw [take_run hrun hrest]
  simp

theorem skipBlanks_run (blanks : Blanks) {rest : List Char}
    (hrest : Format.StopsRun isTagBlank rest) (offset : Nat) (torn : Bool) :
    skipBlanks ⟨offset, blanks.val ++ rest, torn⟩ =
      ⟨offset + width blanks.val, rest, torn⟩ := by
  unfold skipBlanks
  rw [take_run blanks.property hrest]

end TagRest

/-! ## 3. One attribute -/

namespace WrittenAttribute

variable (w : WrittenAttribute)

/-- The attribute that is read where `w` begins at an offset. -/
def placedAt (offset : Nat) : Attribute where
  name := String.ofList w.name
  value := String.ofList (decode w.value)
  range := ⟨offset, offset + width w.body⟩
  valueRange := ⟨offset + width w.opening, offset + width w.opening + width w.value⟩
  uri := none

theorem utf8Size_quote : w.quote.utf8Size = 1 := by
  rcases w.isQuote with h | h <;> rw [h] <;> rfl

theorem isTagBlank_quote : isTagBlank w.quote = false := by
  rcases w.isQuote with h | h <;> rw [h] <;> rfl

theorem isNameChar_name {c : Char} (hc : c ∈ w.name) : isNameChar c = true := by
  obtain ⟨hsign, hclose, hblank⟩ := w.name_plain c hc
  simp [isNameChar, hsign, hclose, hblank]

/-- A value ends at the quote that it began with. -/
theorem readValue (name : String) (start offset : Nat) (rest : List Char) :
    Attribute.readValue name start ⟨offset, w.quote :: (w.value ++ w.quote :: rest), false⟩ =
      .ok ({ name, value := String.ofList (decode w.value),
             range := ⟨start, offset + 1 + width w.value + 1⟩,
             valueRange := ⟨offset + 1, offset + 1 + width w.value⟩, uri := none },
        ⟨offset + 1 + width w.value + 1, rest, false⟩) := by
  have hrun : ∀ c ∈ w.value, (c != w.quote) = true := fun c hc =>
    bne_iff_ne.mpr fun heq => w.value_open (heq ▸ hc)
  have hstop : Format.StopsRun (· != w.quote) (w.quote :: rest) :=
    Format.stopsRun_cons (bne_self_eq_false _)
  unfold Attribute.readValue
  dsimp only
  rw [if_pos w.isQuote, TagRest.takeWhole_run hrun hstop]

theorem width_opening : width w.opening =
    width w.name + width w.beforeSign.val + 1 + width w.behindSign.val + 1 := by
  simp only [opening, width_append, width_cons, width_nil, w.utf8Size_quote,
    show '='.utf8Size = 1 from rfl]
  omega

theorem width_body : width w.body = width w.opening + width w.value + 1 := by
  simp only [body, width_append, width_cons, width_nil, w.utf8Size_quote]
  omega

/-- **One attribute is read as it is written**, and the rest of the tag is left. -/
theorem read (offset : Nat) (rest : List Char) :
    Attribute.read ⟨offset, w.body ++ rest, false⟩ =
      .ok (w.placedAt offset, ⟨offset + width w.body, rest, false⟩) := by
  have hbody : w.body ++ rest = w.name ++ (w.beforeSign.val ++ '=' ::
      (w.behindSign.val ++ w.quote :: (w.value ++ w.quote :: rest))) := by
    simp [body, opening]
  have hsign : Format.StopsRun isNameChar (w.beforeSign.val ++ '=' ::
      (w.behindSign.val ++ w.quote :: (w.value ++ w.quote :: rest))) := by
    refine Format.StopsRun.append (fun c hc => ?_) fun _ => Format.stopsRun_cons rfl
    simp [isNameChar, w.beforeSign.property c (List.mem_of_head? hc)]
  have hquote : Format.StopsRun isTagBlank (w.quote :: (w.value ++ w.quote :: rest)) :=
    Format.stopsRun_cons w.isTagBlank_quote
  unfold Attribute.read
  rw [hbody, TagRest.takeWhole_run (fun c hc => w.isNameChar_name hc) hsign]
  dsimp only
  rw [TagRest.skipBlanks_run w.beforeSign (Format.stopsRun_cons rfl)]
  show Attribute.readValue (String.ofList w.name) offset (TagRest.skipBlanks
    ⟨_, w.behindSign.val ++ w.quote :: (w.value ++ w.quote :: rest), false⟩) = _
  rw [TagRest.skipBlanks_run w.behindSign hquote, readValue, placedAt, width_body, width_opening]
  simp only [Nat.add_assoc]

end WrittenAttribute

/-! ## 4. All attributes of a tag -/

/-- The attribute was read from where `w` is written behind the characters `front` of a text. -/
structure WrittenAttribute.ReadAs (contents front : List Char) (w : WrittenAttribute)
    (a : Attribute) : Prop where
  name : a.name = String.ofList w.name
  /-- The value has its references replaced, or is as it is written where one of them is bad. -/
  value : a.value = String.ofList ((unescape? w.value).getD w.value)
  /-- The range begins with the name and ends with the closing quote. -/
  start : a.range.start = width (front ++ w.gap.val)
  body : slice? contents a.range = some w.body
  written : slice? contents a.valueRange = some w.value
  /-- The closing quote stands between the ends of the two ranges. -/
  stop : a.range.stop = a.valueRange.stop + 1
  uri : a.uri = none

/-- The attributes were read from where others are written, one behind the other. -/
def AllReadAs (contents : List Char) : List Char → List WrittenAttribute → List Attribute → Prop
  | _, [], [] => True
  | front, w :: ws, a :: as =>
    w.ReadAs contents front a ∧ AllReadAs contents (front ++ w.text) ws as
  | _, _, _ => False

/-- What is read stands where it was written. -/
theorem WrittenAttribute.readAs_placedAt (w : WrittenAttribute) (front behind : List Char) :
    w.ReadAs (front ++ (w.text ++ behind)) front (w.placedAt (width (front ++ w.gap.val))) where
  name := rfl
  value := rfl
  start := rfl
  body := by
    have hparts : front ++ (w.text ++ behind) = front ++ w.gap.val ++ w.body ++ behind := by
      simp [text]
    rw [hparts]
    exact slice?_width (front ++ w.gap.val) w.body behind
  written := by
    have hparts : front ++ (w.text ++ behind) =
        front ++ w.gap.val ++ w.opening ++ w.value ++ w.quote :: behind := by
      simp [text, WrittenAttribute.body]
    show slice? _ ⟨width (front ++ w.gap.val) + width w.opening, _⟩ = _
    rw [hparts, ← width_append (front ++ w.gap.val)]
    exact slice?_width (front ++ w.gap.val ++ w.opening) w.value (w.quote :: behind)
  stop := by
    show width (front ++ w.gap.val) + width w.body =
      width (front ++ w.gap.val) + width w.opening + width w.value + 1
    rw [width_body]
    omega
  uri := rfl

/-- Whether a character ends a tag. -/
def EndsTag (c : Char) : Prop := c = '>' ∨ c = '/'

/-- At the end of a tag no attribute is left. -/
theorem attributesFrom_end {r : TagRest} {c : Char} {cs : List Char}
    (hnext : r.skipBlanks.text = c :: cs) (hc : EndsTag c) : attributesFrom r = .ok [] := by
  rw [attributesFrom, hnext, List.isEmpty_cons, Bool.false_and, if_neg Bool.false_ne_true, if_pos]
  exact hc.imp (congrArg some) (congrArg some)

/-- **One round**: an attribute in front, then those of the rest. -/
theorem attributesFrom_round {r rest : TagRest} {a : Attribute} {c : Char} {cs : List Char}
    (hnext : r.skipBlanks.text = c :: cs) (hc : ¬ EndsTag c)
    (hread : Attribute.read r.skipBlanks = .ok (a, rest)) :
    attributesFrom r = (attributesFrom rest).map (a :: ·) := by
  rw [attributesFrom, hnext, List.isEmpty_cons, Bool.false_and, if_neg Bool.false_ne_true, if_neg]
  · split
    · next e herror => cases hread.symm.trans herror
    · next b more hfound =>
      cases hread.symm.trans hfound
      rfl
  · exact fun hends => hc (hends.imp Option.some.inj Option.some.inj)

/-- What stands behind the last attribute ends the tag. -/
theorem TagEnd.attributesFrom (ending : TagEnd) (offset : Nat) :
    attributesFrom ⟨offset, ending.text ++ ['>'], false⟩ = .ok [] := by
  have hnext : ∃ c rest, (if ending.slash then ['/'] else []) ++ ['>'] = c :: rest ∧ EndsTag c := by
    cases ending.slash with
    | false => exact ⟨'>', [], rfl, .inl rfl⟩
    | true => exact ⟨'/', ['>'], rfl, .inr rfl⟩
  obtain ⟨c, rest, htext, hc⟩ := hnext
  have hstop : Format.StopsRun isTagBlank (c :: rest) :=
    Format.stopsRun_cons (by rcases hc with rfl | rfl <;> rfl)
  have hskip : TagRest.skipBlanks ⟨offset, ending.text ++ ['>'], false⟩ =
      ⟨offset + width ending.gap.val, c :: rest, false⟩ := by
    rw [TagEnd.text, List.append_assoc, htext, TagRest.skipBlanks_run ending.gap hstop]
  exact attributesFrom_end (congrArg TagRest.text hskip) hc

/-- A name does not begin like the end of a tag, or with a blank. -/
theorem WrittenAttribute.exists_head (w : WrittenAttribute) (rest : List Char) :
    ∃ c cs, w.body ++ rest = c :: cs ∧ ¬ EndsTag c ∧ isTagBlank c = false := by
  obtain ⟨c, cs, hname⟩ := List.exists_cons_of_ne_nil w.name_nonempty
  obtain ⟨_, hclose, hblank⟩ := w.name_plain c (by rw [hname]; exact List.mem_cons_self)
  have hbody : ∃ tail, w.body ++ rest = w.name ++ tail :=
    ⟨_, by rw [body, opening, List.append_assoc, List.append_assoc]⟩
  obtain ⟨tail, hbody⟩ := hbody
  refine ⟨c, cs ++ tail, ?_, ?_, hblank⟩
  · rw [hbody, hname, List.cons_append]
  · rintro (h | h)
    · exact hclose h
    · exact w.name_head (by rw [hname, h]; rfl)

/-- **All attributes of a tag are read as they are written.** -/
theorem attributesFrom_written (ws : List WrittenAttribute) (ending : TagEnd)
    (front behind : List Char) :
    ∃ as, attributesFrom ⟨width front, ws.flatMap (·.text) ++ (ending.text ++ ['>']), false⟩ =
        .ok as ∧
      AllReadAs (front ++ (ws.flatMap (·.text) ++ (ending.text ++ ['>']) ++ behind)) front ws
        as := by
  induction ws generalizing front with
  | nil => exact ⟨[], ending.attributesFrom (width front), trivial⟩
  | cons w ws ih =>
    obtain ⟨as, hrest, hreads⟩ := ih (front ++ w.text)
    generalize hmore : ws.flatMap (·.text) ++ (ending.text ++ ['>']) = more at hrest hreads
    have htag : (w :: ws).flatMap (·.text) ++ (ending.text ++ ['>']) = w.text ++ more := by
      rw [List.flatMap_cons, List.append_assoc, hmore]
    obtain ⟨c, cs, hbody, hends, hblank⟩ := w.exists_head more
    have hskip : TagRest.skipBlanks ⟨width front, w.text ++ more, false⟩ =
        ⟨width (front ++ w.gap.val), w.body ++ more, false⟩ := by
      rw [WrittenAttribute.text, List.append_assoc, width_append]
      refine TagRest.skipBlanks_run w.gap ?_ (width front) false
      rw [hbody]
      exact Format.stopsRun_cons hblank
    have hround := attributesFrom_round (by rw [hskip]; exact hbody) hends
      (by rw [hskip]; exact w.read (width (front ++ w.gap.val)) more)
    have hoffset : width (front ++ w.gap.val) + width w.body = width (front ++ w.text) := by
      rw [WrittenAttribute.text, ← width_append, List.append_assoc]
    rw [htag]
    refine ⟨w.placedAt (width (front ++ w.gap.val)) :: as, ?_, ?_, ?_⟩
    · rw [hround, hoffset, hrest]
      rfl
    · rw [List.append_assoc]
      exact w.readAs_placedAt front (more ++ behind)
    · rw [List.append_assoc, ← List.append_assoc front]
      exact hreads

/-! ## 5. Rounds -/

/-- One round of the reader: from one place in a tag it takes an attribute and comes to another. -/
def Round (r s : TagRest) : Prop := ∃ a, Attribute.read r.skipBlanks = .ok (a, s)

/-- **There is no endless sequence of rounds**: each leaves less of the tag. -/
theorem wellFounded_round : WellFounded fun s r : TagRest => Round r s := by
  refine Subrelation.wf (fun {s r} hround => ?_) (measure fun r : TagRest => r.text.length).wf
  obtain ⟨a, hread⟩ := hround
  exact Nat.lt_of_lt_of_le (Attribute.length_read_lt hread) r.length_skipBlanks_le

/-- **The attributes of a tag that stands anywhere in a text are read as they are written**: exactly
    these, in this order, each with its name and its value and with the ranges of what is written.
    Whatever the text, the reader comes to an end. -/
theorem attributesOf_written (before tag : List Char) (ws : List WrittenAttribute)
    (ending : TagEnd) (behind : List Char) :
    (∃ as, attributesOf (before ++ renderTag tag ws ending ++ behind)
        ⟨width before, width before + width (renderTag tag ws ending)⟩ (width tag) = .ok as ∧
      AllReadAs (before ++ renderTag tag ws ending ++ behind) (before ++ '<' :: tag) ws as) ∧
      WellFounded fun s r : TagRest => Round r s := by
  refine ⟨?_, wellFounded_round⟩
  have hparts : before ++ renderTag tag ws ending ++ behind = before ++ '<' :: tag ++
      (ws.flatMap (·.text) ++ (ending.text ++ ['>']) ++ behind) := by
    simp [renderTag, writtenTag]
  obtain ⟨as, hread, hreads⟩ := attributesFrom_written ws ending (before ++ '<' :: tag) behind
  refine ⟨as, ?_, ?_⟩
  · rw [renderTag, attributesOf_eq_attributesFrom, List.append_assoc]
    exact hread
  · rw [hparts]
    exact hreads

/-- An attribute with the characters in its value that have a meaning elsewhere in a tag. -/
def crowdedAttribute : WrittenAttribute where
  gap := ⟨['\n', ' '], List.all_eq_true.mp rfl⟩
  name := ['a', ':', 'b']
  beforeSign := ⟨[' '], List.all_eq_true.mp rfl⟩
  behindSign := ⟨[], List.forall_mem_nil _⟩
  quote := '\''
  value := ['>', '/', '=', '"', ' ']
  name_nonempty := by decide
  name_plain := by
    have hall : ['a', ':', 'b'].all
        (fun c => decide (c ≠ '=' ∧ c ≠ '>' ∧ isTagBlank c = false)) = true := rfl
    exact fun c hc => of_decide_eq_true (List.all_eq_true.mp hall c hc)
  name_head := by decide
  isQuote := .inr rfl
  value_open := by decide

example : renderTag ['t'] [crowdedAttribute, crowdedAttribute]
    ⟨⟨[' '], List.all_eq_true.mp rfl⟩, true⟩ =
    "<t\n a:b ='>/=\" '\n a:b ='>/=\" ' />".toList := String.toList_ofList.symm

end AndroidLint.Xml
