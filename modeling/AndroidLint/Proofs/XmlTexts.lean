/-
  File:      AndroidLint/Proofs/XmlTexts.lean
  Subject:   The text of an element, told from the events inside it.

  Character data goes to the innermost open element, and each element hands its text on to the next
  outer one when it ends. So a run or a section comes to all elements around it, once and in its
  place between the others:

  * `parse_within_induction`:   what holds of elements when they are completed holds of all of them;
  * `parse_text_inside`:        the text of an element is what the events in its content carry.
-/
import AndroidLint.Proofs.XmlReplacement

namespace AndroidLint.Xml

/-! ## 1. Elements that an event completes -/

/-- **What holds of an element when it is completed holds of all elements of a tree.** -/
theorem parse_within_induction {contents : List Char} {root : Element} {P : Element → Prop}
    (h : parse contents = .ok root)
    (completed : ∀ seen p later mid outer o e, (scan contents).events = seen ++ p :: later →
      seen.foldlM (Builder.step contents) Builder.empty = .ok mid →
      Builder.Completes contents mid p outer o e → P e)
    {e : Element} (he : e.Within root) : P e := by
  refine parse_holds (O := fun _ _ => True) (P := fun _ e => ∀ d : Element, d.Within e → P d)
    (fun _ _ _ _ ho => ho) ?_ h e he
  intro seen p later mid hsplit hseen
  refine ⟨fun _ _ _ _ => trivial, fun outer o e hcompletes _ hchildren d hd => ?_⟩
  have hnew := completed seen p later mid outer o e hsplit hseen hcompletes
  have hinner : ∀ c ∈ e.children, ∀ d : Element, d.Within c → P d := by
    cases hcompletes with
    | empty => exact hchildren
    | close => exact hchildren
  cases hd with
  | self => exact hnew
  | child hc hd => exact hinner _ hc d hd

/-! ## 2. Events inside a range -/

instance (r s : ByteRange) : Decidable (r.Inside s) := inferInstanceAs (Decidable (_ ∧ _))

/-- The characters that the events inside a range carry, one event after the other. -/
def charactersWithin (events : List Placed) (r : ByteRange) : List Char :=
  (events.filter fun p => decide (p.range.Inside r)).flatMap fun p => p.event.characters

/-- Up to an offset at which no event goes on, the events inside are those from the beginning on. -/
theorem charactersWithin_append {seen rest : List Placed} {m n : Nat}
    (hseen : ∀ q ∈ seen, q.range.stop ≤ n) (hrest : ∀ q ∈ rest, n < q.range.stop) :
    charactersWithin (seen ++ rest) ⟨m, n⟩ = charactersFrom seen m := by
  have hinside : (seen.filter fun q => decide (q.range.Inside ⟨m, n⟩)) =
      seen.filter fun q => decide (m ≤ q.range.start) :=
    List.filter_congr fun q hq => decide_eq_decide.mpr ⟨And.left, fun hle => ⟨hle, hseen q hq⟩⟩
  have hbehind : (rest.filter fun q => decide (q.range.Inside ⟨m, n⟩)) = [] := by
    refine List.filter_eq_nil_iff.mpr fun q hq hin => ?_
    exact Nat.not_le_of_lt (hrest q hq) (of_decide_eq_true hin).2
  rw [charactersWithin, List.filter_append, hinside, hbehind, List.append_nil, charactersFrom]

theorem charactersWithin_cons (p : Placed) (events : List Placed) (r : ByteRange) :
    charactersWithin (p :: events) r =
      (if p.range.Inside r then p.event.characters else []) ++ charactersWithin events r := by
  unfold charactersWithin
  rw [List.filter_cons]
  by_cases hp : p.range.Inside r
  · rw [if_pos (decide_eq_true hp), if_pos hp, List.flatMap_cons]
  · rw [if_neg (fun h => hp (of_decide_eq_true h)), if_neg hp, List.nil_append]

/-- Events that carry nothing may be inside or not. -/
theorem charactersWithin_congr {events : List Placed} {r s : ByteRange}
    (h : ∀ p ∈ events, (p.range.Inside r ↔ p.range.Inside s) ∨ p.event.characters = []) :
    charactersWithin events r = charactersWithin events s := by
  induction events with
  | nil => rfl
  | cons p events ih =>
    obtain ⟨hp, hevents⟩ := List.forall_mem_cons.mp h
    rw [charactersWithin_cons, charactersWithin_cons, ih hevents]
    rcases hp with hsame | hnone
    · rw [if_congr hsame rfl rfl]
    · rw [hnone, ite_self, ite_self]

/-! ## 3. What elements have read -/

theorem Event.characters_of_data? {e : Event} (h : e.data? = none) : e.characters = [] := by
  cases e with
  | text | cdata => cases h
  | start | empty | close | other => rfl

/-- **An element that is completed has read what the events since its beginning carry**, up to its
    end tag. -/
theorem Builder.Completes.text {contents : List Char} {seen later : List Placed} {p : Placed}
    {mid : Builder} {outer : List OpenElement} {o : OpenElement} {e : Element}
    (hevents : Consecutive 0 (seen ++ p :: later))
    (hlt : ∀ q ∈ seen ++ p :: later, q.range.start < q.range.stop)
    (hseen : seen.foldlM (Builder.step contents) Builder.empty = .ok mid)
    (h : Builder.Completes contents mid p outer o e) :
    e.text.toList =
      charactersWithin (seen ++ p :: later) ⟨e.range.start, e.contentRange.stop⟩ := by
  have hltSeen : ∀ q ∈ seen, q.range.start < q.range.stop := fun q hq =>
    hlt q (List.mem_append_left _ hq)
  have hp : p.range.start < p.range.stop := hlt p (List.mem_append_right _ List.mem_cons_self)
  obtain ⟨hstops, hlater⟩ := hevents.around hlt
  cases h with
  | empty hevent hopens =>
    have hbefore : ∀ q ∈ seen, q.range.start < p.range.start := fun q hq =>
      Nat.lt_of_lt_of_le (hltSeen q hq) (hstops q hq)
    have hwithin : charactersWithin (seen ++ [p] ++ later) ⟨p.range.start, p.range.stop⟩ =
        charactersFrom (seen ++ [p]) p.range.start := by
      refine charactersWithin_append (fun q hq => ?_) hlater
      rcases List.mem_append.mp hq with hq | hq
      · exact Nat.le_trans (hstops q hq) (Nat.le_of_lt hp)
      · rw [List.mem_singleton.mp hq]
    obtain ⟨as, _, rfl⟩ := exists_of_map_eq_ok hopens
    show [] = charactersWithin (seen ++ ([p] ++ later)) ⟨p.range.start, p.range.stop⟩
    rw [← List.append_assoc, hwithin, charactersFrom_concat (Nat.le_refl _),
      charactersFrom_of_lt hbefore, hevent]
    rfl
  | close hevent hopened =>
    have hempty : Builder.empty.NestedAt 0 := ⟨trivial, fun _ hnone => by cases hnone⟩
    have hreads : StackReads (charactersFrom ([] ++ seen)) [] mid.opened :=
      Builder.foldlM_reads hevents.append.1 hltSeen (List.forall_mem_nil _) hempty trivial hseen
    rw [hopened] at hreads
    obtain ⟨hread, _⟩ := hreads
    rw [List.nil_append, List.append_nil] at hread
    have hwithin : charactersWithin (seen ++ p :: later) ⟨o.element.range.start, p.range.start⟩ =
        charactersFrom seen o.element.range.start :=
      charactersWithin_append hstops (List.forall_mem_cons.mpr
        ⟨hp, fun q hq => Nat.lt_trans hp (hlater q hq)⟩)
    rw [hwithin, hread]

/-- **The text of an element is what the events in its content carry**, in the order of the text and
    each once: runs of character data with their references replaced, or as they are written where
    a reference is bad, and sections as they are written. -/
theorem parse_text_inside {contents : List Char} {root e : Element}
    (h : parse contents = .ok root) (he : e.Within root) :
    ((scan contents).events.Pairwise fun p q => p.range.Precedes q.range) ∧
      e.text.toList = charactersWithin (scan contents).events e.contentRange := by
  obtain ⟨hevents, hlt⟩ := scan_consecutive contents
  have hordered := hevents.pairwise hlt
  refine ⟨hordered, ?_⟩
  have hfrom : ∀ d : Element, d.Within root → d.text.toList =
      charactersWithin (scan contents).events ⟨d.range.start, d.contentRange.stop⟩ := by
    refine fun d hd => parse_within_induction h (P := fun d : Element => d.text.toList =
      charactersWithin (scan contents).events ⟨d.range.start, d.contentRange.stop⟩) ?_ hd
    intro seen p later mid outer o d hsplit hseen hcompletes
    rw [hsplit] at hevents hlt ⊢
    exact hcompletes.text hevents hlt hseen
  -- between the beginning of the element and its content there is only its start tag
  obtain ⟨tag, htag, hrange, hdata⟩ := parse_tagsRead h e he
  have hplace : tag.range.start = e.range.start ∧ tag.range.stop = e.contentRange.start := by
    rw [hrange]
    exact ⟨rfl, rfl⟩
  rw [hfrom e he]
  refine charactersWithin_congr fun p hp => ?_
  by_cases hsame : p = tag
  · exact Or.inr (hsame ▸ Event.characters_of_data? hdata)
  · refine Or.inl (and_congr_left fun _ => ?_)
    have hp' := hlt p hp
    have htag' := hlt tag htag
    show e.range.start ≤ p.range.start ↔ e.contentRange.start ≤ p.range.start
    rcases hevents.apart hlt hp htag hsame with hbefore | hbehind <;> omega

/-- A text with a section, a comment, an empty element and a bad reference between other runs. -/
def mixedText : List Char := "<a>x&lt;<b>&y<![CDATA[&lt;]]></b><!-- n --><c/>z</a>w".toList

theorem parse_text_inside_mixedText : ∃ root, parse mixedText = .ok root ∧
    root.text = "x<&y&lt;z" ∧ ∃ b ∈ root.children, b.text = "&y&lt;" ∧
      root.text.toList = charactersWithin (scan mixedText).events root.contentRange ∧
      b.text.toList = charactersWithin (scan mixedText).events b.contentRange := by
  have hread : ∃ root, parse mixedText = .ok root ∧
      root.text = "x<&y&lt;z" ∧ ∃ b ∈ root.children, b.text = "&y&lt;" :=
    exists_root_of_any (by decide +kernel)
  obtain ⟨root, hroot, htext, b, hb, hinner⟩ := hread
  exact ⟨root, hroot, htext, b, hb, hinner, (parse_text_inside hroot (.self root)).2,
    (parse_text_inside hroot (.child hb (.self b))).2⟩

end AndroidLint.Xml
