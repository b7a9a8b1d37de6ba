/-
  File:      AndroidLint/Proofs/SpecifierPlaces.lean
  Subject:   Which characters of a file a correction of a specifier replaces.

  The place of a specifier is guessed. The text of a definition is read out of the content without
  the tags, comments and quotes, and with the references replaced. A specifier of the text is looked
  for in the content as the copy that has as many others before it. That is another copy if the
  content has some that are not read, or if some are read that the content does not have:

  * `Resource.rereadWith_of_edited`:    the resources of a document with an edited text;
  * `Xml.exists_reread`:                the definition after a copy in its content was replaced;
  * `editsSpecifier_iff`:               when the copy is the specifier;
  * `rawRange?_edits`:                  what a correction of a specifier replaces;
  * `rawRange?_misplaced`:              two strings in which another copy is replaced.
-/
import AndroidLint.Proofs.FixRanges
import AndroidLint.Proofs.SpecifierCopies
import AndroidLint.Proofs.XmlReplacement

namespace AndroidLint

/-! ## 1. Definitions without places -/

namespace Resource

open Xml (Element Attribute)

/-- The definition without its places, with other words for the texts of its element. -/
def Definition.outline (words : String → String) (d : Definition) : Definition :=
  { d with nameRange := ⟨0, 0⟩, element := d.element.outline words }

/-- The definition with its type, name and element, wherever it stands. -/
def Definition.unplaced (d : Definition) : Definition := d.outline id

theorem attribute?_outline (words : String → String) (e : Element) (name : String) :
    (e.outline words).attribute? name = (e.attribute? name).map Attribute.unplaced := by
  rw [Element.attribute?, Element.outline_eq, List.find?_map]
  rfl

theorem typeOf?_outline (words : String → String) (e : Element) :
    typeOf? (e.outline words) = typeOf? e := by
  have htag : (e.outline words).tag = e.tag := by rw [Element.outline_eq]
  have hvalue : ((e.outline words).attribute? "type").map (·.value) =
      (e.attribute? "type").map (·.value) := by
    rw [attribute?_outline, Option.map_map]
    rfl
  unfold typeOf?
  rw [htag, hvalue]

/-- What an element defines does not depend on where it stands. -/
theorem ofElement?_outline (words : String → String) (e : Element) :
    Definition.ofElement? (e.outline words) =
      (Definition.ofElement? e).map (Definition.outline words) := by
  unfold Definition.ofElement?
  rw [typeOf?_outline, attribute?_outline]
  cases typeOf? e with
  | none => rfl
  | some type => cases e.attribute? "name" <;> rfl

theorem map_unplaced_filterMap {es es' : List Element}
    (h : es'.map Element.unplaced = es.map Element.unplaced) :
    (es'.filterMap Definition.ofElement?).map Definition.unplaced =
      (es.filterMap Definition.ofElement?).map Definition.unplaced := by
  have hswap : ∀ ds : List Element, (ds.filterMap Definition.ofElement?).map Definition.unplaced =
      (ds.map Element.unplaced).filterMap Definition.ofElement? := by
    intro ds
    rw [List.map_filterMap, List.filterMap_map]
    exact congrArg (ds.filterMap ·) (funext fun e => (ofElement?_outline id e).symm)
  rw [hswap, h, hswap]

theorem element_of_ofElement? {e : Element} {d : Definition}
    (h : Definition.ofElement? e = some d) : d.element = e := by
  obtain ⟨_, _, h⟩ := Option.bind_eq_some_iff.mp h
  obtain ⟨_, _, h⟩ := Option.bind_eq_some_iff.mp h
  cases h
  rfl

/-- An element with the same tags and attributes defines a resource of the same type and name. -/
theorem exists_ofElement?_of_skeleton {e e' : Element} {d : Definition}
    (h : e'.skeleton = e.skeleton) (hd : Definition.ofElement? e = some d) :
    ∃ d', Definition.ofElement? e' = some d' ∧ d'.type = d.type ∧ d'.name = d.name ∧
      d'.element = e' := by
  have hsame := ofElement?_outline (fun _ => "") e'
  rw [show e'.outline (fun _ => "") = e.outline (fun _ => "") from h, ofElement?_outline, hd]
    at hsame
  obtain ⟨d', hd', hparts⟩ := Option.map_eq_some_iff.mp hsame.symm
  have htype := congrArg Definition.type hparts
  have hname := congrArg Definition.name hparts
  exact ⟨d', hd', htype, hname, element_of_ofElement? hd'⟩

/-- Read anew, the document has the same tags and attributes and defines the same resources, but one
    of them with another text. -/
def RereadWith (root : Element) (d : Definition) (contents text : List Char) : Prop :=
  ∃ root', Xml.parse contents = .ok root' ∧ root'.skeleton = root.skeleton ∧
    ∃ earlier later earlier' d' later',
      definitions root = earlier ++ d :: later ∧ definitions root' = earlier' ++ d' :: later' ∧
      earlier'.map Definition.unplaced = earlier.map Definition.unplaced ∧
      later'.map Definition.unplaced = later.map Definition.unplaced ∧
      d'.type = d.type ∧ d'.name = d.name ∧ d'.element.text.toList = text

/-- A definition is that of a child of the root. -/
theorem mem_definitions {root : Element} {d : Definition} (h : d ∈ definitions root) :
    root.tag = "resources" ∧ d.element ∈ root.children ∧
      Definition.ofElement? d.element = some d := by
  unfold definitions at h
  split at h
  · next htag =>
    obtain ⟨e, he, hd⟩ := List.mem_filterMap.mp h
    rw [element_of_ofElement? hd]
    exact ⟨htag, he, hd⟩
  · cases h

/-- Elements beside one that is around a part of the text stand apart from the part, so they are the
    same. -/
theorem map_unplaced_of_apart {r : ByteRange} {read : Nat → List Char} {old new : List Char}
    {es es' : List Element} (h : List.Forall₂ (Element.Edited r read old new) es es')
    (hapart : ∀ e ∈ es, ¬ e.Around r) : es'.map Element.unplaced = es.map Element.unplaced := by
  induction h with
  | nil => rfl
  | @cons e e' _ _ he _ ih =>
    obtain ⟨hnot, hrest⟩ := List.forall_mem_cons.mp hapart
    cases he with
    | apart _ same => rw [List.map_cons, List.map_cons, same, ih hrest]
    | around place => exact absurd place hnot

/-- An element that holds something of a part of the text does not stand apart from it. -/
theorem not_apart {r part : ByteRange} {e : Element} (hpart : part.start < part.stop)
    (hr : part.Inside r) (he : part.Inside e.range) : ¬ e.Apart r := by
  obtain ⟨hstart, hstop⟩ := hr
  obtain ⟨hestart, hestop⟩ := he
  rintro (h | h) <;> omega

theorem definitions_append_cons {root : Element} {d : Definition} {before behind : List Element}
    {e : Element} (htag : root.tag = "resources")
    (hchildren : root.children = before ++ e :: behind)
    (hd : Definition.ofElement? e = some d) :
    definitions root = before.filterMap Definition.ofElement? ++
      d :: behind.filterMap Definition.ofElement? := by
  rw [definitions, if_pos htag, hchildren, List.filterMap_append, List.filterMap_cons_some hd]

/-- What holds something of a part of the text has siblings that are not around the part. -/
theorem siblings_not_around {contents : List Char} {root e : Element} {before behind : List Element}
    {r part : ByteRange} (hroot : root.RangesIn contents)
    (hsplit : root.children = before ++ e :: behind) (hpart : part.start < part.stop)
    (hr : part.Inside r) (he : part.Inside e.range) :
    (∀ c ∈ before, ¬ c.Around r) ∧ ∀ c ∈ behind, ¬ c.Around r := by
  have hsiblings := hroot.siblings
  rw [hsplit, List.map_append, List.map_cons, List.pairwise_append, List.pairwise_cons]
    at hsiblings
  obtain ⟨_, ⟨hafter, _⟩, hfirst⟩ := hsiblings
  constructor
  · intro c hc haround
    have hprecedes := hfirst c.range (List.mem_map_of_mem hc) e.range List.mem_cons_self
    have hstop := hprecedes.1
    have hlast := Nat.le_trans hr.2 haround.2
    have hbegin := he.1
    omega
  · intro c hc haround
    have hstop := (hafter c.range (List.mem_map_of_mem hc)).1
    have hbegin := Nat.le_trans haround.1 hr.1
    have hend := he.2
    omega

/-- **The resources of a document in which a part of the text of one was replaced.** -/
theorem rereadWith_of_edited {contents contents' : List Char} {root root' : Element}
    {d : Definition} {r part : ByteRange} {read : Nat → List Char} {old new : List Char}
    (hplaced : ∀ e : Element, e.Within root → e.RangesIn contents) (hd : d ∈ definitions root)
    (hparse : Xml.parse contents' = .ok root') (hedited : root.Edited r read old new root')
    (hpart : part.start < part.stop) (hr : part.Inside r)
    (hin : part.Inside d.element.contentRange) :
    ∃ back, d.element.text.toList = read d.element.range.start ++ (old ++ back) ∧
      RereadWith root d contents' (read d.element.range.start ++ (new ++ back)) := by
  have hskeleton := hedited.skeleton
  obtain ⟨htag, hmem, hof⟩ := mem_definitions hd
  have hroot := hplaced root (.self root)
  have helement := hplaced d.element (.child hmem (.self _))
  have hown : part.Inside d.element.range :=
    ⟨Nat.le_trans helement.content.1 hin.1, Nat.le_trans hin.2 helement.content.2⟩
  have hchild := hroot.children d.element hmem
  have hwhole : part.Inside root.range :=
    ⟨Nat.le_trans hroot.content.1 (Nat.le_trans hchild.1 hown.1),
      Nat.le_trans hown.2 (Nat.le_trans hchild.2 hroot.content.2)⟩
  cases hedited with
  | apart place => exact absurd place (not_apart hpart hr hwhole)
  | around _ tag _ _ children =>
    obtain ⟨before, behind, hsplit⟩ := List.append_of_mem hmem
    rw [hsplit] at children
    obtain ⟨before', e', behind', hsplit', hbefore, he, hbehind⟩ :=
      Xml.exists_of_forall₂_append_cons children
    obtain ⟨hnot, hnot'⟩ := siblings_not_around hroot hsplit hpart hr hown
    have hskeleton' := he.skeleton
    obtain ⟨d', hd', htype, hname, helement'⟩ := exists_ofElement?_of_skeleton hskeleton' hof
    cases he with
    | apart place => exact absurd place (not_apart hpart hr hown)
    | around _ _ _ text _ =>
      obtain ⟨back, hold, hnew⟩ := text
      refine ⟨back, hold, root', hparse, hskeleton, before.filterMap Definition.ofElement?,
        behind.filterMap Definition.ofElement?, before'.filterMap Definition.ofElement?, d',
        behind'.filterMap Definition.ofElement?, definitions_append_cons htag hsplit hof,
        definitions_append_cons (tag.trans htag) hsplit' hd',
        map_unplaced_filterMap (map_unplaced_of_apart hbefore hnot),
        map_unplaced_filterMap (map_unplaced_of_apart hbehind hnot'), htype, hname, ?_⟩
      rw [helement']
      exact hnew

/-- A definition stands once in a document. -/
theorem nodup_definitions {contents : List Char} {root : Element} (hroot : root.RangesIn contents) :
    (definitions root).Nodup := by
  unfold definitions
  split
  · have hchildren : root.children.Pairwise fun a b => a.range.Precedes b.range :=
      List.pairwise_map.mp hroot.siblings
    refine hchildren.filterMap _ fun a b hab d hd d' hd' heq => ?_
    rw [← element_of_ofElement? hd, ← element_of_ofElement? hd', heq] at hab
    exact Nat.lt_irrefl _ hab.2
  · exact List.nodup_nil

/-- What the document is read with anew is determined. -/
theorem RereadWith.unique {contents contents' text text' : List Char} {root : Element}
    {d : Definition} (hroot : root.RangesIn contents)
    (h : RereadWith root d contents' text) (h' : RereadWith root d contents' text') :
    text = text' := by
  obtain ⟨root₁, hparse₁, _, earlier, later, earlier₁, d₁, later₁, hold, hnew, hearlier, _, _, _,
    rfl⟩ := h
  obtain ⟨root₂, hparse₂, _, earlier', later', earlier₂, d₂, later₂, hold', hnew', hearlier', _, _,
    _, rfl⟩ := h'
  obtain rfl : root₁ = root₂ := Except.ok.inj (hparse₁.symm.trans hparse₂)
  have hnodup := nodup_definitions hroot
  rw [hold] at hnodup
  have hnot := (List.nodup_cons.mp (List.nodup_middle.mp hnodup)).1
  obtain ⟨rfl, _, _⟩ := (List.append_cons_inj_of_notMem
    (fun hmem => hnot (List.mem_append_left _ hmem))
    (fun hmem => hnot (List.mem_append_right _ hmem))).mp (hold.symm.trans hold')
  have hlength : earlier₁.length = earlier₂.length := by
    rw [← List.length_map Definition.unplaced, hearlier, ← hearlier', List.length_map]
  obtain ⟨_, hrest⟩ := List.append_inj (hnew.symm.trans hnew') hlength
  rw [(List.cons.inj hrest).1]

end Resource

/-! ## 2. The copy that is replaced -/

namespace Xml

/-- A part of the text lies among the characters of one run or one section of character data. -/
def InData (contents : List Char) (r : ByteRange) : Prop :=
  ∃ p ∈ (scan contents).events, p.event.data?.isSome = true ∧ r.Inside p.dataRange

/-- A part of the text is a copy of `needle` in the content of an element. -/
structure CopyAt (contents : List Char) (content r : ByteRange)
    (before front needle back behind : List Char) : Prop where
  parts : contents = before ++ (front ++ (needle ++ back)) ++ behind
  content : content = ⟨Text.width before,
    Text.width before + Text.width (front ++ (needle ++ back))⟩
  range : r = ⟨Text.width (before ++ front),
    Text.width (before ++ front) + Text.width needle⟩

open Text

section Copies

variable {contents : List Char} {content r : ByteRange}
  {before front needle back behind : List Char}
  (h : CopyAt contents content r before front needle back behind)
include h

theorem CopyAt.whole : contents = (before ++ front) ++ (needle ++ (back ++ behind)) := by
  rw [h.parts]
  simp only [List.append_assoc]

theorem CopyAt.slice? : Text.slice? contents r = some needle := by
  rw [h.whole, h.range, ← List.append_assoc]
  exact slice?_width _ _ _

theorem CopyAt.splice (new : List Char) :
    Text.splice contents r new = (before ++ front) ++ (new ++ (back ++ behind)) := by
  rw [h.whole, h.range]
  exact splice_width _ _ _ _

theorem CopyAt.inside : r.Inside content := by
  rw [h.range, h.content]
  simp only [ByteRange.Inside, width_append]
  omega

theorem CopyAt.before_start :
    Text.before (r.start - content.start) (front ++ (needle ++ back)) = front := by
  rw [h.range, h.content]
  dsimp only
  rw [width_append, Nat.add_sub_cancel_left, before_width]

theorem CopyAt.before_stop :
    Text.before (r.stop - content.start) (front ++ (needle ++ back)) = front ++ needle := by
  rw [h.range, h.content]
  dsimp only
  rw [width_append, Nat.add_assoc, Nat.add_sub_cancel_left, ← width_append, ← List.append_assoc,
    before_width]

/-- A copy that lies among the characters of an event is a part of them. -/
theorem CopyAt.exists_in_data {p : Placed} {w ahead opening closing later : List Char}
    (hcarries : p.Carries contents w ahead opening closing later) (hr : r.Inside p.dataRange) :
    ∃ bs cs, before ++ front = (ahead ++ opening) ++ bs ∧ w = bs ++ (needle ++ cs) ∧
      back ++ behind = cs ++ (closing ++ later) := by
  rw [h.range, hcarries.dataRange] at hr
  obtain ⟨hfirst, hlast⟩ := hr
  dsimp only at hfirst hlast
  have hparts : (ahead ++ opening) ++ (w ++ (closing ++ later)) =
      (before ++ front) ++ (needle ++ (back ++ behind)) := by
    rw [← h.whole, hcarries.parts]
    simp only [List.append_assoc]
  obtain ⟨bs, hbs, hrest⟩ := exists_append_of_width_le hparts hfirst
  have hle : width (bs ++ needle) ≤ width w := by
    rw [hbs, width_append (ahead ++ opening)] at hlast
    rw [width_append]
    omega
  rw [← List.append_assoc bs] at hrest
  obtain ⟨cs, hcs, hback⟩ := exists_append_of_width_le hrest.symm hle
  rw [List.append_assoc] at hcs
  exact ⟨bs, cs, hbs, hcs, hback⟩

end Copies

/-- **A copy among the characters of an event**, replaced by others: read anew, the definition has
    them in the text behind what is read before the copy. -/
theorem exists_reread {contents w : List Char} {root : Element} {p : Placed}
    {earlier later : List Placed} {d : Resource.Definition} {r : ByteRange}
    {before front needle back behind : List Char}
    (hmark : contents.head? ≠ some byteOrderMark) (hparse : parse contents = .ok root)
    (hsplit : (scan contents).events = earlier ++ p :: later) (hw : p.event.data? = some w)
    (hd : d ∈ Resource.definitions root)
    (hcopy : CopyAt contents d.element.contentRange r before front needle back behind)
    (hneedle : Inert needle) (hr : r.Inside p.dataRange) :
    ∃ as bs f rest, before ++ front = as ++ bs ∧ width as = p.dataRange.start ∧
      ('&' ∉ bs → f = bs) ∧
      d.element.text.toList =
        charactersFrom earlier d.element.range.start ++ f ++ (needle ++ rest) ∧
      ∀ new, Inert new → '<' ∉ new → Resource.RereadWith root d (splice contents r new)
        (charactersFrom earlier d.element.range.start ++ f ++ (new ++ rest)) := by
  obtain ⟨ahead, opening, closing, later', hcarries, hreplace⟩ :=
    parse_replace hmark hparse hsplit hw
  obtain ⟨bs, cs, hbs, hcs, hback⟩ := hcopy.exists_in_data hcarries hr
  obtain ⟨f, hf, hnew⟩ := hreplace bs needle cs hcs hneedle
  have hpos : r.start < r.stop := by
    rw [hcopy.range]
    exact Nat.lt_add_of_pos_right (width_pos hneedle.ne_nil)
  have hin : r.Inside p.range := by
    rw [hcopy.range, hcarries.range, hbs, hcs]
    simp only [ByteRange.Inside, width_append]
    omega
  have hreread : ∀ new, Inert new → '<' ∉ new → ∃ rest, d.element.text.toList =
        charactersFrom earlier d.element.range.start ++ f ++ (needle ++ rest) ∧
      Resource.RereadWith root d (splice contents r new)
        (charactersFrom earlier d.element.range.start ++ f ++ (new ++ rest)) := by
    intro new hinert hopen
    obtain ⟨root', hroot', hedited⟩ := hnew new hinert hopen
    have hspliced : splice contents r new =
        ahead ++ (opening ++ (bs ++ (new ++ cs) ++ closing)) ++ later' := by
      rw [hcopy.splice, hbs, hback]
      simp only [List.append_assoc]
    rw [hspliced]
    exact Resource.rereadWith_of_edited (fun e he => parse_ranges hmark hparse he) hd hroot' hedited
      hpos hin hcopy.inside
  -- one correction tells the text behind the copy, which is the same for all
  obtain ⟨hsample, hopen⟩ := Format.inert_numberedText 1 (show 's'.isAlpha = true from rfl)
  obtain ⟨rest, htext, _⟩ := hreread _ hsample hopen
  refine ⟨ahead ++ opening, bs, f, rest, hbs, ?_, hf, htext, ?_⟩
  · rw [hcarries.dataRange]
  · intro new hinert hopen
    obtain ⟨rest', htext', hnew'⟩ := hreread new hinert hopen
    have hsame : rest' = rest :=
      List.append_cancel_left (List.append_cancel_left (htext'.symm.trans htext))
    exact hsame ▸ hnew'

/-- No characters are read between a start tag and a run behind it. -/
theorem charactersFrom_startTag {contents : List Char} {q : Placed} {earlier later : List Placed}
    (hmark : contents.head? ≠ some byteOrderMark)
    (hsplit : (scan contents).events = earlier ++ q :: later) (hq : q.event.data? = none) :
    charactersFrom (earlier ++ [q]) q.range.start = [] := by
  obtain ⟨hevents, hlie⟩ := scan_covers hmark
  rw [hsplit] at hevents hlie
  obtain ⟨hconsecutive, hstart⟩ := hevents.append
  have hlt : ∀ p ∈ earlier, p.range.start < p.range.stop := fun p hp =>
    (hlie p (List.mem_append_left _ hp)).lt
  have hbefore : ∀ p ∈ earlier, p.range.start < q.range.start := by
    intro p hp
    rw [hstart]
    exact Nat.lt_of_lt_of_le (hlt p hp) (hconsecutive.stop_le_reached hlt hp)
  have hnone : q.event.characters = [] := by
    cases hevent : q.event with
    | text written | cdata written => rw [hevent] at hq; cases hq
    | start | empty | close | other => rfl
  rw [charactersFrom_concat (Nat.le_refl _), charactersFrom_of_lt hbefore, hnone]
  rfl

/-- **A copy before which the content has no markup**: it is in the run behind the start tag. -/
theorem exists_reread_of_plain {contents : List Char} {root : Element}
    {d : Resource.Definition} {r : ByteRange} {before front needle back behind : List Char}
    (hmark : contents.head? ≠ some byteOrderMark) (hparse : parse contents = .ok root)
    (hd : d ∈ Resource.definitions root)
    (hcopy : CopyAt contents d.element.contentRange r before front needle back behind)
    (hneedle : Inert needle) (hplain : ∀ c ∈ front ++ needle, c ∉ ['<', '&', '"']) :
    ∃ rest, d.element.text.toList = front ++ (needle ++ rest) ∧
      ∀ new, Inert new → '<' ∉ new → Resource.RereadWith root d (splice contents r new)
        (front ++ (new ++ rest)) := by
  obtain ⟨_, hmem, _⟩ := Resource.mem_definitions hd
  obtain ⟨q, hq, hrange, hnone⟩ := parse_tagsRead hparse d.element (.child hmem (.self _))
  obtain ⟨earlier, later, hsplit⟩ := List.append_of_mem hq
  have hrun : IsRun (front ++ needle) := by
    refine ⟨by simp [hneedle.ne_nil], fun c hc => bne_iff_ne.mpr fun heq => hplain c hc ?_⟩
    rw [heq]
    exact List.mem_cons_self
  have hparts : contents = before ++ ((front ++ needle) ++ (back ++ behind)) := by
    rw [hcopy.whole]
    simp only [List.append_assoc]
  have hstop : q.range.stop = width before := by
    rw [hrange]
    exact congrArg ByteRange.start hcopy.content
  have hnext := hsplit
  rw [hparts] at hnext
  obtain ⟨more, later', rfl⟩ := exists_run_behind (hparts ▸ hmark) hnext hstop hrun
  have hsplit' : (scan contents).events = (earlier ++ [q]) ++
      ⟨.text (front ++ needle ++ more),
        ⟨width before, width before + width (front ++ needle ++ more)⟩⟩ :: later' :=
    hsplit.trans (List.append_cons earlier q _)
  have hin : r.Inside ⟨width before, width before + width (front ++ needle ++ more)⟩ := by
    rw [hcopy.range]
    simp only [ByteRange.Inside, width_append]
    omega
  obtain ⟨as, bs, f, rest, hbs, has, hf, htext, hnew⟩ :=
    exists_reread hmark hparse hsplit' rfl hd hcopy hneedle hin
  obtain ⟨rfl, rfl⟩ := append_inj_of_width hbs has.symm
  have hand : '&' ∉ front := fun hmem =>
    hplain '&' (List.mem_append_left _ hmem) (by decide)
  have hfront : charactersFrom (earlier ++ [q]) d.element.range.start ++ f = front := by
    have hstart : d.element.range.start = q.range.start := by
      rw [hrange]
      rfl
    rw [hf hand, hstart, charactersFrom_startTag hmark hsplit hnone]
    rfl
  rw [hfront] at htext hnew
  exact ⟨rest, htext, hnew⟩

end Xml

/-! ## 3. The place of a specifier -/

namespace Check.FormatString

open Text Xml Resource
open Format (Specifier numberedText stripQuotesFrom)

/-- Where a specifier is found, there is a copy of it in the content, with as many others before it
    as the specifier has in the text. -/
theorem exists_copy {file : File} {d : Definition} {spec : Specifier} {r : ByteRange}
    (hplaced : d.element.RangesIn file.contents.toList)
    (hspec : spec ∈ (ofDefinition file d).specifiers) (hliteral : spec.isLiteral = false)
    (hr : (ofDefinition file d).rawRange? spec = some r) :
    ∃ before front needle back behind as bs,
      CopyAt file.contents.toList d.element.contentRange r before front needle back behind ∧
      rawContent file d.element = front ++ (needle ++ back) ∧
      (ofDefinition file d).written spec = needle ∧
      (ofDefinition file d).text.toList = as ++ (needle ++ bs) ∧
      spec.range = ⟨width as, width as + width needle⟩ ∧
      (occurrences needle front).length = (occurrences needle as).length ∧
      Inert needle ∧ HeadOnce needle ∧ 2 ≤ needle.length := by
  obtain ⟨as, needle, bs, htext, hrange, hinert, honce, hlength⟩ :=
    Format.exists_parts_of_specifier hspec hliteral
  have hwritten : (ofDefinition file d).written spec = needle := by
    unfold FormatString.written
    rw [show (ofDefinition file d).text.toList = as ++ needle ++ bs by
      rw [List.append_assoc]; exact htext, hrange, slice?_width]
    rfl
  have hbefore : Text.before spec.range.start (ofDefinition file d).text.toList = as := by
    rw [show (ofDefinition file d).text.toList = as ++ (needle ++ bs) from htext, hrange]
    exact before_width as _
  unfold rawRange? at hr
  rw [hwritten, hbefore] at hr
  obtain ⟨offset, hoffset, hpair⟩ := Option.bind_eq_some_iff.mp hr
  cases hpair
  obtain ⟨front, back, hraw, rfl, hcount⟩ := exists_parts_of_occurrence hoffset
  obtain ⟨before, raw, behind, hparts, hcontent⟩ := hplaced.fits_content.exists_parts
  have hslice : rawContent file d.element = raw := by
    refine rawContent_eq ?_
    rw [hparts, hcontent]
    exact slice?_width before raw behind
  have hraw' : raw = front ++ (needle ++ back) := hslice.symm.trans hraw
  refine ⟨before, front, needle, back, behind, as, bs, ⟨?_, ?_, ?_⟩, hraw, hwritten, htext, hrange,
    hcount, hinert, honce, hlength⟩
  · rw [← hraw']
    exact hparts
  · rw [← hraw']
    exact hcontent
  · show (⟨d.element.contentRange.start + (0 + width front),
      d.element.contentRange.start + (0 + width front) + width needle⟩ : ByteRange) = _
    rw [hcontent, Nat.zero_add, width_append]

/-- The quotes on both sides of the specifier are left out. -/
theorem text_of_parts {file : File} {d : Definition} {front needle rest : List Char}
    (hneedle : Inert needle) (h : d.element.text.toList = front ++ (needle ++ rest)) :
    (ofDefinition file d).text.toList =
      stripQuotesFrom false front ++ (needle ++ stripQuotesFrom false rest) := by
  show (String.ofList (stripQuotesFrom false d.element.text.toList)).toList = _
  rw [String.toList_ofList, h, Format.stripQuotesFrom_inert hneedle]

/-- Replacing a part of the file by a numbered specifier replaces the specifier in the text of its
    definition, and nothing else in the document. -/
def EditsSpecifier (file : File) (root : Element) (d : Definition) (spec : Specifier)
    (r : ByteRange) : Prop :=
  ∀ (k : Nat) (c : Char), c.isAlpha = true → ∃ text,
    RereadWith root d (splice file.contents.toList r (numberedText k c).toList) text ∧
      stripQuotesFrom false text =
        splice (ofDefinition file d).text.toList spec.range (numberedText k c).toList

/-- **When the copy is the specifier.** The specifier is edited exactly if what is read before the
    replaced copy is what is before the specifier. -/
theorem editsSpecifier_iff {file : File} {root : Element} {d : Definition} {spec : Specifier}
    {r : ByteRange} {contents front needle rest as bs : List Char}
    (hplaced : root.RangesIn contents) (hneedle : Inert needle) (honce : HeadOnce needle)
    (hlength : 2 ≤ needle.length)
    (htext : d.element.text.toList = front ++ (needle ++ rest))
    (hparts : (ofDefinition file d).text.toList = as ++ (needle ++ bs))
    (hrange : spec.range = ⟨width as, width as + width needle⟩)
    (hreread : ∀ new, Inert new → '<' ∉ new →
      RereadWith root d (splice file.contents.toList r new) (front ++ (new ++ rest))) :
    EditsSpecifier file root d spec r ↔ stripQuotesFrom false front = as := by
  have hsame := (text_of_parts hneedle htext).symm.trans hparts
  have hspliced : ∀ new, splice (ofDefinition file d).text.toList spec.range new =
      as ++ (new ++ bs) := by
    intro new
    rw [hparts, hrange, splice_width]
  constructor
  · intro h
    -- a specifier that is told from the old one shows in both texts where it was written
    obtain ⟨k, hnew, hdiffer⟩ := Format.exists_numberedText_differs hlength
    obtain ⟨hinert, hopen⟩ := Format.inert_numberedText k (show 's'.isAlpha = true from rfl)
    obtain ⟨text, hread, hstripped⟩ := h k 's' rfl
    have hwhole := hread.unique hplaced (hreread _ hinert hopen)
    rw [hwhole, Format.stripQuotesFrom_inert hinert, hspliced] at hstripped
    exact eq_of_replaced honce hnew hdiffer hsame hstripped
  · intro hfront k c hc
    obtain ⟨hnew, hopen⟩ := Format.inert_numberedText k hc
    refine ⟨_, hreread _ hnew hopen, ?_⟩
    rw [hfront] at hsame
    have hrest := List.append_cancel_left (List.append_cancel_left hsame)
    rw [Format.stripQuotesFrom_inert hnew, hfront, hrest, hspliced]

/-- **What a correction of a specifier replaces.** At the place that is found for a specifier the
    file has the characters of the specifier. If they are read as text, then the correction leaves
    all tags and attributes and all other resources as they are, and replaces the characters in the
    text of the definition. They are those of the specifier itself exactly if as many copies are read
    before them as are written before them in the content. That is so if up to there the content has
    no markup, no reference and no quote. -/
theorem rawRange?_edits {file : File} {root : Element} {d : Definition} {spec : Specifier}
    {r : ByteRange} (hmark : file.IsUnmarked) (hroot : file.rootElement? = some root)
    (hd : d ∈ definitions root) (hspec : spec ∈ (ofDefinition file d).specifiers)
    (hliteral : spec.isLiteral = false) (hr : (ofDefinition file d).rawRange? spec = some r) :
    Text.slice? file.contents.toList r = some ((ofDefinition file d).written spec) ∧
    (InData file.contents.toList r → ∃ front rest,
      d.element.text.toList = front ++ ((ofDefinition file d).written spec ++ rest) ∧
      (∀ (k : Nat) (c : Char), c.isAlpha = true →
        RereadWith root d (splice file.contents.toList r (numberedText k c).toList)
          (front ++ ((numberedText k c).toList ++ rest))) ∧
      (EditsSpecifier file root d spec r ↔
        (occurrences ((ofDefinition file d).written spec) (stripQuotesFrom false front)).length =
          (occurrences ((ofDefinition file d).written spec)
            (before (r.start - d.element.contentRange.start)
              (rawContent file d.element))).length)) ∧
    ((∀ x ∈ before (r.stop - d.element.contentRange.start) (rawContent file d.element),
      x ∉ ['<', '&', '"']) → EditsSpecifier file root d spec r) := by
  have hparse := File.parse_of_rootElement? hroot
  obtain ⟨_, hmem, _⟩ := mem_definitions hd
  have hwhole := hmark.rangesIn hroot (.self root)
  have hplaced := hmark.rangesIn hroot (.child hmem (.self d.element))
  obtain ⟨ahead, front, needle, back, behind, as, bs, hcopy, hraw, hwritten, htext, hrange, hcount,
    hneedle, honce, hlength⟩ := exists_copy hplaced hspec hliteral hr
  rw [hwritten]
  refine ⟨hcopy.slice?, ?_, ?_⟩
  · rintro ⟨p, hp, hdata, hin⟩
    obtain ⟨w, hw⟩ := Option.isSome_iff_exists.mp hdata
    obtain ⟨earlier, later, hsplit⟩ := List.append_of_mem hp
    obtain ⟨_, _, f, rest, _, _, _, hparts, hreread⟩ :=
      exists_reread hmark hparse hsplit hw hd hcopy hneedle hin
    generalize charactersFrom earlier d.element.range.start ++ f = read at hparts hreread
    refine ⟨read, rest, hparts, ?_, ?_⟩
    · intro k c hc
      obtain ⟨hnew, hopen⟩ := Format.inert_numberedText k hc
      exact hreread _ hnew hopen
    · have hstripped := (text_of_parts hneedle hparts).symm.trans htext
      rw [editsSpecifier_iff hwhole hneedle honce hlength hparts htext hrange hreread, hraw,
        hcopy.before_start, hcount]
      constructor
      · intro hsame
        rw [hsame]
      · intro hsame
        exact (eq_of_occurrences_length honce hstripped hsame).1
  · intro hplain
    rw [hraw, hcopy.before_stop] at hplain
    obtain ⟨rest, hparts, hreread⟩ := exists_reread_of_plain hmark hparse hd hcopy hneedle hplain
    have hquote : '"' ∉ front := fun hmem => hplain '"' (List.mem_append_left _ hmem) (by decide)
    have hstripped := (text_of_parts hneedle hparts).symm.trans htext
    rw [editsSpecifier_iff hwhole hneedle honce hlength hparts htext hrange hreread]
    rw [Format.stripQuotesFrom_plain hquote] at hstripped ⊢
    exact (eq_of_occurrences_length honce hstripped hcount).1

/-- Some specifier that formats an argument, the definition it is in and the place that is found for
    it pass a test. -/
def anyPlace (file : File) (good : Definition → Specifier → ByteRange → Bool) : Bool :=
  file.rootElement?.any fun root => (definitions root).any fun d =>
    (ofDefinition file d).specifiers.any fun spec =>
      !spec.isLiteral && ((ofDefinition file d).rawRange? spec).any (good d spec)

theorem exists_of_anyPlace {file : File} {good : Definition → Specifier → ByteRange → Bool}
    (h : anyPlace file good = true) : ∃ root d spec r, file.rootElement? = some root ∧
      d ∈ definitions root ∧ spec ∈ (ofDefinition file d).specifiers ∧ spec.isLiteral = false ∧
      (ofDefinition file d).rawRange? spec = some r ∧ good d spec r = true := by
  obtain ⟨root, hroot, h⟩ := (Option.any_eq_true _ _).mp h
  obtain ⟨d, hd, h⟩ := List.any_eq_true.mp h
  obtain ⟨spec, hspec, h⟩ := List.any_eq_true.mp h
  obtain ⟨hliteral, h⟩ := (Bool.and_eq_true _ _).mp h
  obtain ⟨r, hr, hgood⟩ := (Option.any_eq_true _ _).mp h
  exact ⟨root, d, spec, r, hroot, hd, hspec, by simpa using hliteral, hr, hgood⟩

/-- A values file with one string. -/
def stringFile (content : String) : File :=
  { path := ⟨"res/values/strings.xml"⟩
    contents := "<resources><string name=\"a\">" ++ content ++ "</string></resources>" }

/-- A string with quotes, a reference and a tag before a specifier. -/
def mixedFile : File := stringFile "\"R&amp;D\" <b x=\"1\">%2$d</b>, %1$s"

theorem inData_mixedFile : InData mixedFile.contents.toList ⟨47, 51⟩ := by
  have hany : (scan mixedFile.contents.toList).events.any (fun p =>
      p.event.data?.isSome && decide (p.dataRange.start ≤ 47 ∧ 51 ≤ p.dataRange.stop)) = true := by
    decide +kernel
  obtain ⟨p, hp, h⟩ := List.any_eq_true.mp hany
  obtain ⟨hdata, hplace⟩ := (Bool.and_eq_true _ _).mp h
  have hin : p.dataRange.start ≤ 47 ∧ 51 ≤ p.dataRange.stop := of_decide_eq_true hplace
  exact ⟨p, hp, hdata, hin⟩

theorem rawRange?_edits_mixedFile : ∃ root d spec, mixedFile.rootElement? = some root ∧
    d ∈ definitions root ∧ spec ∈ (ofDefinition mixedFile d).specifiers ∧
    (ofDefinition mixedFile d).rawRange? spec = some ⟨47, 51⟩ ∧
    EditsSpecifier mixedFile root d spec ⟨47, 51⟩ := by
  have hmark : mixedFile.IsUnmarked := by
    unfold File.IsUnmarked
    decide +kernel
  have hfound : anyPlace mixedFile (fun d spec r => decide (r = ⟨47, 51⟩ ∧
      (ofDefinition mixedFile d).written spec = "%2$d".toList ∧
      stripQuotesFrom false d.element.text.toList = "R&D %2$d, %1$s".toList ∧
      occurrences "%2$d".toList (before (47 - d.element.contentRange.start)
        (rawContent mixedFile d.element)) = [])) = true := by
    decide +kernel
  obtain ⟨root, d, spec, _, hroot, hd, hspec, hliteral, hr, hgood⟩ := exists_of_anyPlace hfound
  obtain ⟨rfl, hwritten, htext, hnone⟩ := of_decide_eq_true hgood
  refine ⟨root, d, spec, hroot, hd, hspec, hr, ?_⟩
  obtain ⟨_, hdata, _⟩ := rawRange?_edits hmark hroot hd hspec hliteral hr
  obtain ⟨front, rest, hparts, _, hiff⟩ := hdata inData_mixedFile
  rw [hwritten] at hparts hiff
  rw [hiff, hnone]
  -- the text has one copy, so none is read before it
  have hnumbered : (numberedText 2 'd').toList = "%2$d".toList := by decide
  have hinert := (Format.inert_numberedText 2 (show 'd'.isAlpha = true from rfl)).1
  rw [hnumbered] at hinert
  have honce : HeadOnce "%2$d".toList := ⟨'%', ['2', '$', 'd'], by decide, by decide⟩
  have hcount : (occurrences "%2$d".toList "R&D %2$d, %1$s".toList).length = 1 := by
    decide +kernel
  rw [← htext, hparts, Format.stripQuotesFrom_inert hinert, occurrences,
    occurrencesFrom_append honce, List.length_append, List.length_cons] at hcount
  exact Nat.eq_zero_of_add_eq_zero_right (Nat.succ.inj hcount)

/-- A numbered specifier at the place is nowhere read in place of the specifier. -/
def misses (file : File) (number : Nat) (conversion : Char) (d : Definition) (spec : Specifier)
    (r : ByteRange) : Bool :=
  let new := (numberedText number conversion).toList
  (parse (splice file.contents.toList r new)).toOption.all fun root' =>
    (definitions root').all fun d' => stripQuotesFrom false d'.element.text.toList !=
      splice (ofDefinition file d).text.toList spec.range new

theorem not_editsSpecifier_of_misses {file : File} {root : Element} {d : Definition}
    {spec : Specifier} {r : ByteRange} {k : Nat} {c : Char} (hc : c.isAlpha = true)
    (h : misses file k c d spec r = true) : ¬ EditsSpecifier file root d spec r := by
  intro hedits
  obtain ⟨_, ⟨root', hparse, _, _, _, _, d', _, _, hsplit, _, _, _, _, rfl⟩, hstripped⟩ :=
    hedits k c hc
  rw [misses, hparse] at h
  have hd' : d' ∈ definitions root' := by
    rw [hsplit]
    exact List.mem_append_right _ List.mem_cons_self
  exact bne_iff_ne.mp (List.all_eq_true.mp h d' hd') hstripped

/-- The file has a format string in which the place that is found for a specifier is not its own. -/
def Misplaced (file : File) : Prop :=
  ∃ root d spec r, file.rootElement? = some root ∧ d ∈ definitions root ∧
    (ofDefinition file d).kind = .format ∧ spec ∈ (ofDefinition file d).specifiers ∧
    spec.isLiteral = false ∧ (ofDefinition file d).rawRange? spec = some r ∧
    ¬ EditsSpecifier file root d spec r

theorem misplaced_of_anyPlace {file : File} (k : Nat) {c : Char} (hc : c.isAlpha = true)
    (h : anyPlace file (fun d spec r =>
      (ofDefinition file d).kind == .format && misses file k c d spec r) = true) :
    Misplaced file := by
  obtain ⟨root, d, spec, r, hroot, hd, hspec, hliteral, hr, hgood⟩ := exists_of_anyPlace h
  obtain ⟨hkind, hmisses⟩ := (Bool.and_eq_true _ _).mp hgood
  exact ⟨root, d, spec, r, hroot, hd, eq_of_beq hkind, hspec, hliteral, hr,
    not_editsSpecifier_of_misses hc hmisses⟩

/-- **The wrong characters can be edited**: those of an attribute, if a value in the content has a
    copy of the specifier, and those of a later specifier, if the first one is written with a
    reference. -/
theorem rawRange?_misplaced : Misplaced (stringFile "<b x=\"%1$d\">%1$d</b>") ∧
    Misplaced (stringFile "&#37;1$d, %1$d") := by
  have hs : 's'.isAlpha = true := rfl
  exact ⟨misplaced_of_anyPlace 1 hs (by decide +kernel),
    misplaced_of_anyPlace 1 hs (by decide +kernel)⟩

end Check.FormatString

end AndroidLint
