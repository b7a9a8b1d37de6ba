/-
  File:      AndroidLint/Proofs/FixRanges.lean
  Subject:   Every correction that a check offers can be made.

  Corrections take their ranges from three sources: the places of tags and attributes, the scan for
  bad escapes, and the search for a specifier in the content of an element. All of them are parts of
  the file as it was read:

  * `EscapeProblem.findFrom_lies`:  a bad escape is a part of the text that is scanned;
  * `lies_of_mem_occurrences`:      an occurrence is a part of the text that is searched;
  * `fixFits_incidents`:           every correction is one edit that fits in its file;
  * `incidents_fixes_apply`:        so it can be made.
-/
import AndroidLint.Analysis
import AndroidLint.Proofs.Beginnings
import AndroidLint.Proofs.Edits
import AndroidLint.Proofs.Findings
import AndroidLint.Proofs.XmlRanges

namespace AndroidLint

/-! ## 1. Parts of a text that begins at an offset -/

namespace ByteRange

open Text

/-- The range is that of a part of a text which begins at `offset`. -/
def LiesFrom (offset : Nat) (cs : List Char) (r : ByteRange) : Prop :=
  ∃ s : ByteRange, s.FitsIn cs ∧ r = s.shift offset

/-- A part of what follows a run of characters. -/
theorem LiesFrom.behind {offset n : Nat} {rest : List Char} {r : ByteRange}
    (h : LiesFrom (offset + n) rest r) (used : List Char) (hn : width used = n) :
    LiesFrom offset (used ++ rest) r := by
  obtain ⟨s, hs, rfl⟩ := h
  subst hn
  exact ⟨s.shift (width used), hs.behind used, (shift_shift s (width used) offset).symm⟩

/-- The part at the beginning. -/
theorem liesFrom_front (offset : Nat) (used rest : List Char) {n : Nat} (hn : width used = n) :
    LiesFrom offset (used ++ rest) ⟨offset, offset + n⟩ := by
  have hfront := fitsIn_width [] used rest
  refine ⟨_, hfront, ?_⟩
  simp only [shift, width_nil, mk.injEq]
  exact ⟨by omega, by omega⟩

theorem LiesFrom.shift {cs : List Char} {r : ByteRange} (h : LiesFrom 0 cs r) (n : Nat) :
    LiesFrom n cs (r.shift n) := by
  obtain ⟨s, hs, rfl⟩ := h
  exact ⟨s, hs, rfl⟩

/-- A part of a part of the text. -/
theorem LiesFrom.fitsIn {contents raw : List Char} {content r : ByteRange}
    (hcontent : content.FitsIn contents) (hraw : slice? contents content = some raw)
    (h : LiesFrom content.start raw r) : r.FitsIn contents := by
  obtain ⟨as, bs, cs, rfl, rfl⟩ := hcontent.exists_parts
  rw [slice?_width] at hraw
  cases hraw
  obtain ⟨s, hs, rfl⟩ := h
  exact (hs.behind as).append cs

end ByteRange

namespace Text

/-- An occurrence is a part of the text that is searched. -/
theorem lies_of_mem_occurrencesFrom {needle cs : List Char} {offset start : Nat}
    (h : start ∈ occurrencesFrom needle offset cs) :
    ByteRange.LiesFrom offset cs ⟨start, start + width needle⟩ := by
  fun_induction occurrencesFrom needle offset cs with
  | case1 => cases h
  | case2 => cases h
  | case3 offset cs hne front rest hfound found ih =>
    rw [eq_append_of_splitAt? hfound, List.append_assoc]
    refine ByteRange.LiesFrom.behind ?_ front rfl
    rcases List.mem_cons.mp h with rfl | h
    · exact ByteRange.liesFrom_front _ needle rest rfl
    · exact (ih h).behind needle rfl

theorem lies_of_mem_occurrences {needle cs : List Char} {start : Nat}
    (h : start ∈ occurrences needle cs) :
    ByteRange.LiesFrom 0 cs ⟨start, start + width needle⟩ :=
  lies_of_mem_occurrencesFrom h

/-- A hexadecimal digit is one byte. -/
theorem utf8Size_of_digitValue? {c : Char} (h : (digitValue? 16 c).isSome = true) :
    c.utf8Size = 1 := by
  rw [Char.utf8Size_eq_one_iff]
  unfold digitValue? at h
  by_cases hdigit : '0' ≤ c ∧ c ≤ '9'
  · exact UInt32.le_trans hdigit.2 (by decide)
  by_cases hsmall : 'a' ≤ c ∧ c ≤ 'z'
  · exact UInt32.le_trans hsmall.2 (by decide)
  by_cases hcapital : 'A' ≤ c ∧ c ≤ 'Z'
  · exact UInt32.le_trans hcapital.2 (by decide)
  rw [if_neg hdigit, if_neg hsmall, if_neg hcapital] at h
  cases h

end Text

/-! ## 2. Bad escapes -/

namespace Check

open Text (width)

namespace EscapeProblem

/-- What follows a piece of markup is the end of the text. -/
theorem exists_append_afterMarkup (cs : List Char) : ∃ used, cs = used ++ afterMarkup cs := by
  unfold afterMarkup
  split
  · next front rest hsplit => exact ⟨_, Text.eq_append_of_splitAt? hsplit⟩
  · exact ⟨cs, (List.append_nil cs).symm⟩

theorem width_of_fourHexDigits {cs : List Char} (h : fourHexDigits cs = true) :
    width (cs.take 4) = 4 := by
  obtain ⟨hlength, hdigits⟩ := Bool.and_eq_true_iff.mp h
  have hones : ∀ ds : List Char, (ds.all fun c => (Text.digitValue? 16 c).isSome) = true →
      width ds = ds.length := by
    intro ds
    induction ds with
    | nil => exact fun _ => rfl
    | cons d ds ih =>
      intro hds
      obtain ⟨hd, hds⟩ := Bool.and_eq_true_iff.mp hds
      rw [Text.width_cons, Text.utf8Size_of_digitValue? hd, ih hds, List.length_cons]
      omega
  rw [hones _ hdigits]
  exact beq_iff_eq.mp hlength

/-- **A bad escape is a part of the text that is scanned.** -/
theorem findFrom_lies {quoted : Bool} {offset : Nat} {cs : List Char}
    {found : ByteRange × EscapeProblem} (h : findFrom quoted offset cs = some found) :
    ByteRange.LiesFrom offset cs found.1 := by
  fun_induction findFrom quoted offset cs with
  | case1 => cases h
  | case2 quoted offset cs rest ih =>
    obtain ⟨used, hused⟩ := exists_append_afterMarkup ('<' :: cs)
    have hwidth : width used = width ('<' :: cs) - width rest := by
      have hsum := congrArg width hused
      rw [Text.width_append] at hsum
      show _ = _ - width (afterMarkup _)
      omega
    rw [hused]
    exact (ih h).behind _ hwidth
  | case3 => cases h
  | case4 quoted offset cs hdigits ih =>
    have hwidth : width ('\\' :: 'u' :: cs.take 4) = 6 := by
      rw [Text.width_cons, Text.width_cons, width_of_fourHexDigits hdigits]
      rfl
    have hparts : '\\' :: 'u' :: cs = ('\\' :: 'u' :: cs.take 4) ++ cs.drop 4 := by
      rw [List.cons_append, List.cons_append, List.take_append_drop]
    rw [hparts]
    exact (ih h).behind _ hwidth
  | case5 quoted offset cs hdigits =>
    cases h
    have hparts : '\\' :: 'u' :: cs = ('\\' :: 'u' :: cs.take 4) ++ cs.drop 4 := by
      rw [List.cons_append, List.cons_append, List.take_append_drop]
    rw [hparts, Nat.add_assoc]
    refine ByteRange.liesFrom_front offset _ _ ?_
    rw [Text.width_cons, Text.width_cons, ← Nat.add_assoc]
    rfl
  | case6 quoted offset c cs hu ih =>
    rw [Nat.add_assoc] at h ih
    exact (ih h).behind ['\\', c] rfl
  | case7 quoted offset cs ih => exact (ih h).behind ['"'] rfl
  | case8 quoted offset cs rest hquote ih =>
    rw [Text.eq_append_of_dropHead? hquote]
    exact (ih h).behind "&quot;".toList rfl
  | case9 offset cs hquote rest hapostrophe ih =>
    rw [Text.eq_append_of_dropHead? hapostrophe]
    exact (ih h).behind "&apos;".toList rfl
  | case10 quoted offset cs hquote rest hapostrophe hopen =>
    cases h
    rw [Text.eq_append_of_dropHead? hapostrophe]
    exact ByteRange.liesFrom_front offset "&apos;".toList rest rfl
  | case11 quoted offset cs hquote hapostrophe ih =>
    exact (ih h).behind ['&'] rfl
  | case12 offset cs ih => exact (ih h).behind ['\''] rfl
  | case13 quoted offset cs hopen =>
    cases h
    exact ByteRange.liesFrom_front offset ['\''] cs rfl
  | case14 quoted offset c cs _ _ _ _ _ ih =>
    exact (ih h).behind [c] rfl

end EscapeProblem

end Check

/-! ## 3. The ranges of elements -/

open Xml (Element)

/-- Reading the file as XML gives no offset that is moved by a byte order mark. -/
def File.IsUnmarked (f : File) : Prop := f.contents.toList.head? ≠ some Xml.byteOrderMark

theorem File.parse_of_rootElement? {f : File} {root : Element} (h : f.rootElement? = some root) :
    Xml.parse f.contents.toList = .ok root := by
  unfold File.rootElement? at h
  cases hparse : Xml.parse f.contents.toList with
  | error fault =>
    rw [hparse] at h
    cases h
  | ok found =>
    rw [hparse] at h
    cases h
    rfl

/-- The elements of a file have their ranges in place. -/
theorem File.IsUnmarked.rangesIn {f : File} {root e : Element} (hmark : f.IsUnmarked)
    (hroot : f.rootElement? = some root) (he : e.Within root) : e.RangesIn f.contents.toList :=
  Xml.parse_ranges hmark (File.parse_of_rootElement? hroot) he

namespace Xml.Element

variable {contents : List Char} {e : Element}

theorem RangesIn.fits_content (h : e.RangesIn contents) : e.contentRange.FitsIn contents :=
  h.fit e.contentRange (by simp [ranges])

theorem RangesIn.fits_name (h : e.RangesIn contents) : e.nameRange.FitsIn contents :=
  h.fit e.nameRange (by simp [ranges])

theorem RangesIn.fits_value (h : e.RangesIn contents) {name : String} {a : Attribute}
    (ha : e.androidAttribute? name = some a) : a.valueRange.FitsIn contents := by
  refine h.fit a.valueRange (List.mem_append_right _ (List.mem_flatMap.mpr ⟨a, ?_, by simp⟩))
  exact List.mem_of_find?_eq_some ha

theorem within_of_mem_childrenNamed {root c : Element} {tag : String}
    (hc : c ∈ root.childrenNamed tag) : c.Within root :=
  .child (List.mem_filter.mp hc).1 (.self c)

end Xml.Element

/-- An end of a range that fits is a range that fits. -/
theorem ByteRange.FitsIn.at_stop {contents : List Char} {r : ByteRange} (h : r.FitsIn contents) :
    FitsIn contents ⟨r.stop, r.stop⟩ :=
  ⟨Nat.le_refl _, h.bounded, h.stops, h.stops⟩

/-! ## 4. Corrections that fit -/

/-- The correction of the incident, if it has one, is one edit that fits in one of the files. -/
def Incident.FixFits (files : List File) (i : Incident) : Prop :=
  ∀ fix, i.fix = some fix → ∃ name e, fix = .edits name [e] ∧
    ∃ f ∈ files, e.file = f.path ∧ e.range.FitsIn f.contents.toList

namespace Incident

variable {files : List File}

theorem fixFits_of_none {i : Incident} (h : i.fix = none) : i.FixFits files := by
  intro fix hfix
  rw [h] at hfix
  cases hfix

theorem fixFits_new (issue : Issue) (l : Location) (message : String) :
    (Incident.new issue l message).FixFits files := fixFits_of_none rfl

theorem fixFits_fixedBy (i : Incident) (name : String) {e : TextEdit} {f : File} (hf : f ∈ files)
    (hfile : e.file = f.path) (hfit : e.range.FitsIn f.contents.toList) :
    (i.fixedBy (.edits name [e])).FixFits files := by
  intro fix hfix
  cases hfix
  exact ⟨name, e, rfl, f, hf, hfile, hfit⟩

end Incident

namespace Check

variable {files : List File}

theorem rawContent_eq {f : File} {e : Element} {raw : List Char}
    (h : Text.slice? f.contents.toList e.contentRange = some raw) : rawContent f e = raw := by
  rw [rawContent, h]
  rfl

/-- A part of the content of an element is a part of its file. -/
theorem fitsIn_of_liesFrom {f : File} {e : Element} {r : ByteRange}
    (he : e.RangesIn f.contents.toList)
    (h : ByteRange.LiesFrom e.contentRange.start (rawContent f e) r) :
    r.FitsIn f.contents.toList := by
  obtain ⟨as, bs, cs, hparts, hrange⟩ := he.fits_content.exists_parts
  have hslice : Text.slice? f.contents.toList e.contentRange = some bs := by
    rw [hparts, hrange]
    exact Text.slice?_width as bs cs
  rw [rawContent_eq hslice] at h
  exact h.fitsIn he.fits_content hslice

/-! ## 5. Values files -/

/-- The elements of the definitions of a values file have their ranges in place. -/
theorem mem_valuesFiles {p : Project} {v : File × List Resource.Definition}
    (hmark : ∀ f ∈ p.files, f.kind.isXml = true → f.IsUnmarked) (hv : v ∈ p.valuesFiles) :
    v.1 ∈ p.files ∧ ∀ d ∈ v.2, ∀ e : Element, e.Within d.element →
      e.RangesIn v.1.contents.toList := by
  obtain ⟨f, hf, hread⟩ := List.mem_filterMap.mp hv
  obtain ⟨hfile, hkind⟩ := List.mem_filter.mp hf
  obtain ⟨root, hroot, rfl⟩ := Option.map_eq_some_iff.mp hread
  have hxml : f.kind.isXml = true := by
    rw [of_decide_eq_true hkind]
    rfl
  refine ⟨hfile, fun d hd e he => (hmark f hfile hxml).rangesIn hroot ?_⟩
  unfold Resource.definitions at hd
  split at hd
  · obtain ⟨c, hc, hd⟩ := List.mem_filterMap.mp hd
    obtain ⟨type, _, hd⟩ := Option.bind_eq_some_iff.mp hd
    obtain ⟨name, _, hd⟩ := Option.bind_eq_some_iff.mp hd
    cases hd
    exact .child hc he
  · cases hd

theorem fixFits_badEscape? {f : File} {e : Element} {i : Incident} (hf : f ∈ files)
    (he : e.RangesIn f.contents.toList) (h : badEscape? f e = some i) : i.FixFits files := by
  unfold badEscape? at h
  dsimp only at h
  split at h
  · cases h
  · obtain ⟨⟨range, problem⟩, hfound, h⟩ := Option.bind_eq_some_iff.mp h
    have hlies := EscapeProblem.findFrom_lies hfound
    cases problem with
    | apostrophe =>
      cases h
      refine Incident.fixFits_fixedBy _ _ hf rfl (fitsIn_of_liesFrom he ?_)
      exact hlies.shift _
    | unicodeEscape =>
      cases h
      exact Incident.fixFits_new _ _ _

theorem fixFits_badEscapes {f : File} {d : Resource.Definition} (hf : f ∈ files)
    (hd : ∀ e : Element, e.Within d.element → e.RangesIn f.contents.toList) :
    ∀ i ∈ badEscapes f d, i.FixFits files := by
  unfold badEscapes
  have hitems : ∀ i ∈ (d.element.childrenNamed "item").filterMap (badEscape? f),
      i.FixFits files := by
    refine List.forall_mem_filterMap.mpr fun e he i hi => fixFits_badEscape? hf ?_ hi
    exact hd e (Element.within_of_mem_childrenNamed he)
  split
  · intro i hi
    exact fixFits_badEscape? hf (hd _ (.self _)) (Option.mem_toList.mp hi)
  · exact hitems
  · exact hitems
  · exact fun _ hi => nomatch hi

theorem fixFits_wrongReference? {f : File} {allowed : List String} {e : Element} {i : Incident}
    (h : wrongReference? f allowed e = some i) : i.FixFits files := by
  obtain ⟨type, _, h⟩ := Option.bind_eq_some_iff.mp h
  obtain ⟨expected, _, h⟩ := Option.bind_eq_some_iff.mp h
  split at h
  · cases h
  · cases h
    exact Incident.fixFits_new _ _ _

theorem fixFits_wrongReferences (f : File) (d : Resource.Definition) :
    ∀ i ∈ wrongReferences f d, i.FixFits files := by
  unfold wrongReferences
  split
  · exact List.forall_mem_filterMap.mpr fun _ _ _ => fixFits_wrongReference?
  · exact List.forall_mem_filterMap.mpr fun _ _ _ => fixFits_wrongReference?
  · split
    · exact fun i hi => fixFits_wrongReference? (Option.mem_toList.mp hi)
    · exact fun _ hi => nomatch hi

theorem fixFits_resources (p : Project)
    (hmark : ∀ f ∈ p.files, f.kind.isXml = true → f.IsUnmarked) :
    ∀ i ∈ resourceIncidents p, i.FixFits p.files := by
  refine List.forall_mem_append.mpr ⟨?_, List.forall_mem_flatMap.mpr fun v hv =>
    List.forall_mem_flatMap.mpr fun d hd => ?_⟩
  · refine List.forall_mem_flatMap.mpr fun folder _ => List.forall_mem_map.mpr fun r _ => ?_
    exact Incident.fixFits_of_none rfl
  · obtain ⟨hf, hplaced⟩ := mem_valuesFiles hmark hv
    refine List.forall_mem_append.mpr ⟨List.forall_mem_append.mpr ⟨?_, ?_⟩, ?_⟩
    · unfold duplicateAttributes
      split
      · exact List.forall_mem_map.mpr fun r _ => Incident.fixFits_of_none rfl
      · exact fun _ hi => nomatch hi
    · exact fixFits_wrongReferences v.1 d
    · exact fixFits_badEscapes hf (hplaced d hd)

/-! ## 6. Manifests -/

theorem fixFits_backupIncident? {f : File} {root application : Element} {i : Incident}
    (hf : f ∈ files) (he : application.RangesIn f.contents.toList)
    (h : backupIncident? f root application = some i) : i.FixFits files := by
  unfold backupIncident? at h
  split at h
  · cases h
  · cases h
    exact Incident.fixFits_fixedBy _ _ hf rfl he.fits_name.at_stop

theorem fixFits_drawableIcon? {f : File} {e : Element} {i : Incident} (hf : f ∈ files)
    (he : e.RangesIn f.contents.toList) (h : drawableIcon? f e = some i) : i.FixFits files := by
  obtain ⟨icon, hicon, h⟩ := Option.bind_eq_some_iff.mp h
  obtain ⟨name, _, h⟩ := Option.bind_eq_some_iff.mp h
  cases h
  exact Incident.fixFits_fixedBy _ _ hf rfl (he.fits_value hicon)

theorem fixFits_applicationIncidents {f : File} {root : Element} (isLibrary : Bool)
    (hf : f ∈ files) (hplaced : ∀ e : Element, e.Within root → e.RangesIn f.contents.toList) :
    ∀ i ∈ applicationIncidents isLibrary f root, i.FixFits files := by
  unfold applicationIncidents
  split
  · exact List.forall_mem_nil _
  · next application others happlications =>
    have happlication : application ∈ root.childrenNamed "application" := by
      rw [happlications]
      exact List.mem_cons_self
    have hwithin := Element.within_of_mem_childrenNamed happlication
    refine List.forall_mem_append.mpr ⟨?_, List.forall_mem_filterMap.mpr fun e he i hi => ?_⟩
    · split
      · exact List.forall_mem_nil _
      · refine List.forall_mem_append.mpr ⟨fun i hi => ?_, fun i hi => ?_⟩
        · exact fixFits_backupIncident? hf (hplaced _ hwithin) (Option.mem_toList.mp hi)
        · have hicon := Option.mem_toList.mp hi
          unfold iconIncident? at hicon
          split at hicon
          · cases hicon
          · cases hicon
            exact Incident.fixFits_new _ _ _
    · refine fixFits_drawableIcon? hf (hplaced e ?_) hi
      rcases List.mem_cons.mp he with rfl | he
      · exact hwithin
      · exact .child (List.mem_filter.mp happlication).1
          (.child (List.mem_filter.mp he).1 (.self e))

theorem fix_of_misplaced? {f : File} {parent e : Element} {i : Incident}
    (h : misplaced? f parent e = some i) : i.fix = none := by
  unfold misplaced? at h
  split at h
  · cases h
    rfl
  · split at h
    · cases h
      rfl
    · cases h

theorem fix_of_levelIncident? {f : File} {usesSdk : Element} {name missing : String}
    {fromGradle : Option PlacedValue} {i : Incident}
    (h : levelIncident? f usesSdk name fromGradle missing = some i) : i.fix = none := by
  unfold levelIncident? at h
  split at h
  · cases h
    rfl
  · cases h
    rfl
  · cases h

theorem fix_of_mem_sdkIncidents {gradle : Gradle} {f : File} {root : Element} {i : Incident}
    (h : i ∈ sdkIncidents gradle f root) : i.fix = none := by
  unfold sdkIncidents at h
  split at h
  · split at h
    · cases h
    · rw [List.mem_singleton.mp h]
      rfl
  · rcases List.mem_append.mp h with h | h
    · exact fix_of_levelIncident? (Option.mem_toList.mp h)
    · exact fix_of_levelIncident? (Option.mem_toList.mp h)

theorem fix_of_mem_extraUsesSdk {f : File} {root : Element} {i : Incident}
    (h : i ∈ extraUsesSdk f root) : i.fix = none := by
  unfold extraUsesSdk at h
  split at h
  · cases h
  · obtain ⟨e, _, rfl⟩ := List.mem_map.mp h
    rfl

theorem fixFits_manifestFileIncidents {p : Project} {f : File} {root : Element} (isMain : Bool)
    (hf : f ∈ p.files) (hplaced : ∀ e : Element, e.Within root → e.RangesIn f.contents.toList) :
    ∀ i ∈ manifestFileIncidents p isMain f root, i.FixFits p.files := by
  intro i hi
  unfold manifestFileIncidents at hi
  simp only [List.mem_append] at hi
  rcases hi with (((((h | h) | h) | h) | h) | h) | h
  · obtain ⟨e, _, rfl⟩ := List.mem_map.mp h
    exact Incident.fixFits_new _ _ _
  · exact Incident.fixFits_of_none (fix_of_mem_extraUsesSdk h)
  · split at h
    · exact Incident.fixFits_of_none (fix_of_mem_sdkIncidents h)
    · cases h
  · obtain ⟨parent, _, h⟩ := List.mem_flatMap.mp h
    obtain ⟨e, _, h⟩ := List.mem_filterMap.mp h
    exact Incident.fixFits_of_none (fix_of_misplaced? h)
  · obtain ⟨application, _, h⟩ := List.mem_flatMap.mp h
    obtain ⟨r, _, rfl⟩ := List.mem_map.mp h
    exact Incident.fixFits_new _ _ _
  · obtain ⟨r, _, rfl⟩ := List.mem_map.mp h
    exact Incident.fixFits_new _ _ _
  · exact fixFits_applicationIncidents p.isLibrary hf hplaced i h

theorem fixFits_manifests (p : Project)
    (hmark : ∀ f ∈ p.files, f.kind.isXml = true → f.IsUnmarked) :
    ∀ i ∈ manifestIncidents p, i.FixFits p.files := by
  refine List.forall_mem_flatMap.mpr fun f hf => ?_
  obtain ⟨hfile, hkind⟩ := List.mem_filter.mp hf
  have hxml : f.kind.isXml = true := by
    rw [of_decide_eq_true hkind]
    rfl
  split
  · next root hroot =>
    split
    · exact fixFits_manifestFileIncidents _ hfile fun e he =>
        (hmark f hfile hxml).rangesIn hroot he
    · exact fun _ hi => nomatch hi
  · exact fun _ hi => nomatch hi

/-! ## 7. Format strings -/

/-- A specifier that stands in the file as in the text is a part of the file. -/
theorem fitsIn_of_rawRange? {s : FormatString} {spec : Format.Specifier} {r : ByteRange}
    (he : s.definition.element.RangesIn s.file.contents.toList)
    (h : s.rawRange? spec = some r) : r.FitsIn s.file.contents.toList := by
  obtain ⟨offset, hoffset, h⟩ := Option.bind_eq_some_iff.mp h
  cases h
  have hlies := Text.lies_of_mem_occurrences (List.mem_of_getElem? hoffset)
  have hshift := hlies.shift s.definition.element.contentRange.start
  refine fitsIn_of_liesFrom he ?_
  simp only [ByteRange.shift] at hshift
  rw [Nat.add_comm offset, Nat.add_right_comm offset, Nat.add_comm offset] at hshift
  exact hshift

theorem fixFits_wrongType {s : FormatString} (l : Location) (index position : Nat)
    (spec : Format.Specifier) (type : String) (hf : s.file ∈ files)
    (he : s.definition.element.RangesIn s.file.contents.toList) :
    (wrongType l s index position spec type).FixFits files := by
  unfold wrongType
  dsimp only
  split
  · exact Incident.fixFits_of_none rfl
  · split
    · exact Incident.fixFits_of_none rfl
    · next range hrange =>
      exact Incident.fixFits_fixedBy _ _ hf rfl (fitsIn_of_rawRange? he hrange)

/-- The format strings stand in files of the project, and their elements have their ranges in
    place. -/
def PlacedIn (files : List File) (strings : List FormatString) : Prop :=
  ∀ s ∈ strings, s.file ∈ files ∧ s.definition.element.RangesIn s.file.contents.toList

theorem fixFits_wrongType? {l : Location} {first : Nat} {supplied : List Source.Expr}
    {strings : List FormatString} {i : Incident} (hplaced : PlacedIn files strings)
    (h : wrongType? l first supplied strings = some i) : i.FixFits files := by
  obtain ⟨s, hs, e, _, type, _, spec, index, position, _, rfl⟩ := exists_of_wrongType? h
  exact fixFits_wrongType l index position spec type (hplaced s hs).1 (hplaced s hs).2

theorem fixFits_callMismatch? {l : Location} {first : Nat} {supplied : List Source.Expr}
    {strings : List FormatString} {i : Incident} (hplaced : PlacedIn files strings)
    (h : callMismatch? l first supplied strings = some i) : i.FixFits files := by
  unfold callMismatch? at h
  split at h
  · split at h
    · cases h
      exact Incident.fixFits_new _ _ _
    · cases h
  · cases h
  · split at h
    · cases h
    · rcases Option.or_eq_some_iff.mp h with h | ⟨_, h⟩
      · obtain ⟨s, _, rfl⟩ := Option.map_eq_some_iff.mp h
        exact Incident.fixFits_of_none rfl
      · refine fixFits_wrongType? (fun s hs => hplaced s ?_) h
        exact (List.mem_filter.mp hs).1

theorem fix_of_mem_definitionMismatches {strings : List FormatString} {i : Incident}
    (h : i ∈ definitionMismatches strings) : i.fix = none := by
  unfold definitionMismatches at h
  simp only [List.mem_append, Option.mem_toList] at h
  rcases h with (h | h) | h
  · obtain ⟨s, _, h⟩ := List.mem_filterMap.mp h
    unfold invalidDirective? at h
    split at h
    · cases h
      rfl
    · cases h
  · unfold countMismatch? at h
    split at h
    · cases h
    · obtain ⟨other, _, rfl⟩ := Option.map_eq_some_iff.mp h
      rfl
  · obtain ⟨index, _, h⟩ := List.exists_of_findSome?_eq_some h
    obtain ⟨c, _, rfl⟩ := Option.map_eq_some_iff.mp h
    rfl

theorem placedIn_formatGroups {p : Project} {g : FormatGroup}
    (hmark : ∀ f ∈ p.files, f.kind.isXml = true → f.IsUnmarked) (hg : g ∈ formatGroups p) :
    PlacedIn p.files g.2 := by
  intro s hs
  have hmem := (List.mem_filter.mp (Grouping.mem_of_mem_groups hg hs)).1
  obtain ⟨v, hv, hs⟩ := List.mem_flatMap.mp hmem
  obtain ⟨d, hd, rfl⟩ := List.mem_map.mp hs
  obtain ⟨hf, hplaced⟩ := mem_valuesFiles hmark hv
  exact ⟨hf, hplaced d (List.mem_filter.mp hd).1 d.element (.self _)⟩

theorem fixFits_formats (p : Project) (sources : Source.Sources)
    (hmark : ∀ f ∈ p.files, f.kind.isXml = true → f.IsUnmarked) :
    ∀ i ∈ formatIncidents p sources, i.FixFits p.files := by
  refine List.forall_mem_append.mpr ⟨List.forall_mem_flatMap.mpr fun g _ i hi => ?_,
    List.forall_mem_flatMap.mpr fun unit _ => ?_⟩
  · exact Incident.fixFits_of_none (fix_of_mem_definitionMismatches hi)
  · split
    · refine List.forall_mem_filterMap.mpr fun c _ i h => ?_
      obtain ⟨filled, _, h⟩ := Option.bind_eq_some_iff.mp h
      obtain ⟨group, hgroup, h⟩ := Option.bind_eq_some_iff.mp h
      have hg := List.mem_of_find?_eq_some hgroup
      exact fixFits_callMismatch? (placedIn_formatGroups hmark hg) h
    · exact fun _ hi => nomatch hi

end Check

/-! ## 8. Calls against contracts -/

namespace Contract

/-- What is wrong with a call has no correction. -/
theorem fix_of_mem_contractIncidentsOf {g : Grants} {isTest : Bool} {c : ResolvedCall}
    {i : Incident} (h : i ∈ Check.contractIncidentsOf g isTest c) : i.fix = none := by
  unfold Check.contractIncidentsOf at h
  simp only [List.mem_append, Option.mem_toList] at h
  rcases h with (((((h | h) | h) | h) | h) | h) | h
  · obtain ⟨a, _, h⟩ := List.mem_filterMap.mp h
    obtain ⟨message, _, rfl⟩ := Option.map_eq_some_iff.mp h
    rfl
  · unfold constantIncidents at h
    split at h
    · obtain ⟨a, _, h⟩ := List.mem_filterMap.mp h
      obtain ⟨t, _, h⟩ := Option.bind_eq_some_iff.mp h
      obtain ⟨allowed, _, h⟩ := Option.bind_eq_some_iff.mp h
      split at h
      · cases h
      · cases h
        rfl
    · cases h
  · obtain ⟨a, _, h⟩ := List.mem_filterMap.mp h
    obtain ⟨resource, _, h⟩ := Option.bind_eq_some_iff.mp h
    obtain ⟨message, _, h⟩ := Option.bind_eq_some_iff.mp h
    cases h
    rfl
  · obtain ⟨message, _, rfl⟩ := List.mem_map.mp h
    rfl
  · obtain ⟨caller, _, h⟩ := Option.bind_eq_some_iff.mp h
    obtain ⟨required, _, h⟩ := Option.bind_eq_some_iff.mp h
    obtain ⟨current, _, h⟩ := Option.bind_eq_some_iff.mp h
    split at h
    · cases h
    · cases h
      rfl
  · obtain ⟨a, _, h⟩ := Option.bind_eq_some_iff.mp h
    dsimp only at h
    split at h
    · cases h
    · obtain ⟨caller, _, h⟩ := Option.bind_eq_some_iff.mp h
      split at h
      · cases h
      · cases h
        rfl
  · unfold resultIncident? at h
    dsimp only at h
    split at h
    · cases h
    · obtain ⟨a, _, h⟩ := Option.bind_eq_some_iff.mp h
      cases h
      rfl

end Contract

/-! ## 9. All checks -/

namespace Check

/-- **Every correction that a check offers is one edit, and the edit fits in a file of the
    project.** -/
theorem fixFits_incidents (p : Project) (sources : Source.Sources) (c : Check)
    (hmark : ∀ f ∈ p.files, f.kind.isXml = true → f.IsUnmarked) :
    ∀ i ∈ c.incidents p sources, i.FixFits p.files := by
  cases c with
  | resources => exact fixFits_resources p hmark
  | manifests => exact fixFits_manifests p hmark
  | formats => exact fixFits_formats p sources hmark
  | contracts =>
    refine List.forall_mem_flatMap.mpr fun c _ i hi => ?_
    exact Incident.fixFits_of_none (Contract.fix_of_mem_contractIncidentsOf hi)

/-- **Every correction that a check offers can be made**, whichever of its options is chosen: its
    edits name files of the project, and in every file those that name it can be applied. -/
theorem incidents_fixes_apply (p : Project)
    (hpaths : p.files.Pairwise fun f g => f.path.same g.path = false)
    (hmark : ∀ f ∈ p.files, f.kind.isXml = true →
      f.contents.toList.head? ≠ some Xml.byteOrderMark)
    (c : Check) {i : Incident} (hi : i ∈ c.incidents p p.sources) {fix : Fix}
    (hfix : i.fix = some fix) {name : String} {edits : List TextEdit}
    (hoption : (name, edits) ∈ fix.options) :
    (∀ e ∈ edits, ∃ f ∈ p.files, f.path = e.file) ∧
      ∀ f ∈ p.files, ∃ text,
        Edits.applyEdits f.path f.contents.toList (edits.filter (·.file.same f.path)) =
          .ok text := by
  obtain ⟨title, e, rfl, home, hhome, hfile, hfit⟩ :=
    fixFits_incidents p p.sources c hmark i hi fix hfix
  rw [Fix.options, List.mem_singleton] at hoption
  cases hoption
  refine ⟨fun e' he' => ⟨home, hhome, ?_⟩, fun f hf => ?_⟩
  · rw [List.mem_singleton.mp he', hfile]
  · refine Edits.applyEdits_of_apart f.path (fun e' he' => ?_) ?_
    · -- an edit that names the file is the one of the correction, and the file is its file
      obtain ⟨hmem, hsame⟩ := List.mem_filter.mp he'
      rw [List.mem_singleton.mp hmem] at hsame ⊢
      rw [hfile] at hsame
      rw [← File.eq_of_same hpaths hhome hf hsame]
      exact hfit
    · exact (List.pairwise_singleton _ _).sublist List.filter_sublist

/-- A values file with an apostrophe behind a character of two bytes. -/
def apostropheProject : Project :=
  ⟨⟨""⟩, [⟨⟨"res/values/s.xml"⟩, "<resources><string name='a'>é'</string></resources>"⟩], {}⟩

theorem incidents_fixes_apply_apostrophe : ∃ i fix edits,
    i ∈ incidents apostropheProject apostropheProject.sources .resources ∧ i.fix = some fix ∧
      ("Escape Apostrophe", edits) ∈ fix.options ∧
      edits = [⟨⟨"res/values/s.xml"⟩, ⟨30, 31⟩, "\\'"⟩] ∧
      (∀ e ∈ edits, ∃ f ∈ apostropheProject.files, f.path = e.file) ∧
      ∀ f ∈ apostropheProject.files, ∃ text,
        Edits.applyEdits f.path f.contents.toList (edits.filter (·.file.same f.path)) =
          .ok text := by
  have hpaths : apostropheProject.files.Pairwise fun f g => f.path.same g.path = false :=
    List.pairwise_singleton _ _
  have hmark : ∀ f ∈ apostropheProject.files, f.kind.isXml = true →
      f.contents.toList.head? ≠ some Xml.byteOrderMark := by decide +kernel
  have hoptions : ((incidents apostropheProject apostropheProject.sources .resources).map fun i =>
      i.fix.map Fix.options) =
        [some [("Escape Apostrophe", [⟨⟨"res/values/s.xml"⟩, ⟨30, 31⟩, "\\'"⟩])]] := by
    decide +kernel
  obtain ⟨i, hi, hfixes⟩ := List.mem_map.mp (hoptions ▸ List.mem_singleton_self _)
  obtain ⟨fix, hfix, hfixes⟩ := Option.map_eq_some_iff.mp hfixes
  have hoption := List.mem_singleton_self ("Escape Apostrophe", [(⟨⟨"res/values/s.xml"⟩, ⟨30, 31⟩,
    "\\'"⟩ : TextEdit)])
  rw [← hfixes] at hoption
  exact ⟨i, fix, _, hi, hfix, hoption, rfl,
    incidents_fixes_apply apostropheProject hpaths hmark .resources hi hfix hoption⟩

end Check

end AndroidLint
