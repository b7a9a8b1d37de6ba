/-
  File:      AndroidLint/Proofs/BackupFixes.lean
  Subject:   What the correction of an application without `allowBackup` does to the manifest.

  The correction writes an attribute with the qualifier that the root element gives to the
  platform's namespace. All else in the tree stays. Whether the attribute is one of the platform is
  told by the bindings that hold at the application:

  * `exists_backupAttribute`:  what the correction writes is an attribute;
  * `backup_reported_iff`:     when an application is reported;
  * `exists_gained`:           the text and the tree after the correction;
  * `Corrected.uri_eq`:        the namespace of the attribute;
  * `backup_fix_kept`:         the correction removes its incident exactly if the qualifier still has
                               the platform's namespace at the application.

  It need not: an element may bind the qualifier to another namespace (`backup_fix_rebound`).
-/
import AndroidLint.Check.ManifestStructure
import AndroidLint.Proofs.FixRanges
import AndroidLint.Proofs.XmlInsertion
import AndroidLint.Proofs.XmlNamespaces

namespace AndroidLint

namespace Text

/-- The last part of a text has no separator, and no characters of its own. -/
theorem of_mem_lastPart {separator c : Char} {text : String}
    (h : c ∈ (lastPart separator text).toList) : c ∈ text.toList ∧ c ≠ separator := by
  have hsplit := List.takeWhile_append_dropWhile (p := (· != separator)) (l := text.toList.reverse)
  unfold lastPart splitLast? at h
  rw [List.span_eq_takeWhile_dropWhile] at h
  cases hdrop : text.toList.reverse.dropWhile (· != separator) with
  | nil =>
    rw [hdrop] at h
    rw [hdrop, List.append_nil] at hsplit
    have hrun : c ∈ text.toList.reverse.takeWhile (· != separator) := by
      rw [hsplit]
      exact List.mem_reverse.mpr h
    exact ⟨h, bne_iff_ne.mp (List.mem_takeWhile_imp (p := (· != separator)) hrun)⟩
  | cons d front =>
    rw [hdrop] at h
    have hrun : c ∈ text.toList.reverse.takeWhile (· != separator) := by
      simpa using h
    refine ⟨List.mem_reverse.mp ((List.takeWhile_prefix _).subset hrun), ?_⟩
    exact bne_iff_ne.mp (List.mem_takeWhile_imp (p := (· != separator)) hrun)

end Text

namespace Check

open Xml (Element Attribute WrittenAttribute uriInside? lastValue?)
open Text

/-! ## 1. The attribute that is written -/

/-- A qualifier that can stand in front of a name in a tag and is not the one of bindings. -/
structure QualifierFits (qualifier : String) : Prop where
  quotes : ∀ c ∈ qualifier.toList, c ≠ '\'' ∧ c ≠ '"'
  head : qualifier.toList.head? ≠ some '/'
  free : qualifier ≠ "xmlns"

/-- The name of the attribute behind the qualifier. -/
def backupName : List Char := ':' :: "allowBackup".toList

section Written

variable {qualifier : String} (plain : ∀ c ∈ qualifier.toList, Xml.isNameChar c = true)

include plain in
theorem backupName_plain {c : Char} (hc : c ∈ qualifier.toList ++ backupName) :
    c ≠ '=' ∧ c ≠ '>' ∧ Xml.isTagBlank c = false := by
  have hname : backupName.all Xml.isNameChar = true := rfl
  have hchar : Xml.isNameChar c = true := by
    rcases List.mem_append.mp hc with hc | hc
    · exact plain c hc
    · exact List.all_eq_true.mp hname c hc
  simp only [Xml.isNameChar, Bool.not_eq_true', Bool.or_eq_false_iff, beq_eq_false_iff_ne] at hchar
  exact ⟨hchar.1.1, hchar.2, hchar.1.2⟩

theorem head?_append_backupName (head : qualifier.toList.head? ≠ some '/') :
    (qualifier.toList ++ backupName).head? ≠ some '/' := by
  cases hq : qualifier.toList with
  | nil =>
    show some ':' ≠ some '/'
    decide
  | cons c cs =>
    rw [hq] at head
    exact head

/-- The value that is written. -/
def backupValue : List Char := ['t', 'r', 'u', 'e']

theorem quote_not_mem_backupValue : '"' ∉ backupValue := by decide

theorem isTagBlank_space : ∀ c ∈ [' '], Xml.isTagBlank c = true := List.all_eq_true.mp rfl

theorem isTagBlank_none : ∀ c ∈ ([] : List Char), Xml.isTagBlank c = true := List.forall_mem_nil _

theorem append_backupName_ne_nil (cs : List Char) : cs ++ backupName ≠ [] :=
  List.append_ne_nil_of_right_ne_nil _ (List.cons_ne_nil _ _)

theorem isQuote_double : '"' = '"' ∨ '"' = '\'' := .inl rfl

/-- The attribute as the correction writes it. -/
def backupAttribute (head : qualifier.toList.head? ≠ some '/') : WrittenAttribute where
  gap := ⟨[' '], isTagBlank_space⟩
  name := qualifier.toList ++ backupName
  beforeSign := ⟨[], isTagBlank_none⟩
  behindSign := ⟨[], isTagBlank_none⟩
  quote := '"'
  value := backupValue
  name_nonempty := append_backupName_ne_nil qualifier.toList
  name_plain := fun _ hc => backupName_plain plain hc
  name_head := head?_append_backupName head
  isQuote := isQuote_double
  value_open := quote_not_mem_backupValue

variable (fits : QualifierFits qualifier)

theorem backupAttribute_text :
    (s!" {qualifier}:allowBackup=\"true\"").toList =
      (backupAttribute plain fits.head).text := by
  simp [backupAttribute, backupName, backupValue, WrittenAttribute.text, WrittenAttribute.body,
    WrittenAttribute.opening, String.toList_append, toString]

theorem backupAttribute_fits : (backupAttribute plain fits.head).Fits where
  gap := ⟨' ', [], rfl, rfl⟩
  name := by
    have hname : backupName.all (fun c => c != '\'' && c != '"') = true := rfl
    intro c hc
    rcases List.mem_append.mp hc with hc | hc
    · exact fits.quotes c hc
    · simpa using List.all_eq_true.mp hname c hc

end Written

/-- An attribute that says that data may be backed up, if its qualifier is that of the platform. -/
structure IsBackup (qualifier : String) (a : Attribute) : Prop where
  qualifier : a.qualifier? = some qualifier
  localName : a.localName = "allowBackup"
  value : a.value = "true"

/-- What is read where the correction wrote. -/
theorem isBackup_placedAt {qualifier : String}
    (plain : ∀ c ∈ qualifier.toList, Xml.isNameChar c = true) (colon : ':' ∉ qualifier.toList)
    (fits : QualifierFits qualifier) (offset : Nat) :
    IsBackup qualifier ((backupAttribute plain fits.head).placedAt offset) := by
  have hname : ((backupAttribute plain fits.head).placedAt offset).name.toList =
      qualifier.toList ++ ':' :: "allowBackup".toList := String.toList_ofList
  have hvalue : Xml.decode backupValue = "true".toList := by
    simp [backupValue, Xml.decode, Xml.unescape?]
  refine ⟨?_, ?_, ?_⟩
  · rw [Attribute.qualifier?, splitFirst?_eq_some hname colon, Option.map_some,
      String.ofList_toList]
  · have hlast : ':' ∉ "allowBackup".toList := by decide
    rw [Attribute.localName, lastPart_eq hname hlast, String.ofList_toList]
  · show String.ofList (Xml.decode backupValue) = "true"
    rw [hvalue, String.ofList_toList]

theorem IsBackup.not_bindsNamespace {qualifier : String} {a : Attribute} (h : IsBackup qualifier a)
    (hfree : qualifier ≠ "xmlns") : a.bindsNamespace = false := by
  rw [Attribute.bindsNamespace, h.qualifier]
  exact beq_false_of_ne fun heq => hfree (Option.some.inj heq)

/-- What the correction writes is an attribute that fits into a tag, and it is read as one that says
    that data may be backed up. -/
theorem exists_backupAttribute {qualifier : String}
    (plain : ∀ c ∈ qualifier.toList, Xml.isNameChar c = true) (colon : ':' ∉ qualifier.toList)
    (fits : QualifierFits qualifier) :
    ∃ w : WrittenAttribute, w.text = (s!" {qualifier}:allowBackup=\"true\"").toList ∧ w.Fits ∧
      (w.placedAt 0).bindsNamespace = false ∧ IsBackup qualifier (w.placedAt 0) := by
  have hbackup := isBackup_placedAt plain colon fits 0
  exact ⟨backupAttribute plain fits.head, (backupAttribute_text plain fits).symm,
    backupAttribute_fits plain fits, hbackup.not_bindsNamespace fits.free, hbackup⟩

theorem IsBackup.resolve {qualifier : String} {a : Attribute} (h : IsBackup qualifier a)
    (scope : Xml.Scope) : IsBackup qualifier (a.unplaced.resolve scope) :=
  ⟨h.qualifier, h.localName, h.value⟩

theorem IsBackup.androidAttribute?_gain {qualifier : String} {a : Attribute} {e : Element}
    (h : IsBackup qualifier a) (hnone : e.androidAttribute? "allowBackup" = none) :
    (e.gain a).androidAttribute? "allowBackup" =
      if a.uri = some Xml.androidUri then some a else none := by
  unfold Element.androidAttribute? at hnone ⊢
  by_cases hplatform : a.uri = some Xml.androidUri
  · rw [Element.gain, List.find?_cons_of_pos, if_pos hplatform]
    simp [hplatform, h.localName]
  · rw [Element.gain, List.find?_cons_of_neg, if_neg hplatform, hnone]
    simp [hplatform]

/-- The qualifier is one that stands in a tag, without a colon. -/
theorem androidQualifier_chars {contents : List Char} {root : Element}
    (h : Xml.parse contents = .ok root) :
    ∀ c ∈ (androidQualifier root).toList, Xml.isNameChar c = true ∧ c ≠ ':' := by
  unfold androidQualifier
  split
  · next a ha =>
    intro c hc
    obtain ⟨hmem, hcolon⟩ := of_mem_lastPart hc
    exact ⟨Xml.parse_names h (.self root) (List.mem_of_find?_eq_some ha) c hmem, hcolon⟩
  · have hall : "android".toList.all (fun c => Xml.isNameChar c && c != ':') = true := rfl
    intro c hc
    simpa using List.all_eq_true.mp hall c hc

/-! ## 2. Which application is reported -/

section Reports

variable {file : File} {root application : Element} {rest : List Element}

/-- The edit that the correction makes. -/
def backupEdit (file : File) (root application : Element) : TextEdit :=
  .insertion file.path application.nameRange.stop s!" {androidQualifier root}:allowBackup=\"true\""

theorem drawableIcon?_issue {e : Element} {i : Incident} (h : drawableIcon? file e = some i) :
    i.issue = .mipmapIcons := by
  obtain ⟨icon, _, h⟩ := Option.bind_eq_some_iff.mp h
  obtain ⟨name, _, h⟩ := Option.bind_eq_some_iff.mp h
  rw [← Option.some.inj h]
  rfl

/-- Of the incidents of an application one kind is about `allowBackup`. -/
theorem mem_backupIncident? {i : Incident}
    (hfirst : root.childrenNamed "application" = application :: rest)
    (hi : i ∈ applicationIncidents false file root) (hissue : i.issue = .allowBackup) :
    backupIncident? file root application = some i := by
  simp only [applicationIncidents, hfirst, Bool.false_eq_true, if_false, List.mem_append,
    Option.mem_toList, List.mem_filterMap] at hi
  rcases hi with (hbackup | hicon) | ⟨e, _, hdrawable⟩
  · exact hbackup
  · unfold iconIncident? at hicon
    split at hicon
    · cases hicon
    · cases hicon
      cases hissue
  · rw [drawableIcon?_issue hdrawable] at hissue
    cases hissue

/-- **An application is reported exactly if it has no attribute of the platform of that name.** -/
theorem backup_reported_iff (hfirst : root.childrenNamed "application" = application :: rest) :
    (∃ i ∈ applicationIncidents false file root, i.issue = .allowBackup) ↔
      application.androidAttribute? "allowBackup" = none := by
  constructor
  · rintro ⟨i, hi, hissue⟩
    have hbackup := mem_backupIncident? hfirst hi hissue
    unfold backupIncident? at hbackup
    split at hbackup
    · cases hbackup
    · next hnone => exact Option.not_isSome_iff_eq_none.mp hnone
  · intro hnone
    have hbackup : ∃ i, backupIncident? file root application = some i ∧
        i.issue = .allowBackup := by
      rw [backupIncident?, hnone]
      exact ⟨_, rfl, rfl⟩
    obtain ⟨i, hi, hissue⟩ := hbackup
    refine ⟨i, ?_, hissue⟩
    rw [applicationIncidents, hfirst]
    refine List.mem_append_left _ (List.mem_append_left _ ?_)
    rw [hi]
    exact List.mem_singleton_self i

theorem fix_of_backup {i : Incident} (hi : i ∈ applicationIncidents false file root)
    (hissue : i.issue = .allowBackup) :
    ∃ application rest, root.childrenNamed "application" = application :: rest ∧
      application.androidAttribute? "allowBackup" = none ∧
      i.fix = some (.edits "Set allowBackup=\"true\"" [backupEdit file root application]) := by
  cases hfirst : root.childrenNamed "application" with
  | nil =>
    rw [applicationIncidents, hfirst] at hi
    cases hi
  | cons application rest =>
    refine ⟨application, rest, rfl, (backup_reported_iff hfirst).mp ⟨i, hi, hissue⟩, ?_⟩
    have hbackup := mem_backupIncident? hfirst hi hissue
    unfold backupIncident? at hbackup
    split at hbackup
    · cases hbackup
    · rw [← Option.some.inj hbackup]
      rfl

end Reports

/-! ## 3. The text and the tree after the correction -/

theorem applyEdits_singleton (path : Path) {contents : List Char} {e : TextEdit}
    (h : e.range.FitsIn contents) :
    Edits.applyEdits path contents [e] = .ok (splice contents e.range e.replacement.toList) := by
  have hlimit : ¬ width contents < e.range.stop := Nat.not_lt.mpr h.bounded
  rw [Edits.applyEdits, List.mergeSort_singleton, Edits.applyFrom,
    if_pos (Edits.inBounds_iff.mpr h), if_neg hlimit, Edits.applyFrom]

/-- The edit puts its text behind the name of the tag. -/
theorem applyEdits_backupEdit {file : File} {root application : Element}
    {before inner behind : List Char} (hfits : application.nameRange.FitsIn file.contents.toList)
    (hparts : file.contents.toList =
      before ++ Xml.writtenTag application.tag.toList inner ++ behind)
    (hstart : application.range.start = width before) :
    Edits.applyEdits file.path file.contents.toList [backupEdit file root application] =
      .ok (before ++ Xml.writtenTag application.tag.toList
        ((backupEdit file root application).replacement.toList ++ inner) ++ behind) := by
  have hstop : application.nameRange.stop = width (before ++ '<' :: application.tag.toList) := by
    rw [Element.nameRange, hstart, utf8ByteSize_eq_width, width_append, width_cons,
      show '<'.utf8Size = 1 from rfl, Nat.add_assoc]
  have hrange : (backupEdit file root application).range =
      ⟨application.nameRange.stop, application.nameRange.stop⟩ := rfl
  have hsplit : file.contents.toList =
      before ++ '<' :: application.tag.toList ++ ([] ++ (inner ++ '>' :: behind)) := by
    rw [hparts]
    simp [Xml.writtenTag]
  have hsplice := splice_width (before ++ '<' :: application.tag.toList) []
    (inner ++ '>' :: behind) (backupEdit file root application).replacement.toList
  rw [width_nil, Nat.add_zero, ← hsplit, ← hstop, ← hrange] at hsplice
  rw [applyEdits_singleton file.path (hrange ▸ hfits.at_stop), hsplice]
  simp [Xml.writtenTag]

theorem plainInTag_application : Xml.PlainInTag "application".toList := by
  have hall : "application".toList.all
      (fun c => decide (c ≠ '>' ∧ c ≠ '\'' ∧ c ≠ '"')) = true := rfl
  exact fun c hc => of_decide_eq_true (List.all_eq_true.mp hall c hc)

/-- **The correction can be applied, and the tree gains the attribute at the application.** -/
theorem exists_gained {file : File} {root application : Element} (hmark : file.IsUnmarked)
    (hroot : file.rootElement? = some root) (hmem : application ∈ root.children)
    (htag : application.tag = "application") (fits : QualifierFits (androidQualifier root)) :
    ∃ contents root' a, Edits.applyEdits file.path file.contents.toList
        [backupEdit file root application] = .ok contents ∧
      Xml.parse contents = .ok root' ∧ IsBackup (androidQualifier root) a ∧ a.unplaced = a ∧
      root.Gained application.range.start a root' := by
  have hparse := File.parse_of_rootElement? hroot
  have hwithin : application.Within root := .child hmem (.self application)
  have hchars := androidQualifier_chars hparse
  obtain ⟨w, htext, hw, hbinds, hbackup⟩ := exists_backupAttribute (fun c hc => (hchars c hc).1)
    (fun hc => (hchars _ hc).2 rfl) fits
  obtain ⟨q, hq, hrange, hbegins, _⟩ := Xml.parse_tagsBegun hparse application hwithin
  have hne : application.tag.toList ≠ [] := by
    rw [htag]
    exact String.toList_ofList ▸ List.cons_ne_nil _ _
  obtain ⟨before, inner, behind, hparts, hplace, hinsert⟩ :=
    Xml.parse_insert hmark hparse hq hbegins hne (htag ▸ plainInTag_application)
  obtain ⟨scope, root', hparse', hgained⟩ := hinsert w hw hbinds
  rw [hrange] at hgained hplace
  refine ⟨_, root', _, ?_, hparse', hbackup.resolve scope, rfl, hgained⟩
  have hfits := (hmark.rangesIn hroot hwithin).fits_name
  have hstart : application.range.start = width before := congrArg ByteRange.start hplace
  rw [htext]
  exact applyEdits_backupEdit hfits hparts hstart

/-! ## 4. What the attribute means -/

/-- The tree of `root` after the attribute `a` was put in front of the others of the first
    application; nothing else is different, up to the places of the elements. -/
structure Corrected (root root' application : Element) (front back : List Element) (a : Attribute) :
    Prop where
  children : root.children = front ++ application :: back
  earlier : ∀ e ∈ front, e.tag ≠ "application"
  tag : application.tag = "application"
  gained : IsBackup (androidQualifier root) a
  tree : root'.unplaced = { root with children := front ++ application.gain a :: back }.unplaced

/-- The qualifier that the root element gives to the platform's namespace has this namespace at the
    application too. -/
def QualifierKept (root application : Element) : Prop :=
  uriInside? Attribute.binds (androidQualifier root) [application, root] = some Xml.androidUri

instance (root application : Element) : Decidable (QualifierKept root application) :=
  inferInstanceAs (Decidable (_ = _))

theorem lastValue?_unplaced {qualifier : String} {as as' : List Attribute}
    (h : as'.map Attribute.unplaced = as.map Attribute.unplaced) :
    lastValue? (Attribute.binds qualifier) as' = lastValue? (Attribute.binds qualifier) as := by
  have hmap : ∀ bs : List Attribute, lastValue? (Attribute.binds qualifier)
      (bs.map Attribute.unplaced) = lastValue? (Attribute.binds qualifier) bs := by
    intro bs
    rw [lastValue?, lastValue?, List.filter_map, List.getLast?_map, Option.map_map]
    rfl
  rw [← hmap as', h, hmap]

theorem androidValue?_unplaced {e e' : Element} (name : String)
    (h : e'.attributes.map Attribute.unplaced = e.attributes.map Attribute.unplaced) :
    e'.androidValue? name = e.androidValue? name := by
  have hmap : ∀ d : Element, d.androidValue? name =
      ((d.attributes.map Attribute.unplaced).find? fun a =>
        a.uri == some Xml.androidUri && a.localName == name).map (·.value) := by
    intro d
    rw [List.find?_map, Option.map_map]
    rfl
  rw [hmap e', h, hmap]

namespace Corrected

variable {root root' application : Element} {front back : List Element} {a : Attribute}

theorem mem (h : Corrected root root' application front back a) : application ∈ root.children :=
  h.children ▸ List.mem_append_right _ List.mem_cons_self

/-- The first application of the new tree is the one that has gained the attribute. -/
theorem exists_first (h : Corrected root root' application front back a) :
    ∃ first rest, root'.childrenNamed "application" = first :: rest ∧ first ∈ root'.children ∧
      first.unplaced = (application.gain a).unplaced := by
  obtain ⟨_, _, hchildren, _⟩ := Element.unplaced_eq_iff.mp h.tree
  rw [List.map_append, List.map_cons] at hchildren
  obtain ⟨front', others, hparts, hfront, hothers⟩ := List.map_eq_append_iff.mp hchildren
  obtain ⟨first, back', rfl, hfirst, _⟩ := List.map_eq_cons_iff.mp hothers
  have hearlier : ∀ e ∈ front', ¬ (e.tag == "application") = true := by
    intro e he
    have hmem : e.unplaced ∈ front.map Element.unplaced := hfront ▸ List.mem_map_of_mem he
    obtain ⟨d, hd, hsame⟩ := List.mem_map.mp hmem
    rw [beq_iff_eq, ← (Element.unplaced_eq_iff.mp hsame).1]
    exact h.earlier d hd
  have htag : (first.tag == "application") = true := by
    rw [beq_iff_eq, (Element.unplaced_eq_iff.mp hfirst).1]
    exact h.tag
  refine ⟨first, back'.filter (·.tag == "application"), ?_, ?_, hfirst⟩
  · have hfilter : (first :: back').filter (·.tag == "application") =
        first :: back'.filter (·.tag == "application") := List.filter_cons_of_pos htag
    rw [Element.childrenNamed, hparts, List.filter_append, List.filter_eq_nil_iff.mpr hearlier,
      List.nil_append, hfilter]
  · rw [hparts]
    exact List.mem_append_right _ List.mem_cons_self

/-- **The namespace of the attribute is the one that its qualifier has at the application.** -/
theorem uri_eq {contents : List Char} (h : Corrected root root' application front back a)
    (hparse : Xml.parse contents = .ok root') (hfree : androidQualifier root ≠ "xmlns") :
    a.uri = uriInside? Attribute.binds (androidQualifier root) [application, root] := by
  obtain ⟨first, _, _, hmem, hfirst⟩ := h.exists_first
  have hattributes := (Element.unplaced_eq_iff.mp hfirst).2.1
  obtain ⟨own, others, hparts, hown, hothers⟩ := List.map_eq_cons_iff.mp hattributes
  have hownMem : own ∈ first.attributes := hparts ▸ List.mem_cons_self
  have hqualifier : own.qualifier? = some (androidQualifier root) := by
    have hsame : own.unplaced.qualifier? = a.unplaced.qualifier? := congrArg _ hown
    exact hsame.trans h.gained.qualifier
  have huri := ((Xml.parse_uri_lexical hparse (.child .root hmem) hownMem).2 _ hqualifier hfree).1
  have hbinds : Attribute.binds (androidQualifier root) own = false := by
    rw [Attribute.binds, Attribute.bindsNamespace, hqualifier,
      beq_false_of_ne fun heq => hfree (Option.some.inj heq)]
    rfl
  have hsame : a.uri = own.uri := by
    show a.unplaced.uri = own.unplaced.uri
    rw [hown]
  have hroot := (Element.unplaced_eq_iff.mp h.tree).2.1
  rw [hsame, huri]
  simp only [uriInside?]
  rw [hparts, Xml.lastValue?_cons, hbinds, lastValue?_unplaced hothers, lastValue?_unplaced hroot]
  simp

/-- **The new application says that data may be backed up exactly if the qualifier is kept**, and
    has no such attribute of the platform otherwise. -/
theorem androidValue?_iff {contents : List Char} (h : Corrected root root' application front back a)
    (hparse : Xml.parse contents = .ok root') (hfree : androidQualifier root ≠ "xmlns")
    (hnone : application.androidAttribute? "allowBackup" = none) :
    ∃ first rest, root'.childrenNamed "application" = first :: rest ∧
      (first.androidValue? "allowBackup" = some "true" ↔ QualifierKept root application) ∧
      (first.androidAttribute? "allowBackup" = none ↔ ¬ QualifierKept root application) := by
  obtain ⟨first, rest, hchildren, _, hfirst⟩ := h.exists_first
  refine ⟨first, rest, hchildren, ?_⟩
  have hvalue := androidValue?_unplaced "allowBackup" (Element.unplaced_eq_iff.mp hfirst).2.1
  have huri := h.uri_eq hparse hfree
  have hmissing : first.androidAttribute? "allowBackup" = none ↔
      first.androidValue? "allowBackup" = none := Option.map_eq_none_iff.symm
  rw [hmissing, hvalue, Element.androidValue?, h.gained.androidAttribute?_gain hnone]
  by_cases hkept : QualifierKept root application
  · rw [if_pos (huri.trans hkept), Option.map_some, h.gained.value]
    exact ⟨iff_of_true rfl hkept, iff_of_false (Option.some_ne_none _) (not_not_intro hkept)⟩
  · have hother : a.uri ≠ some Xml.androidUri := fun heq => hkept (huri.symm.trans heq)
    rw [if_neg hother, Option.map_none]
    exact ⟨iff_of_false (Option.some_ne_none _).symm hkept, iff_of_true rfl hkept⟩

/-- **The new application is reported exactly if the qualifier is not kept.** -/
theorem reported_iff {contents : List Char} (h : Corrected root root' application front back a)
    (hparse : Xml.parse contents = .ok root') (hfree : androidQualifier root ≠ "xmlns")
    (hnone : application.androidAttribute? "allowBackup" = none) (file : File) :
    (∃ j ∈ applicationIncidents false file root', j.issue = .allowBackup) ↔
      ¬ QualifierKept root application := by
  obtain ⟨first, rest, hchildren, _, hmissing⟩ := h.androidValue?_iff hparse hfree hnone
  exact (backup_reported_iff hchildren).trans hmissing

end Corrected

/-- **The correction can be applied, and the new text has a tree that differs in the attribute
    alone.** -/
theorem exists_corrected {file : File} {root : Element} {i : Incident} (hmark : file.IsUnmarked)
    (hroot : file.rootElement? = some root) (hfits : QualifierFits (androidQualifier root))
    (hi : i ∈ applicationIncidents false file root) (hissue : i.issue = .allowBackup) :
    ∃ label edits contents root' front application back a,
      i.fix = some (.edits label edits) ∧
      Edits.applyEdits file.path file.contents.toList edits = .ok contents ∧
      { file with contents := String.ofList contents : File }.rootElement? = some root' ∧
      Corrected root root' application front back a ∧
      application.androidAttribute? "allowBackup" = none := by
  obtain ⟨application, rest, hfirst, hnone, hfix⟩ := fix_of_backup hi hissue
  obtain ⟨front, back, hchildren, hearlier, htag, _⟩ := List.filter_eq_cons_iff.mp hfirst
  have hmem : application ∈ root.children :=
    hchildren ▸ List.mem_append_right _ List.mem_cons_self
  obtain ⟨contents, root', a, happly, hparse, hbackup, hown, hgained⟩ :=
    exists_gained hmark hroot hmem (beq_iff_eq.mp htag) hfits
  have hnested := Xml.parse_nested (File.parse_of_rootElement? hroot)
  refine ⟨_, _, contents, root', front, application, back, a, hfix, happly, ?_, ⟨hchildren, ?_,
    beq_iff_eq.mp htag, hbackup, hgained.unplaced_child hnested hchildren hown⟩, hnone⟩
  · refine File.rootElement?_of_parse ?_
    rwa [String.toList_ofList]
  · exact fun e he heq => hearlier e he (beq_iff_eq.mpr heq)

/-- **What the correction of an application without `allowBackup` does.** It can be applied, and the
    new text has a tree, which differs from the old one in one attribute of the first application.
    This attribute is the one that was missing, and the application is not reported any more,
    exactly if the qualifier that the root element gives to the platform's namespace still has it at
    the application. -/
theorem backup_fix_kept {file : File} {root : Element} {i : Incident} (hmark : file.IsUnmarked)
    (hroot : file.rootElement? = some root) (hfits : QualifierFits (androidQualifier root))
    (hi : i ∈ applicationIncidents false file root) (hissue : i.issue = .allowBackup) :
    ∃ label edits contents root' front application back a,
      i.fix = some (.edits label edits) ∧
      Edits.applyEdits file.path file.contents.toList edits = .ok contents ∧
      { file with contents := String.ofList contents : File }.rootElement? = some root' ∧
      Corrected root root' application front back a ∧
      ((∃ first rest, root'.childrenNamed "application" = first :: rest ∧
        first.androidValue? "allowBackup" = some "true") ↔ QualifierKept root application) ∧
      ((∀ j ∈ applicationIncidents false { file with contents := String.ofList contents } root',
        j.issue ≠ .allowBackup) ↔ QualifierKept root application) := by
  obtain ⟨label, edits, contents, root', front, application, back, a, hfix, happly, hroot',
    hcorrected, hnone⟩ := exists_corrected hmark hroot hfits hi hissue
  have hparse := File.parse_of_rootElement? hroot'
  have hreported := hcorrected.reported_iff hparse hfits.free hnone
    { file with contents := String.ofList contents }
  obtain ⟨first, others, hchildren, hvalue, _⟩ :=
    hcorrected.androidValue?_iff hparse hfits.free hnone
  refine ⟨label, edits, contents, root', front, application, back, a, hfix, happly, hroot',
    hcorrected, ?_, ?_⟩
  · rw [← hvalue]
    constructor
    · rintro ⟨first', rest', hsame, htrue⟩
      rw [hchildren] at hsame
      rwa [(List.cons.inj hsame).1]
    · exact fun htrue => ⟨first, others, hchildren, htrue⟩
  · constructor
    · intro hall
      refine Decidable.byContradiction fun hlost => ?_
      obtain ⟨j, hj, hjissue⟩ := hreported.mpr hlost
      exact hall j hj hjissue
    · exact fun hkept j hj hjissue => hreported.mp ⟨j, hj, hjissue⟩ hkept

theorem qualifierFits_of_letters {qualifier : String} (h : qualifier.toList.all Char.isAlpha = true)
    (hfree : qualifier ≠ "xmlns") : QualifierFits qualifier := by
  have hletter : ∀ c ∈ qualifier.toList, c.isAlpha = true := List.all_eq_true.mp h
  refine ⟨fun c hc => ⟨?_, ?_⟩, fun hhead => ?_, hfree⟩
  · rintro rfl
    exact absurd (hletter _ hc) (by decide)
  · rintro rfl
    exact absurd (hletter _ hc) (by decide)
  · exact absurd (hletter _ (List.mem_of_head? hhead)) (by decide)

/-- A manifest with the given text. -/
def manifestFile (contents : String) : File := { path := ⟨"AndroidManifest.xml"⟩, contents }

theorem isUnmarked_of_chars {file : File} {cs : List Char}
    (htext : file.contents.toList = '<' :: cs) : file.IsUnmarked := by
  rw [File.IsUnmarked, htext]
  show some '<' ≠ some Xml.byteOrderMark
  decide

/-- The root element calls the platform's namespace `a`, and `android` means something else at the
    application. -/
def renamedManifest : File :=
  manifestFile
    "<manifest xmlns:a='http://schemas.android.com/apk/res/android'><application xmlns:android='u' a:b='>'/></manifest>"

theorem backup_fix_kept_renamedManifest : renamedManifest.IsUnmarked ∧
    ∃ root i label edits contents root', renamedManifest.rootElement? = some root ∧
      root.tag = "manifest" ∧ QualifierFits (androidQualifier root) ∧
      i ∈ applicationIncidents false renamedManifest root ∧ i.issue = .allowBackup ∧
      i.fix = some (.edits label edits) ∧
      Edits.applyEdits renamedManifest.path renamedManifest.contents.toList edits = .ok contents ∧
      { renamedManifest with contents := String.ofList contents : File }.rootElement? =
        some root' ∧
      (∃ first rest, root'.childrenNamed "application" = first :: rest ∧
        first.androidValue? "allowBackup" = some "true") ∧
      ∀ j ∈ applicationIncidents false
          { renamedManifest with contents := String.ofList contents } root',
        j.issue ≠ .allowBackup := by
  have hmark : renamedManifest.IsUnmarked := isUnmarked_of_chars String.toList_ofList
  have hread : ∃ root, Xml.parse renamedManifest.contents.toList = .ok root ∧
      root.tag = "manifest" ∧ androidQualifier root = "a" ∧
      (∀ e ∈ root.children, QualifierKept root e) ∧
      ∃ i ∈ applicationIncidents false renamedManifest root, i.issue = .allowBackup :=
    Xml.exists_root_of_chars String.toList_ofList (by decide +kernel)
  obtain ⟨root, hparse, htag, hname, hkept, i, hi, hissue⟩ := hread
  have hroot := File.rootElement?_of_parse hparse
  have hfits : QualifierFits (androidQualifier root) :=
    hname ▸ qualifierFits_of_letters rfl (by decide)
  obtain ⟨label, edits, contents, root', front, application, back, a, hfix, happly, hroot',
    hcorrected, hvalue, hgone⟩ := backup_fix_kept hmark hroot hfits hi hissue
  have hbound := hkept application hcorrected.mem
  exact ⟨hmark, root, i, label, edits, contents, root', hroot, htag, hfits, hi, hissue, hfix,
    happly, hroot', hvalue.mpr hbound, hgone.mpr hbound⟩

/-- The application binds the qualifier of the root element to another namespace. -/
def reboundManifest : File :=
  manifestFile
    "<manifest xmlns:android='http://schemas.android.com/apk/res/android'><application xmlns:android='u'/></manifest>"

/-- **The correction can leave its incident**: the attribute is in the tree, and the application is
    reported again. -/
theorem backup_fix_rebound : reboundManifest.IsUnmarked ∧
    ∃ root i label edits contents root', reboundManifest.rootElement? = some root ∧
      root.tag = "manifest" ∧ QualifierFits (androidQualifier root) ∧
      i ∈ applicationIncidents false reboundManifest root ∧ i.issue = .allowBackup ∧
      i.fix = some (.edits label edits) ∧
      Edits.applyEdits reboundManifest.path reboundManifest.contents.toList edits = .ok contents ∧
      { reboundManifest with contents := String.ofList contents : File }.rootElement? =
        some root' ∧
      ∃ j ∈ applicationIncidents false
          { reboundManifest with contents := String.ofList contents } root',
        j.issue = .allowBackup := by
  have hmark : reboundManifest.IsUnmarked := isUnmarked_of_chars String.toList_ofList
  have hread : ∃ root, Xml.parse reboundManifest.contents.toList = .ok root ∧
      root.tag = "manifest" ∧ androidQualifier root = "android" ∧
      (∀ e ∈ root.children, ¬ QualifierKept root e) ∧
      ∃ i ∈ applicationIncidents false reboundManifest root, i.issue = .allowBackup :=
    Xml.exists_root_of_chars String.toList_ofList (by decide +kernel)
  obtain ⟨root, hparse, htag, hname, hlost, i, hi, hissue⟩ := hread
  have hroot := File.rootElement?_of_parse hparse
  have hfits : QualifierFits (androidQualifier root) :=
    hname ▸ qualifierFits_of_letters rfl (by decide)
  obtain ⟨label, edits, contents, root', front, application, back, a, hfix, happly, hroot',
    hcorrected, hnone⟩ := exists_corrected hmark hroot hfits hi hissue
  have hunbound := hlost application hcorrected.mem
  have hagain := (hcorrected.reported_iff (File.parse_of_rootElement? hroot') hfits.free hnone
    { reboundManifest with contents := String.ofList contents }).mpr hunbound
  exact ⟨hmark, root, i, label, edits, contents, root', hroot, htag, hfits, hi, hissue, hfix,
    happly, hroot', hagain⟩

end Check

end AndroidLint
