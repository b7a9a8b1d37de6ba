/-
  File:      AndroidLint/Proofs/SavedFiles.lean
  Subject:   Files that are written into folders.

  A file is saved by making the folders around it first. Whether that works is decided by the places
  that the path goes through: none of them may be a file, and the last one no folder. What is
  saved is found again under the same path:

  * `Path.components_parent?`:       the folder of a file has the steps of the file but the last;
  * `foldlM_makeStep_of_free`:       folders are made along a way that no file stands in;
  * `text_of_writeInFolders`:        what is written is read back;
  * `writeInFolders_of_hasRoomFor`:  a path that has room for a file can be written.
-/
import AndroidLint.Disk

namespace AndroidLint

/-! ## 1. Parts and the text they make -/

namespace Text

section Split

variable {separator : Char}

theorem splitOn_ne_nil (cs : List Char) : splitOn separator cs ≠ [] := by
  cases cs with
  | nil => simp [splitOn]
  | cons c cs =>
    unfold splitOn
    split
    · simp
    · split <;> simp

/-- No part holds the separator. -/
theorem notMem_of_mem_splitOn {cs l : List Char} (h : l ∈ splitOn separator cs) :
    separator ∉ l := by
  induction cs generalizing l with
  | nil =>
    rw [List.mem_singleton.mp h]
    exact List.not_mem_nil
  | cons c cs ih =>
    unfold splitOn at h
    split at h
    · rcases List.mem_cons.mp h with rfl | h
      · exact List.not_mem_nil
      · exact ih h
    · next hc =>
      split at h
      · next hnil => exact absurd hnil (splitOn_ne_nil cs)
      · next first rest hsplit =>
        rw [hsplit] at ih
        rcases List.mem_cons.mp h with rfl | h
        · exact List.not_mem_cons_of_ne_of_not_mem (Ne.symm hc) (ih List.mem_cons_self)
        · exact ih (List.mem_cons_of_mem first h)

theorem splitOn_of_notMem {l : List Char} (h : separator ∉ l) : splitOn separator l = [l] := by
  induction l with
  | nil => rfl
  | cons c l ih =>
    obtain ⟨hc, hl⟩ := not_or.mp (mt List.mem_cons.mpr h)
    rw [splitOn, if_neg (Ne.symm hc), ih hl]

theorem splitOn_append {l : List Char} (h : separator ∉ l) (rest : List Char) :
    splitOn separator (l ++ separator :: rest) = l :: splitOn separator rest := by
  induction l with
  | nil => rw [List.nil_append, splitOn, if_pos rfl]
  | cons c l ih =>
    obtain ⟨hc, hl⟩ := not_or.mp (mt List.mem_cons.mpr h)
    rw [List.cons_append, splitOn, if_neg (Ne.symm hc), ih hl]

/-- The parts of a text that was joined from parts are those parts. -/
theorem splitOn_joinWith {ls : List (List Char)} (hsome : ls ≠ []) (h : ∀ l ∈ ls, separator ∉ l) :
    splitOn separator (joinWith [separator] ls) = ls := by
  induction ls with
  | nil => exact absurd rfl hsome
  | cons l ls ih =>
    obtain ⟨hl, hls⟩ := List.forall_mem_cons.mp h
    cases ls with
    | nil => exact splitOn_of_notMem hl
    | cons m ms =>
      rw [joinWith, List.append_assoc, List.singleton_append, splitOn_append hl,
        ih (List.cons_ne_nil m ms) hls]
      exact List.cons_ne_nil m ms

end Split

theorem split_join {texts : List String} (hsome : texts ≠ []) (h : ∀ t ∈ texts, '/' ∉ t.toList) :
    split '/' (join "/" texts) = texts := by
  have hlists : ∀ l ∈ texts.map String.toList, '/' ∉ l := List.forall_mem_map.mpr h
  have hsplit := splitOn_joinWith (by simpa using hsome) hlists
  have hslash : "/".toList = ['/'] := String.toList_ofList
  rw [split, join, String.toList_ofList, hslash, hsplit, List.map_map]
  simp

end Text

/-! ## 2. The folder of a file -/

namespace Path

theorem notMem_of_mem_segments {p : Path} {s : String} (h : s ∈ p.segments) : '/' ∉ s.toList := by
  obtain ⟨l, hl, rfl⟩ := List.mem_map.mp h
  rw [String.toList_ofList]
  exact Text.notMem_of_mem_splitOn hl

/-- A path begins at the root when its first part is empty and others follow. -/
theorem isAbsolute_iff {p : Path} :
    p.isAbsolute = true ↔ ∃ s rest, p.segments = "" :: s :: rest := by
  unfold isAbsolute segments Text.hasHead Text.split
  have hslash : "/".toList = ['/'] := String.toList_ofList
  rw [hslash]
  cases p.text.toList with
  | nil => simp [Text.dropHead?, Text.splitOn]
  | cons c cs =>
    by_cases hc : c = '/'
    · rw [Text.splitOn, if_pos hc]
      cases h : Text.splitOn '/' cs with
      | nil => exact absurd h (Text.splitOn_ne_nil cs)
      | cons l ls => simp [Text.dropHead?, hc]
    · rw [Text.splitOn, if_neg hc]
      cases h : Text.splitOn '/' cs with
      | nil => exact absurd h (Text.splitOn_ne_nil cs)
      | cons l ls => simp [Text.dropHead?, Ne.symm hc]

/-- Of more parts than one, the first decides. -/
theorem isAbsolute_iff_head? {p : Path} (h : ∀ s, p.segments ≠ [s]) :
    p.isAbsolute = true ↔ p.segments.head? = some "" := by
  rw [isAbsolute_iff]
  constructor
  · rintro ⟨s, rest, hsegments⟩
    rw [hsegments, List.head?_cons]
  · intro hhead
    cases hsegments : p.segments with
    | nil => simp [hsegments] at hhead
    | cons first rest =>
      rw [hsegments, List.head?_cons, Option.some.injEq] at hhead
      subst hhead
      cases rest with
      | nil => exact absurd hsegments (h "")
      | cons s rest => exact ⟨s, rest, rfl⟩

/-- The steps that parts stand for. -/
def stepsOf (absolute : Bool) : List String → List Component
  | [] => []
  | s :: rest =>
    (if absolute then [.root] else (component? true s).toList) ++ rest.filterMap (component? false)

theorem components_eq (p : Path) : p.components = stepsOf p.isAbsolute p.segments := by
  unfold components stepsOf
  cases p.segments with
  | nil => rfl
  | cons s rest =>
    cases p.isAbsolute with
    | true => rfl
    | false => cases h : component? true s <;> simp [h]

theorem stepsOf_append (absolute : Bool) {parts : List String} (h : parts ≠ []) (s : String) :
    stepsOf absolute (parts ++ [s]) = stepsOf absolute parts ++ (component? false s).toList := by
  cases parts with
  | nil => exact absurd rfl h
  | cons t rest =>
    have hlast : [s].filterMap (component? false) = (component? false s).toList := by
      cases hs : component? false s <;> simp [hs]
    rw [List.cons_append, stepsOf, stepsOf, List.filterMap_append, hlast, List.append_assoc]

/-- The parts at the end that are no steps make no difference. -/
theorem stepsOf_trimParts (absolute : Bool) (parts : List String) :
    stepsOf absolute (trimParts parts).reverse = stepsOf absolute parts.reverse := by
  fun_induction trimParts parts with
  | case1 s t rest hs ih =>
    have hnone : component? false s = none := by
      rcases hs with rfl | rfl <;> rfl
    rw [ih, List.reverse_cons (a := s), stepsOf_append absolute (by simp), hnone, Option.toList_none,
      List.append_nil]
  | case2 => rfl
  | case3 => rfl

theorem getLast?_trimParts (parts : List String) : (trimParts parts).getLast? = parts.getLast? := by
  fun_induction trimParts parts with
  | case1 s t rest hs ih => rw [ih, List.getLast?_cons_cons]
  | case2 => rfl
  | case3 => rfl

/-- When parts are left, the last one is a step. -/
theorem isSome_of_trimParts {parts rest : List String} {s t : String}
    (h : trimParts parts = s :: t :: rest) : (component? false s).isSome = true := by
  fun_induction trimParts parts with
  | case1 s' t' rest' hs ih => exact ih h
  | case2 s' t' rest' hs =>
    cases h
    obtain ⟨hempty, hdot⟩ := not_or.mp hs
    unfold component?
    rw [if_neg hempty, if_neg hdot]
    split <;> rfl
  | case3 parts hshort => exact absurd h (hshort s t rest)

theorem mem_of_mem_trimParts {parts : List String} {s : String} (h : s ∈ trimParts parts) :
    s ∈ parts := by
  fun_induction trimParts parts with
  | case1 t u rest ht ih => exact List.mem_cons_of_mem t (ih h)
  | case2 => exact h
  | case3 => exact h

/-- The path of some parts has their steps. -/
theorem components_ofParts {absolute : Bool} {parts : List String} (hsome : parts ≠ [])
    (hparts : ∀ s ∈ parts, '/' ∉ s.toList)
    (habsolute : absolute = true ↔ parts.getLast? = some "") :
    (ofParts absolute parts).components = stepsOf absolute parts.reverse := by
  unfold ofParts
  split
  · next hroot =>
    obtain ⟨rfl, hparts⟩ := Bool.and_eq_true_iff.mp hroot
    rw [beq_iff_eq.mp hparts]
    rfl
  · next hroot =>
    have hsegments : (Path.mk (Text.join "/" parts.reverse)).segments = parts.reverse :=
      Text.split_join (by simpa using hsome) fun s hs => hparts s (List.mem_reverse.mp hs)
    have hsame : (Path.mk (Text.join "/" parts.reverse)).isAbsolute = absolute := by
      rw [Bool.eq_iff_iff, isAbsolute_iff, hsegments, habsolute, ← List.head?_reverse]
      constructor
      · rintro ⟨s, rest, h⟩
        rw [h, List.head?_cons]
      · intro hhead
        cases h : parts.reverse with
        | nil => simp [h] at hhead
        | cons first rest =>
          rw [h, List.head?_cons, Option.some.injEq] at hhead
          subst hhead
          cases rest with
          | cons s rest => exact ⟨s, rest, rfl⟩
          | nil =>
            -- the root alone is another case
            have hparts : parts = [""] := by simpa using congrArg List.reverse h
            exact absurd (by simp [habsolute, hparts]) hroot
    rw [components_eq, hsegments, hsame]

/-- **The folder of a file has the steps of the file but the last.** -/
theorem components_parent? {p : Path} {front : List Component} {n : String}
    (h : p.components = front ++ [.name n]) :
    ∃ folder, p.parent? = some folder ∧ folder.components = front := by
  have hsteps := stepsOf_trimParts p.isAbsolute p.segments.reverse
  rw [List.reverse_reverse, ← components_eq, h] at hsteps
  have hfirst := getLast?_trimParts p.segments.reverse
  rw [List.getLast?_reverse] at hfirst
  unfold parent?
  split
  · next hnil =>
    rw [hnil] at hsteps
    simp [stepsOf] at hsteps
  · next s hs =>
    -- one part, which is the name itself
    rw [hs, List.reverse_singleton, stepsOf, List.filterMap_nil, List.append_nil] at hsteps
    cases habs : p.isAbsolute with
    | true =>
      rw [habs, if_pos rfl] at hsteps
      exact absurd (congrArg List.getLast? hsteps) (by simp)
    | false =>
      rw [habs, if_neg Bool.false_ne_true] at hsteps
      cases hc : component? true s with
      | none => simp [hc] at hsteps
      | some c =>
        have hname : (s == "") = false := by
          rw [beq_eq_false_iff_ne]
          rintro rfl
          cases hc
        have hfront : front = [] := by
          have hlength := congrArg List.length hsteps
          simpa [hc] using hlength
        refine ⟨⟨""⟩, by simp [hname], ?_⟩
        rw [hfront]
        rfl
  · next last rest hshort hlast =>
    cases rest with
    | nil => exact absurd rfl hshort
    | cons t rest =>
      obtain ⟨c, hc⟩ := Option.isSome_iff_exists.mp (isSome_of_trimParts hlast)
      rw [hlast, List.reverse_cons, stepsOf_append _ (by simp), hc] at hsteps
      rw [hlast, List.getLast?_cons_cons, ← getLast?_trimParts] at hfirst
      have hsome : trimParts (t :: rest) ≠ [] := by
        have hlength := getLast?_trimParts (t :: rest)
        rintro hnil
        simp [hnil, List.getLast?_cons] at hlength
      refine ⟨_, rfl, ?_⟩
      rw [components_ofParts hsome, stepsOf_trimParts]
      · exact (List.append_inj' hsteps rfl).1
      · intro s hs
        refine notMem_of_mem_segments (p := p) (List.mem_reverse.mp (mem_of_mem_trimParts ?_))
        rw [hlast]
        exact List.mem_cons_of_mem last (mem_of_mem_trimParts hs)
      · rw [hfirst]
        refine isAbsolute_iff_head? fun s hs => ?_
        simp [hs, trimParts] at hlast

end Path

/-! ## 3. The places that a path goes through -/

namespace Disk

/-- Where one step leads. -/
def go (place : Place) : Path.Component → Place
  | .root => []
  | .current => place
  | .parent => place.dropLast
  | .name n => place ++ [n]

/-- Where steps lead, one after the other. -/
def way (place : Place) : List Path.Component → List Place
  | [] => []
  | c :: cs => go place c :: way (go place c) cs

/-- Where steps lead in the end. -/
def goal (place : Place) (cs : List Path.Component) : Place := cs.foldl go place

/-- No file stands at the place. -/
def IsFree (d : Disk) (place : Place) : Prop := ∀ c, d.get? place ≠ some (.file c)

variable {d d' : Disk}

/-- A step leaves a folder. -/
theorem step_eq_ok {place next : Place} {c : Path.Component} :
    d.step place c = .ok next ↔ d.get? place = some .folder ∧ next = go place c := by
  unfold step
  cases d.get? place with
  | none => simp
  | some e =>
    cases e with
    | file => simp
    | folder => cases c <;> simp [go, eq_comm]

/-- A way through folders leads to its goal. -/
theorem foldlM_step_of_folders {place : Place} {cs : List Path.Component}
    (h : ∀ q ∈ place :: way place cs, d.get? q = some .folder) :
    cs.foldlM d.step place = .ok (goal place cs) := by
  induction cs generalizing place with
  | nil => rfl
  | cons c cs ih =>
    obtain ⟨hplace, hway⟩ := List.forall_mem_cons.mp h
    rw [List.foldlM_cons, step_eq_ok.mpr ⟨hplace, rfl⟩]
    exact ih hway

theorem goal_mem_way (place : Place) (cs : List Path.Component) :
    goal place cs ∈ place :: way place cs := by
  induction cs generalizing place with
  | nil => exact List.mem_cons_self
  | cons c cs ih => exact List.mem_cons_of_mem place (ih (go place c))

/-! ## 4. Making folders -/

/-- The disk `d'` is `d` with folders at some places. -/
structure WithFolders (d d' : Disk) (places : List Place) : Prop where
  here : d'.here = d.here
  made : ∀ q ∈ places, d'.get? q = some .folder
  kept : ∀ q, q ∉ places → d'.get? q = d.get? q

theorem makeStep_of_free {place : Place} (h : d.get? place = some .folder) {c : Path.Component}
    (hfree : d.IsFree (go place c)) :
    ∃ d', makeStep (d, place) c = .ok (d', go place c) ∧ d.WithFolders d' [go place c] := by
  have hstep : d.step place c = .ok (go place c) := step_eq_ok.mpr ⟨h, rfl⟩
  simp only [makeStep, hstep, bind, Except.bind]
  cases hnext : d.get? (go place c) with
  | none =>
    have htop : go place c ≠ [] := by
      intro htop
      rw [htop] at hnext
      cases hnext
    refine ⟨d.set (go place c) .folder, rfl, rfl, fun q hq => ?_, fun q hq => ?_⟩
    · rw [get?_set d _ q _ htop, if_pos (List.mem_singleton.mp hq)]
    · rw [get?_set d _ q _ htop, if_neg (mt List.mem_singleton.mpr hq)]
  | some e =>
    cases e with
    | file contents => exact absurd hnext (hfree contents)
    | folder =>
      refine ⟨d, rfl, rfl, fun q hq => ?_, fun q _ => rfl⟩
      rw [List.mem_singleton.mp hq, hnext]

/-- **Folders are made along a way that no file stands in, and nowhere else.** -/
theorem foldlM_makeStep_of_free {place : Place} (h : d.get? place = some .folder)
    {cs : List Path.Component} (hfree : ∀ q ∈ way place cs, d.IsFree q) :
    ∃ d', cs.foldlM makeStep (d, place) = .ok (d', goal place cs) ∧
      d.WithFolders d' (way place cs) := by
  induction cs generalizing d place with
  | nil => exact ⟨d, rfl, rfl, fun q hq => absurd hq List.not_mem_nil, fun q _ => rfl⟩
  | cons c cs ih =>
    obtain ⟨hnext, hrest⟩ := List.forall_mem_cons.mp hfree
    obtain ⟨d₁, hstep, hfirst⟩ := makeStep_of_free h hnext
    have hfree₁ : ∀ q ∈ way (go place c) cs, d₁.IsFree q := by
      intro q hq contents
      by_cases hmem : q ∈ [go place c]
      · simp [hfirst.made q hmem]
      · rw [hfirst.kept q hmem]
        exact hrest q hq contents
    obtain ⟨d', hrun, hothers⟩ := ih (hfirst.made _ (List.mem_singleton_self _)) hfree₁
    refine ⟨d', ?_, hothers.here.trans hfirst.here, fun q hq => ?_, fun q hq => ?_⟩
    · rw [List.foldlM_cons, hstep]
      exact hrun
    · by_cases hmem : q ∈ way (go place c) cs
      · exact hothers.made q hmem
      · rw [hothers.kept q hmem, (List.mem_cons.mp hq).resolve_right hmem]
        exact hfirst.made _ (List.mem_singleton_self _)
    · obtain ⟨hne, hmem⟩ := not_or.mp (mt List.mem_cons.mpr hq)
      rw [hothers.kept q hmem, hfirst.kept q (mt List.mem_singleton.mp hne)]

/-! ## 5. Writing and reading back -/

theorem write_eq_ok {p : Path} {c : Contents} :
    d.write p c = .ok d' ↔ ∃ place, d.locate p = .ok place ∧
      d.get? place.dropLast = some .folder ∧ d.get? place ≠ some .folder ∧
      d' = d.set place (.file c) := by
  unfold write
  cases d.locate p with
  | error e => simp [bind, Except.bind]
  | ok place =>
    simp only [bind, Except.bind, Except.ok.injEq, exists_eq_left']
    cases d.get? place.dropLast with
    | none => simp
    | some e =>
      cases e with
      | file => simp
      | folder =>
        cases d.get? place with
        | none => simp [eq_comm]
        | some e => cases e <;> simp [eq_comm]

/-- What is put where no folder is leads no path elsewhere that came to its end. -/
theorem foldlM_step_set {place : Place} (hplace : d.get? place ≠ some .folder) (e : Entry)
    {cs : List Path.Component} {start goal : Place} (h : cs.foldlM d.step start = .ok goal) :
    cs.foldlM (d.set place e).step start = .ok goal := by
  have htop : place ≠ [] := by
    rintro rfl
    exact hplace rfl
  induction cs generalizing start with
  | nil => exact h
  | cons c cs ih =>
    rw [List.foldlM_cons] at h ⊢
    cases hstep : d.step start c with
    | error e => simp [hstep, bind, Except.bind] at h
    | ok next =>
      rw [hstep] at h
      obtain ⟨hfolder, hnext⟩ := step_eq_ok.mp hstep
      have hstart : (d.set place e).get? start = some .folder := by
        rw [get?_set d place start e htop, if_neg, hfolder]
        rintro rfl
        exact hplace hfolder
      rw [step_eq_ok.mpr ⟨hstart, hnext⟩]
      exact ih h

/-- **What is written is read back.** -/
theorem text_of_write {p : Path} {s : String} (h : d.write p (.text s) = .ok d') :
    d'.text p = .ok s := by
  obtain ⟨place, hlocate, _, hplace, rfl⟩ := write_eq_ok.mp h
  have htop : place ≠ [] := by
    rintro rfl
    exact hplace rfl
  have hlocate' : (d.set place (.file (.text s))).locate p = .ok place := by
    unfold locate at hlocate ⊢
    split at hlocate
    · cases hlocate
    · next hempty =>
      rw [if_neg hempty]
      exact foldlM_step_set hplace _ hlocate
  have hget : (d.set place (.file (.text s))).get? place = some (.file (.text s)) := by
    rw [get?_set d place place _ htop, if_pos rfl]
  simp only [text, contents, hlocate', hget, bind, Except.bind]

theorem text_of_writeInFolders {p : Path} {s : String}
    (h : d.writeInFolders p (.text s) = .ok d') : d'.text p = .ok s := by
  unfold writeInFolders at h
  split at h
  · next folder _ =>
    cases hmade : d.makeFolders folder with
    | error e => simp [hmade, bind, Except.bind] at h
    | ok d₁ =>
      simp only [hmade, bind, Except.bind] at h
      exact text_of_write h
  · exact text_of_write h

/-- The path leads through places where no file stands to a place that is no folder and that it does
    not go through. -/
structure HasRoomFor (d : Disk) (p : Path) : Prop where
  here : d.get? d.here = some .folder
  room : ∃ front n, p.components = front ++ [.name n] ∧
    (∀ q ∈ way d.here front, d.IsFree q) ∧
    goal d.here front ++ [n] ∉ way d.here front ∧
    d.get? (goal d.here front ++ [n]) ≠ some .folder

/-- **A path that has room for a file can be written.** -/
theorem writeInFolders_of_hasRoomFor {p : Path} (h : d.HasRoomFor p) (c : Contents) :
    ∃ d', d.writeInFolders p c = .ok d' := by
  obtain ⟨front, n, hsteps, hfree, hnew, hplace⟩ := h.room
  obtain ⟨folder, hparent, rfl⟩ := Path.components_parent? hsteps
  obtain ⟨d₁, hmake, hfolders⟩ := foldlM_makeStep_of_free h.here hfree
  have hway : ∀ q ∈ d.here :: way d.here folder.components, d₁.get? q = some .folder := by
    intro q hq
    by_cases hmem : q ∈ way d.here folder.components
    · exact hfolders.made q hmem
    · rw [hfolders.kept q hmem, (List.mem_cons.mp hq).resolve_right hmem, h.here]
  have hgoal := hway _ (goal_mem_way d.here folder.components)
  have hlocate : d₁.locate p = .ok (goal d.here folder.components ++ [n]) := by
    have hempty : p.text ≠ "" := by
      intro hempty
      have hnone : (Path.mk "").components = [] := rfl
      rw [show p = Path.mk "" from congrArg Path.mk hempty, hnone] at hsteps
      simp at hsteps
    have hlast : d₁.step (goal d.here folder.components) (.name n) =
        .ok (goal d.here folder.components ++ [n]) := step_eq_ok.mpr ⟨hgoal, rfl⟩
    rw [locate, if_neg hempty, hfolders.here, hsteps, List.foldlM_append,
      foldlM_step_of_folders hway]
    simp only [bind, Except.bind, List.foldlM_cons, hlast]
    rfl
  refine ⟨d₁.set (goal d.here folder.components ++ [n]) (.file c), ?_⟩
  simp only [writeInFolders, hparent, makeFolders, hmake, bind, Except.bind, pure, Except.pure]
  refine write_eq_ok.mpr ⟨_, hlocate, ?_, ?_, rfl⟩
  · rwa [List.dropLast_concat]
  · rwa [hfolders.kept _ hnew]

end Disk

end AndroidLint
