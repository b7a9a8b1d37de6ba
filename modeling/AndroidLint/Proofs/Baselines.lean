/-
  File:      AndroidLint/Proofs/Baselines.lean
  Subject:   What baselines keep and what they hide.

  A baseline is written as JSON and read back without loss, so a later run judges its incidents by
  exactly those that were recorded. A record hides every incident that is near to it, be it one or
  many; what it does not hide is another issue, file or message:

  * `ofText_text`:      the text of a baseline is that baseline;
  * `load_of_save`:     a baseline that is saved is loaded again;
  * `covers_iff`:       the incidents that a record covers;
  * `saved_newOnes`:    incidents are new exactly if none like them was recorded;
  * `newOnes_hidden`:   a baseline hides incidents of no more kinds than it has records;
  * `newOnes_crowded`:  two incidents that one record hides.
-/
import Mathlib.Data.List.Basic
import AndroidLint.Baseline.Store
import AndroidLint.Proofs.JsonText
import AndroidLint.Proofs.SavedFiles

namespace AndroidLint

/-! ## 1. Baselines as JSON -/

namespace Json.Value

theorem below?_of_lt {limit n : Nat} (h : n < limit) : (nat n).below? limit = some n := if_pos h

end Json.Value

namespace Fingerprint

theorem isPlain_encode {f : Fingerprint} (h : f.line < UInt64.size) : f.encode.IsPlain := by
  refine .obj fun m hm => ?_
  simp only [List.mem_cons, List.not_mem_nil, or_false] at hm
  rcases hm with rfl | rfl | rfl | rfl
  · exact .str _
  · exact .str _
  · exact .str _
  · exact .nat h

theorem decode?_encode {f : Fingerprint} (h : f.line < UInt64.size) :
    decode? f.encode = some f := by
  have hrecord : f.encode.record? ["id", "file", "message", "line"] =
      some [.str f.id, .str f.file, .str f.message, .nat f.line] := rfl
  simp only [decode?, hrecord, Json.Value.text?, Json.Value.below?_of_lt h, Option.bind_eq_bind,
    Option.bind_some, Option.pure_def]

end Fingerprint

namespace Baseline

/-- The numbers of the baseline have as many bits as they are kept with. -/
structure Fits (b : Baseline) : Prop where
  version : b.version = currentVersion
  createdAt : b.createdAt < UInt64.size
  lines : ∀ f ∈ b.fingerprints, f.line < UInt64.size

theorem Fits.isPlain_encode {b : Baseline} (h : b.Fits) : b.encode.IsPlain := by
  refine .obj fun m hm => ?_
  simp only [List.mem_cons, List.not_mem_nil, or_false] at hm
  rcases hm with rfl | rfl | rfl
  · refine .nat ?_
    rw [h.version]
    decide
  · exact .nat h.createdAt
  · exact .arr (List.forall_mem_map.mpr fun f hf => Fingerprint.isPlain_encode (h.lines f hf))

theorem mapM_decode?_encode {fs : List Fingerprint} (h : ∀ f ∈ fs, f.line < UInt64.size) :
    (fs.map Fingerprint.encode).mapM Fingerprint.decode? = some fs := by
  induction fs with
  | nil => rfl
  | cons f fs ih =>
    obtain ⟨hf, hfs⟩ := List.forall_mem_cons.mp h
    rw [List.map_cons, List.mapM_cons, Fingerprint.decode?_encode hf, ih hfs]
    rfl

theorem Fits.decode?_encode {b : Baseline} (h : b.Fits) : decode? b.encode = some b := by
  have hrecord : b.encode.record? ["version", "created_at", "incidents"] =
      some [.nat b.version, .nat b.createdAt, .ofList Fingerprint.encode b.fingerprints] := rfl
  have hversion : b.version < UInt32.size := by
    rw [h.version]
    decide
  simp only [decode?, hrecord, Json.Value.ofList, Json.Value.items?, mapM_decode?_encode h.lines,
    Json.Value.below?_of_lt hversion, Json.Value.below?_of_lt h.createdAt, Option.bind_eq_bind,
    Option.bind_some, Option.pure_def]

/-- **The text of a baseline is that baseline.** -/
theorem Fits.ofText_text {b : Baseline} (h : b.Fits) : ofText b.text = .ok b := by
  have hparse : (Json.parse? b.text >>= decode?) = some b := by
    rw [text, Json.parse?_pretty h.isPlain_encode, Option.bind_eq_bind, Option.bind_some,
      h.decode?_encode]
  rw [ofText, hparse]
  exact if_pos h.version

/-- **A baseline that is saved is loaded again.** -/
theorem Fits.load_of_save {b : Baseline} (h : b.Fits) {d d' : Disk} {file : Path}
    (hsave : save d file b = .ok d') : load d' file = .ok b := by
  unfold save at hsave
  split at hsave
  · next hwrite =>
    cases hsave
    rw [load, Disk.text_of_writeInFolders hwrite]
    exact h.ofText_text
  · cases hsave

theorem save_of_hasRoomFor {d : Disk} {file : Path} (h : d.HasRoomFor file) (b : Baseline) :
    ∃ d', save d file b = .ok d' := by
  obtain ⟨d', hwrite⟩ := Disk.writeInFolders_of_hasRoomFor h (.text b.text)
  exact ⟨d', by rw [save, hwrite]⟩

end Baseline

/-! ## 2. Incidents that are known -/

/-- Two lines are at most ten apart, or one of them is missing. -/
def NearLines (a b : Nat) : Prop := a = 0 ∨ b = 0 ∨ ((a : Int) - b).natAbs ≤ 10

/-- An incident recurs as another one: both are of the same issue, file and message, and their lines
    are near. -/
def Incident.RecursAs (i j : Incident) : Prop :=
  i.issue.id = j.issue.id ∧ i.location.file.display = j.location.file.display ∧
    i.message = j.message ∧ NearLines i.location.line j.location.line

instance (a b : Nat) : Decidable (NearLines a b) :=
  inferInstanceAs (Decidable (_ ∨ _ ∨ _))

instance (i j : Incident) : Decidable (i.RecursAs j) :=
  inferInstanceAs (Decidable (_ ∧ _ ∧ _ ∧ _))

theorem Incident.RecursAs.refl (i : Incident) : i.RecursAs i := by
  refine ⟨rfl, rfl, rfl, Or.inr (Or.inr ?_)⟩
  rw [Int.sub_self]
  decide

/-- What an incident says of which file. -/
def Incident.subject (i : Incident) : String × String × String :=
  (i.issue.id, i.location.file.display, i.message)

/-- What the incidents of a record say of which file. -/
def Fingerprint.subject (f : Fingerprint) : String × String × String := (f.id, f.file, f.message)

theorem Fingerprint.nearLines_iff {a b : Nat} : nearLines a b = true ↔ NearLines a b := by
  have htolerance : tolerance = 10 := rfl
  simp only [nearLines, NearLines, Bool.or_eq_true, Bool.and_eq_true, decide_eq_true_eq]
  omega

/-- A record covers the incidents that say the same and are near. -/
theorem Fingerprint.covers_iff {f : Fingerprint} {j : Incident} :
    f.covers j = true ↔ f.subject = j.subject ∧ NearLines f.line j.location.line := by
  simp only [covers, Bool.and_eq_true, beq_iff_eq, nearLines_iff, subject, Incident.subject,
    Prod.mk.injEq]
  constructor
  · rintro ⟨⟨⟨hid, hmessage⟩, hfile⟩, hnear⟩
    exact ⟨⟨hid, hfile, hmessage⟩, hnear⟩
  · rintro ⟨⟨hid, hfile, hmessage⟩, hnear⟩
    exact ⟨⟨⟨hid, hmessage⟩, hfile⟩, hnear⟩

namespace Baseline

theorem covers_iff {b : Baseline} {j : Incident} :
    b.covers j = true ↔
      ∃ f ∈ b.fingerprints, f.subject = j.subject ∧ NearLines f.line j.location.line := by
  simp only [covers, List.any_eq_true, Fingerprint.covers_iff]

theorem covers_ofIncidents {createdAt : Nat} {known : List Incident} {j : Incident} :
    (ofIncidents createdAt known).covers j = true ↔ ∃ i ∈ known, i.RecursAs j := by
  simp only [covers, ofIncidents, List.any_map, List.any_eq_true, Function.comp_apply,
    Fingerprint.covers_iff, Fingerprint.ofIncident, Fingerprint.subject, Incident.subject,
    Prod.mk.injEq, and_assoc, Incident.RecursAs]

/-- Every incident is counted as known or as new. -/
theorem counts_new (b : Baseline) (is : List Incident) :
    (b.counts is).new = (b.newOnes is).length ∧
      (b.counts is).covered + (b.counts is).new = is.length := by
  have hsplit : is.countP b.covers + (b.newOnes is).length = is.length := by
    have h := List.length_eq_countP_add_countP b.covers (l := is)
    rw [newOnes, ← List.countP_eq_length_filter, h]
    simp
  simp only [counts]
  omega

/-- **What is recorded is kept, and hides exactly what recurs.** Where there is room for the file,
    the baseline of some incidents can be saved; once it is saved, it is loaded again as it was. With
    it, an incident is new exactly if none of the recorded ones recurs as it; none of these is new
    itself, and every incident is counted once, as known or as new. -/
theorem saved_newOnes (d : Disk) (file : Path) (createdAt : Nat) (known : List Incident)
    (htime : createdAt < UInt64.size) (hlines : ∀ i ∈ known, i.location.line < UInt64.size) :
    (d.HasRoomFor file → ∃ d', save d file (ofIncidents createdAt known) = .ok d') ∧
    ∀ d', save d file (ofIncidents createdAt known) = .ok d' →
      ∃ b, load d' file = .ok b ∧
        b.version = currentVersion ∧ b.createdAt = createdAt ∧
        b.fingerprints = known.map Fingerprint.ofIncident ∧
        (∀ current, b.newOnes current = current.filter fun j => ∀ i ∈ known, ¬ i.RecursAs j) ∧
        b.newOnes known = [] ∧
        ∀ current, (b.counts current).new = (b.newOnes current).length ∧
          (b.counts current).covered + (b.counts current).new = current.length := by
  have hfits : (ofIncidents createdAt known).Fits := ⟨rfl, htime, List.forall_mem_map.mpr hlines⟩
  have hnew : ∀ current, (ofIncidents createdAt known).newOnes current =
      current.filter fun j => ∀ i ∈ known, ¬ i.RecursAs j := by
    intro current
    refine List.filter_congr fun j _ => ?_
    rw [Bool.eq_iff_iff, Bool.not_eq_true', decide_eq_true_iff, ← Bool.not_eq_true,
      covers_ofIncidents, not_exists]
    simp only [not_and]
  refine ⟨fun hroom => save_of_hasRoomFor hroom _, fun d' hsave => ?_⟩
  refine ⟨_, hfits.load_of_save hsave, rfl, rfl, rfl, hnew, ?_, counts_new _⟩
  rw [hnew, List.filter_eq_nil_iff]
  intro j hj hnone
  exact of_decide_eq_true hnone j hj (.refl j)

/-- An incident at a line, whose message needs escapes. -/
def noticedAt (line : Nat) : Incident :=
  .new .duplicateDefinition ⟨⟨"res/values/a.xml"⟩, some ⟨0, 0, line, 0, line, 0⟩, none⟩
    "\"é\"\n\x01"

theorem saved_newOnes_escapes :
    Disk.HasRoomFor {} ⟨"out/known.json"⟩ ∧
      ∃ (d' : Disk) (b : Baseline),
        save {} ⟨"out/known.json"⟩ (ofIncidents 7 [noticedAt 3]) = .ok d' ∧
        load d' ⟨"out/known.json"⟩ = .ok b ∧
        b.fingerprints = [⟨"DuplicateDefinition", "res/values/a.xml", "\"é\"\n\x01", 3⟩] ∧
        b.newOnes [noticedAt 13, noticedAt 14] = [noticedAt 14] := by
  have hroom : Disk.HasRoomFor {} ⟨"out/known.json"⟩ := by
    refine ⟨rfl, [.name "out"], "known.json", by decide +kernel, ?_, by decide, ?_⟩
    · intro q hq c
      rw [List.mem_singleton.mp hq]
      intro h
      cases h
    · intro h
      cases h
  obtain ⟨hsaves, hloads⟩ := saved_newOnes {} ⟨"out/known.json"⟩ 7 [noticedAt 3] (by decide)
    (by decide)
  obtain ⟨d', hsave⟩ := hsaves hroom
  obtain ⟨b, hload, _, _, hfingerprints, hnew, _⟩ := hloads d' hsave
  refine ⟨hroom, d', b, hsave, hload, ?_, ?_⟩
  · rw [hfingerprints]
    decide +kernel
  · rw [hnew]
    rfl

/-! ## 3. How much a baseline hides -/

/-- Incidents that are covered, no two of them by one record, are no more than the records. -/
theorem length_le_of_covered {fs : List Fingerprint} {hidden : List Incident}
    (hcovered : ∀ j ∈ hidden, ∃ f ∈ fs, f.covers j = true)
    (hapart : hidden.Pairwise fun i j => ∀ f ∈ fs, ¬ (f.covers i = true ∧ f.covers j = true)) :
    hidden.length ≤ fs.length := by
  induction fs generalizing hidden with
  | nil =>
    cases hidden with
    | nil => exact Nat.le_refl _
    | cons j hidden => simpa using hcovered j List.mem_cons_self
  | cons f fs ih =>
    -- the first record covers at most one of them, and the others cover the rest
    have hpairs : (hidden.filter f.covers).Pairwise fun _ _ => False := by
      refine (hapart.sublist List.filter_sublist).imp_of_mem fun hi hj h => ?_
      exact h f List.mem_cons_self ⟨(List.mem_filter.mp hi).2, (List.mem_filter.mp hj).2⟩
    have hone : (hidden.filter f.covers).length ≤ 1 := by
      cases hfirst : hidden.filter f.covers with
      | nil => exact Nat.zero_le 1
      | cons i rest =>
        cases rest with
        | nil => exact Nat.le_refl 1
        | cons j rest =>
          rw [hfirst] at hpairs
          exact (List.rel_of_pairwise_cons hpairs List.mem_cons_self).elim
    have hrest : (hidden.filter (!f.covers ·)).length ≤ fs.length := by
      refine ih (fun j hj => ?_) ?_
      · obtain ⟨hmem, hnot⟩ := List.mem_filter.mp hj
        obtain ⟨g, hg, hcover⟩ := hcovered j hmem
        rcases List.mem_cons.mp hg with rfl | hg
        · simp [hcover] at hnot
        · exact ⟨g, hg, hcover⟩
      · exact (hapart.sublist List.filter_sublist).imp fun h g hg => h g (List.mem_cons_of_mem f hg)
    have hsplit : hidden.length =
        (hidden.filter f.covers).length + (hidden.filter (!f.covers ·)).length :=
      List.length_eq_length_filter_add f.covers
    rw [hsplit, List.length_cons]
    omega

end Baseline

/-- Two incidents are far from each other: they say different things, or they have lines, and these
    are more than twenty apart. -/
def Incident.FarFrom (i j : Incident) : Prop :=
  i.subject ≠ j.subject ∨
    i.location.line ≠ 0 ∧ j.location.line ≠ 0 ∧
      20 < ((i.location.line : Int) - j.location.line).natAbs

theorem Incident.FarFrom.not_covers {i j : Incident} (h : i.FarFrom j) {f : Fingerprint}
    (hline : f.line ≠ 0) : ¬ (f.covers i = true ∧ f.covers j = true) := by
  rw [Fingerprint.covers_iff, Fingerprint.covers_iff]
  rintro ⟨⟨hi, hnear⟩, hj, hnear'⟩
  rcases h with h | ⟨hi0, hj0, hfar⟩
  · exact h (hi.symm.trans hj)
  · unfold NearLines at hnear hnear'
    omega

namespace Baseline

/-- **A baseline hides every incident that is near to one of its records**, however many there are.
    Of the incidents that it hides no more say different things than it has records; and it hides no
    more incidents than it has records, where the records have lines and the incidents are far from
    each other. -/
theorem newOnes_hidden (b : Baseline) (current : List Incident) :
    (∀ j, j ∈ b.newOnes current ↔ j ∈ current ∧
      ∀ f ∈ b.fingerprints, ¬ (f.subject = j.subject ∧ NearLines f.line j.location.line)) ∧
    (∀ hidden : List Incident, hidden.Sublist (current.filter b.covers) →
      (hidden.map Incident.subject).Nodup → hidden.length ≤ b.fingerprints.length) ∧
    ((∀ f ∈ b.fingerprints, f.line ≠ 0) → current.Pairwise Incident.FarFrom →
      current.length - (b.newOnes current).length ≤ b.fingerprints.length) := by
  have hcovered : ∀ {hidden : List Incident}, hidden.Sublist (current.filter b.covers) →
      ∀ j ∈ hidden, ∃ f ∈ b.fingerprints, f.covers j = true := by
    intro hidden hsub j hj
    exact List.any_eq_true.mp (List.mem_filter.mp (hsub.subset hj)).2
  refine ⟨fun j => ?_, fun hidden hsub hsubjects => ?_, fun hlines hfar => ?_⟩
  · rw [newOnes, List.mem_filter, Bool.not_eq_true', ← Bool.not_eq_true, covers_iff, not_exists]
    simp only [not_and]
  · refine length_le_of_covered (hcovered hsub) ?_
    refine (List.pairwise_map.mp hsubjects).imp fun hne f _ hboth => ?_
    rw [Fingerprint.covers_iff, Fingerprint.covers_iff] at hboth
    exact hne (hboth.1.1.symm.trans hboth.2.1)
  · have hhidden : (current.filter b.covers).length ≤ b.fingerprints.length := by
      refine length_le_of_covered (hcovered (List.Sublist.refl _)) ?_
      exact (hfar.sublist List.filter_sublist).imp fun h f hf => h.not_covers (hlines f hf)
    have hsplit : current.length = (current.filter b.covers).length + (b.newOnes current).length :=
      List.length_eq_length_filter_add b.covers
    omega

/-- **One record hides two incidents.** The incident that came next to the one that is recorded is
    not reported. -/
theorem newOnes_crowded :
    (ofIncidents 7 [noticedAt 3]).newOnes [noticedAt 3, noticedAt 4] = [] ∧
      ¬ ∀ (b : Baseline) (current : List Incident),
        current.length - (b.newOnes current).length ≤ b.fingerprints.length := by
  have hnone : (ofIncidents 7 [noticedAt 3]).newOnes [noticedAt 3, noticedAt 4] = [] := by
    rfl
  refine ⟨hnone, fun h => ?_⟩
  have hcount := h (ofIncidents 7 [noticedAt 3]) [noticedAt 3, noticedAt 4]
  rw [hnone] at hcount
  revert hcount
  decide

end Baseline

end AndroidLint
