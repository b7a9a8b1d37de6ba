/-
  File:      AndroidLint/Proofs/ClassNames.lean
  Subject:   Which class a name in source code means.

  A class is found by its qualified name, or by an end of that name behind a dot. The classes of a
  project can be kept in a map by qualified name, in which a later declaration takes the place of
  an earlier one. Only the last way to find a class goes through all entries of the map, and it asks
  for the one that it finds to be alone:

  * `eq_or_isEndOf_of_mem_readings`:  what a short name is tried as is the name or ends in it;
  * `onlyEnding?_eq_some_iff`:        the last way finds the class whose name alone ends in it;
  * `classIndex_getElem?`:            the map has the class that is declared last;
  * `findInOrder_eq_find?`:           the order of its entries does not matter;
  * `find?_unambiguous`:              what the search for a class finds, and when.
-/
import AndroidLint.Proofs.Beginnings
import AndroidLint.Source.Classes
import Mathlib.Data.List.Nodup
import Mathlib.Data.List.TakeDrop
import Mathlib.Data.List.TakeWhile
import Std.Data.HashMap

namespace AndroidLint

/-! ## 1. Ends of names -/

namespace Text

theorem hasTail_iff {tail text : String} :
    hasTail tail text = true ↔ ∃ front, text = front ++ tail := by
  rw [hasTail, dropHead?_isSome_iff, List.reverse_prefix]
  constructor
  · rintro ⟨front, hfront⟩
    refine ⟨String.ofList front, String.ext ?_⟩
    rw [String.toList_append, String.toList_ofList, hfront]
  · rintro ⟨front, rfl⟩
    exact ⟨front.toList, String.toList_append.symm⟩

theorem eq_append_of_splitLast? {text front last : String}
    (h : splitLast? '.' text = some (front, last)) : text = front ++ "." ++ last := by
  have hparts := List.takeWhile_append_dropWhile (p := (· != '.')) (l := text.toList.reverse)
  unfold splitLast? at h
  rw [List.span_eq_takeWhile_dropWhile] at h
  cases hdrop : text.toList.reverse.dropWhile (· != '.') with
  | nil =>
    rw [hdrop] at h
    cases h
  | cons d before =>
    have hdot : d = '.' := by
      have hhead := List.head_dropWhile_not (· != '.') (l := text.toList.reverse)
        (by rw [hdrop]; exact List.cons_ne_nil d before)
      simpa [hdrop] using hhead
    rw [hdrop] at h hparts
    cases h
    refine String.ext ?_
    calc text.toList = (text.toList.reverse.takeWhile (· != '.') ++ d :: before).reverse := by
          rw [hparts, List.reverse_reverse]
      _ = _ := by simp [hdot]

/-- A text is its own last part, or has a separator before it. -/
theorem eq_lastPart_or_ends (text : String) :
    text = lastPart '.' text ∨ ∃ front, text = front ++ "." ++ lastPart '.' text := by
  unfold lastPart
  split
  · next front last h => exact Or.inr ⟨front, eq_append_of_splitLast? h⟩
  · exact Or.inl rfl

/-- A text is the part before its first separator followed by the rest. -/
theorem firstPart_append_rest (text : String) :
    let first := ((splitFirst? '.' text).map (·.1)).getD text
    first ++ String.ofList (text.toList.drop first.length) = text := by
  intro first
  have hbegins : first.toList <+: text.toList := by
    unfold first splitFirst?
    rw [List.span_eq_takeWhile_dropWhile]
    split
    · exact List.prefix_rfl
    · next head _ tail heq =>
      rw [Option.map_some, Option.getD_some, String.toList_ofList, ← (Prod.mk.inj heq).1]
      exact List.takeWhile_prefix _
  refine String.ext ?_
  rw [String.toList_append, String.toList_ofList, ← String.length_toList]
  exact List.prefix_iff_eq_append.mp hbegins

end Text

namespace Source

/-- A name ends another one, behind a dot. -/
def IsEndOf (name qualifiedName : String) : Prop := ∃ front, qualifiedName = front ++ "." ++ name

theorem hasTail_dot_iff {name q : String} :
    Text.hasTail ("." ++ name) q = true ↔ IsEndOf name q := by
  simp only [Text.hasTail_iff, IsEndOf, String.append_assoc]

namespace Sources

/-! ## 2. What a short name is tried as -/

/-- An import that ends in the first part of a name, followed by the rest of the name. -/
theorem eq_or_isEndOf_of_import {name imported : String}
    (h : Text.lastPart '.' imported = ((Text.splitFirst? '.' name).map (·.1)).getD name) :
    let first := ((Text.splitFirst? '.' name).map (·.1)).getD name
    let q := imported ++ String.ofList (name.toList.drop first.length)
    q = name ∨ IsEndOf name q := by
  intro first q
  have hname : first ++ String.ofList (name.toList.drop first.length) = name :=
    Text.firstPart_append_rest name
  rcases Text.eq_lastPart_or_ends imported with hwhole | ⟨front, hfront⟩
  · left
    rw [← hname]
    exact congrArg (· ++ _) (hwhole.trans h)
  · right
    refine ⟨front, ?_⟩
    calc q = front ++ "." ++ first ++ String.ofList (name.toList.drop first.length) :=
          congrArg (· ++ _) (hfront.trans (congrArg (front ++ "." ++ ·) h))
      _ = front ++ "." ++ name := by rw [String.append_assoc, hname]

/-- **What a short name is tried as is the name or ends in it.** -/
theorem eq_or_isEndOf_of_mem_readings {name q : String} {unit : CompilationUnit}
    (h : q ∈ readings name unit) : q = name ∨ IsEndOf name q := by
  simp only [readings, List.mem_append, List.mem_map, List.mem_filter, Option.mem_toList,
    Option.map_eq_some_iff, beq_iff_eq] at h
  rcases h with (⟨c, _, rfl⟩ | ⟨i, ⟨_, hi⟩, rfl⟩) | ⟨package, _, rfl⟩
  · exact Or.inr ⟨c.qualifiedName, rfl⟩
  · exact eq_or_isEndOf_of_import hi
  · exact Or.inr ⟨package, rfl⟩

/-! ## 3. Declared classes -/

theorem qualifiedName_of_declared? {s : Sources} {q : String} {d : CompilationUnit × ClassDecl}
    (h : s.declared? q = some d) : d.2.qualifiedName = q := by
  have hfound := List.find?_some h
  exact beq_iff_eq.mp hfound

theorem declared?_isSome_iff {s : Sources} {q : String} :
    (s.declared? q).isSome ↔ q ∈ s.qualifiedNames := by
  rw [declared?, List.find?_isSome, qualifiedNames, List.mem_map]
  simp only [beq_iff_eq]

/-- The class is the one that its qualified name means, and is declared in the file. -/
def DeclaredIn (s : Sources) (unit : CompilationUnit) (c : ClassDecl) : Prop :=
  s.declared? c.qualifiedName = some (unit, c)

theorem declaredIn_of_declared? {s : Sources} {q : String} {unit : CompilationUnit} {c : ClassDecl}
    (h : s.declared? q = some (unit, c)) : s.DeclaredIn unit c := by
  rw [DeclaredIn, qualifiedName_of_declared? h]
  exact h

namespace DeclaredIn

variable {s : Sources} {unit : CompilationUnit} {c : ClassDecl} (h : s.DeclaredIn unit c)

include h

theorem mem : unit ∈ s.units ∧ c ∈ unit.classes := by
  have hmem := List.mem_of_find?_eq_some h
  rw [declarations, List.mem_reverse, List.mem_flatMap] at hmem
  obtain ⟨u, hu, hmem⟩ := hmem
  obtain ⟨d, hd, hpair⟩ := List.mem_map.mp hmem
  cases hpair
  exact ⟨hu, hd⟩

theorem unitOf?_eq : s.unitOf? c = some unit := by rw [unitOf?, h, Option.map_some]

end DeclaredIn

/-! ## 4. The only name with an end -/

/-- A list has one element up to repeats if all its elements are the same. -/
theorem eraseDups_eq_singleton_iff {names : List String} {q : String} :
    names.eraseDups = [q] ↔ q ∈ names ∧ ∀ r ∈ names, r = q := by
  constructor
  · intro h
    have hmem (r : String) : r ∈ names ↔ r = q := by
      rw [← List.mem_eraseDups, h, List.mem_singleton]
    exact ⟨(hmem q).mpr rfl, fun r hr => (hmem r).mp hr⟩
  · rintro ⟨hq, hall⟩
    cases names with
    | nil => cases hq
    | cons a names =>
      obtain ⟨rfl, hall⟩ := List.forall_mem_cons.mp hall
      have hnone : names.filter (fun b => !b == a) = [] :=
        List.filter_eq_nil_iff.mpr fun b hb => by simp [hall b hb]
      rw [List.eraseDups_cons, hnone]
      rfl

/-- The name ends this one of the qualified names and no other. -/
def EndsOnly (s : Sources) (name q : String) : Prop :=
  IsEndOf name q ∧ ∀ r ∈ s.qualifiedNames, IsEndOf name r → r = q

/-- **The last way to find a class finds the one whose name alone ends in the name.** -/
theorem onlyEnding?_eq_some_iff {s : Sources} {name : String} {c : ClassDecl} :
    s.onlyEnding? name = some c ↔
      ∃ unit, s.DeclaredIn unit c ∧ s.EndsOnly name c.qualifiedName := by
  have hends (q : String) :
      (s.qualifiedNames.filter (Text.hasTail ("." ++ name) ·)).eraseDups = [q] ↔
        q ∈ s.qualifiedNames ∧ s.EndsOnly name q := by
    simp only [eraseDups_eq_singleton_iff, List.mem_filter, hasTail_dot_iff, EndsOnly, and_assoc,
      and_imp]
  constructor
  · intro h
    unfold onlyEnding? at h
    split at h
    · next q hq =>
      obtain ⟨⟨unit, d⟩, hd, rfl⟩ := Option.map_eq_some_iff.mp h
      refine ⟨unit, declaredIn_of_declared? hd, ?_⟩
      rw [qualifiedName_of_declared? hd]
      exact ((hends q).mp hq).2
    · cases h
  · rintro ⟨unit, hunit, honly⟩
    have hq := (hends c.qualifiedName).mpr ⟨declared?_mem hunit, honly⟩
    unfold onlyEnding?
    rw [hq]
    exact Option.map_eq_some_iff.mpr ⟨(unit, c), hunit, rfl⟩

/-! ## 5. What is found -/

/-- The names that are tried before the last way. -/
def tried (name : String) (context : Option CompilationUnit) : List String :=
  name :: (context.map (readings name)).getD []

theorem eq_or_isEndOf_of_mem_tried {name q : String} {context : Option CompilationUnit}
    (h : q ∈ tried name context) : q = name ∨ IsEndOf name q := by
  rcases List.mem_cons.mp h with rfl | h
  · exact Or.inl rfl
  · cases context with
    | none => cases h
    | some unit => exact eq_or_isEndOf_of_mem_readings h

theorem find?_eq (s : Sources) (name : String) (context : Option CompilationUnit) :
    s.find? name context =
      (((tried name context).findSome? s.declared?).map (·.2)).or (s.onlyEnding? name) := by
  rw [find?, tried]
  cases (name :: (context.map (readings name)).getD []).findSome? s.declared? <;> rfl

/-- A class is found under one of the names that are tried, or by the last way. -/
theorem cases_of_find? {s : Sources} {name : String} {context : Option CompilationUnit}
    {c : ClassDecl} (h : s.find? name context = some c) :
    ∃ unit, s.DeclaredIn unit c ∧
      (c.qualifiedName ∈ tried name context ∨ s.EndsOnly name c.qualifiedName) := by
  rw [find?_eq, Option.or_eq_some_iff] at h
  rcases h with h | ⟨_, h⟩
  · obtain ⟨⟨unit, d⟩, hd, rfl⟩ := Option.map_eq_some_iff.mp h
    obtain ⟨q, hq, hd⟩ := List.exists_of_findSome?_eq_some hd
    refine ⟨unit, declaredIn_of_declared? hd, Or.inl ?_⟩
    rw [qualifiedName_of_declared? hd]
    exact hq
  · obtain ⟨unit, hunit, honly⟩ := onlyEnding?_eq_some_iff.mp h
    exact ⟨unit, hunit, Or.inr honly⟩

theorem declaredIn_of_find? {s : Sources} {name : String} {context : Option CompilationUnit}
    {c : ClassDecl} (h : s.find? name context = some c) : ∃ unit, s.DeclaredIn unit c := by
  obtain ⟨unit, hunit, _⟩ := cases_of_find? h
  exact ⟨unit, hunit⟩

theorem eq_or_isEndOf_of_find? {s : Sources} {name : String} {context : Option CompilationUnit}
    {c : ClassDecl} (h : s.find? name context = some c) :
    c.qualifiedName = name ∨ IsEndOf name c.qualifiedName := by
  obtain ⟨_, _, htried | hends⟩ := cases_of_find? h
  · exact eq_or_isEndOf_of_mem_tried htried
  · exact Or.inr hends.1

/-- A qualified name means the class that has it, in every file. -/
theorem find?_of_declared? {s : Sources} {name : String} {d : CompilationUnit × ClassDecl}
    (h : s.declared? name = some d) (context : Option CompilationUnit) :
    s.find? name context = some d.2 := by
  rw [find?_eq, tried, List.findSome?_cons, h]
  rfl

/-- Without a file, a name that no class has means the class whose name alone ends in it. -/
theorem find?_none_isSome_iff {s : Sources} {name : String} (h : name ∉ s.qualifiedNames) :
    (s.find? name none).isSome ↔ ∃ q, q ∈ s.qualifiedNames ∧ s.EndsOnly name q := by
  have hnone : s.declared? name = none := by
    rw [← Option.not_isSome_iff_eq_none, declared?_isSome_iff]
    exact h
  have hfind : s.find? name none = s.onlyEnding? name := by
    rw [find?_eq, tried, List.findSome?_cons, hnone]
    rfl
  rw [hfind, Option.isSome_iff_exists]
  constructor
  · rintro ⟨c, hc⟩
    obtain ⟨unit, hunit, hends⟩ := onlyEnding?_eq_some_iff.mp hc
    exact ⟨c.qualifiedName, declared?_mem hunit, hends⟩
  · rintro ⟨q, hq, hends⟩
    obtain ⟨⟨unit, c⟩, hd⟩ := Option.isSome_iff_exists.mp (declared?_isSome_iff.mpr hq)
    refine ⟨c, onlyEnding?_eq_some_iff.mpr ⟨unit, declaredIn_of_declared? hd, ?_⟩⟩
    rw [qualifiedName_of_declared? hd]
    exact hends

/-! ## 6. The map of the classes -/

/-- A declaration put into a map, in the place of one with the same name. -/
def enter (index : Std.HashMap String (CompilationUnit × ClassDecl))
    (d : CompilationUnit × ClassDecl) : Std.HashMap String (CompilationUnit × ClassDecl) :=
  index.insert d.2.qualifiedName d

/-- The classes by qualified name, entered in the order in which they are declared. -/
def classIndex (s : Sources) : Std.HashMap String (CompilationUnit × ClassDecl) :=
  (s.units.flatMap fun u => u.classes.map fun c => (u, c)).foldl enter ∅

/-- After some declarations are entered, a name has the last of them that has it, or else what it
    had before. -/
theorem foldl_enter_getElem? (ds : List (CompilationUnit × ClassDecl))
    (index : Std.HashMap String (CompilationUnit × ClassDecl)) (q : String) :
    (ds.foldl enter index)[q]? =
      (ds.reverse.find? fun d => d.2.qualifiedName == q).or index[q]? := by
  induction ds generalizing index with
  | nil => rfl
  | cons d ds ih =>
    rw [List.foldl_cons, ih, List.reverse_cons, List.find?_append, enter,
      Std.HashMap.getElem?_insert, Option.or_assoc, List.find?_singleton]
    congr 1
    split <;> rfl

/-- **The map has the class that is declared last.** -/
theorem classIndex_getElem? (s : Sources) (q : String) : s.classIndex[q]? = s.declared? q := by
  rw [classIndex, foldl_enter_getElem?, Std.HashMap.getElem?_empty, Option.or_none]
  rfl

theorem mem_classIndex_iff {s : Sources} {entry : String × CompilationUnit × ClassDecl} :
    entry ∈ s.classIndex.toList ↔ s.declared? entry.1 = some entry.2 := by
  rw [← classIndex_getElem?]
  exact Std.HashMap.mem_toList_iff_getElem?_eq_some

/-- The one entry of those that are gone through whose name ends in a name. -/
def scan (order : List (String × CompilationUnit × ClassDecl)) (name : String) :
    Option ClassDecl :=
  match order.filter fun entry => Text.hasTail ("." ++ name) entry.1 with
  | [entry] => some entry.2.2
  | _ => none

/-- The search for a class in a map whose entries are gone through in some order. -/
def findInOrder (index : Std.HashMap String (CompilationUnit × ClassDecl))
    (order : List (String × CompilationUnit × ClassDecl)) (name : String)
    (context : Option CompilationUnit) : Option ClassDecl :=
  match (tried name context).findSome? (index[·]?) with
  | some d => some d.2
  | none => scan order name

theorem eq_singleton_iff_of_nodup {α : Type} {l : List α} (h : l.Nodup) {a : α} :
    l = [a] ↔ a ∈ l ∧ ∀ b ∈ l, b = a := by
  constructor
  · rintro rfl
    exact ⟨List.mem_singleton_self a, fun b hb => List.mem_singleton.mp hb⟩
  · rintro ⟨ha, hall⟩
    exact List.perm_singleton.mp ((List.perm_ext_iff_of_nodup h (List.nodup_singleton a)).mpr
      fun b => ⟨fun hb => List.mem_singleton.mpr (hall b hb),
        fun hb => List.mem_singleton.mp hb ▸ ha⟩)

theorem nodup_classIndex (s : Sources) : s.classIndex.toList.Nodup :=
  Std.HashMap.distinct_keys_toList.imp fun hne heq => by simp [heq] at hne

/-- A scan of the map finds the class whose name alone ends in the name, in whatever order. -/
theorem scan_eq_some_iff {s : Sources} {order : List (String × CompilationUnit × ClassDecl)}
    (horder : order.Perm s.classIndex.toList) {name : String} {c : ClassDecl} :
    scan order name = some c ↔
      ∃ unit, s.DeclaredIn unit c ∧ s.EndsOnly name c.qualifiedName := by
  have hmem (entry : String × CompilationUnit × ClassDecl) :
      entry ∈ order ↔ s.declared? entry.1 = some entry.2 :=
    horder.mem_iff.trans mem_classIndex_iff
  have hone (entry : String × CompilationUnit × ClassDecl) :
      (order.filter fun e => Text.hasTail ("." ++ name) e.1) = [entry] ↔
        s.declared? entry.1 = some entry.2 ∧ s.EndsOnly name entry.1 := by
    rw [eq_singleton_iff_of_nodup ((horder.nodup_iff.mpr s.nodup_classIndex).filter _)]
    simp only [List.mem_filter, hmem, hasTail_dot_iff, EndsOnly, and_imp, and_assoc]
    refine and_congr_right fun hentry => and_congr_right fun _ => ⟨fun h r hr hends => ?_,
      fun h e he hends => ?_⟩
    · obtain ⟨d, hd⟩ := Option.isSome_iff_exists.mp (declared?_isSome_iff.mpr hr)
      exact congrArg (·.1) (h (r, d) hd hends)
    · have hkey : e.1 = entry.1 :=
        h e.1 (declared?_isSome_iff.mp (Option.isSome_iff_exists.mpr ⟨_, he⟩)) hends
      rw [hkey, hentry] at he
      exact Prod.ext hkey (Option.some.inj he).symm
  constructor
  · intro h
    unfold scan at h
    split at h
    · next entry hentry =>
      obtain ⟨hdeclared, hends⟩ := (hone entry).mp hentry
      cases h
      refine ⟨entry.2.1, declaredIn_of_declared? hdeclared, ?_⟩
      rw [qualifiedName_of_declared? hdeclared]
      exact hends
    · cases h
  · rintro ⟨unit, hunit, hends⟩
    have hentry := (hone (c.qualifiedName, unit, c)).mpr ⟨hunit, hends⟩
    unfold scan
    rw [hentry]

/-- **The order in which the entries of the map are gone through does not matter.** -/
theorem findInOrder_eq_find? {s : Sources} {order : List (String × CompilationUnit × ClassDecl)}
    (horder : order.Perm s.classIndex.toList) (name : String) (context : Option CompilationUnit) :
    findInOrder s.classIndex order name context = s.find? name context := by
  have hscan : scan order name = s.onlyEnding? name :=
    Option.ext fun c => (scan_eq_some_iff horder).trans onlyEnding?_eq_some_iff.symm
  have hlookup : (s.classIndex[·]?) = s.declared? := funext s.classIndex_getElem?
  rw [findInOrder, find?_eq, hlookup, hscan]
  cases (tried name context).findSome? s.declared? <;> rfl

/-- **A name means a class of that name or one whose name ends in it.** A class that has the very
    name comes first. Without a file, any other name means a class exactly if it ends the name of
    one alone. Nothing depends on the order in which a map of the classes is gone through. -/
theorem find?_unambiguous (s : Sources) (name : String) (context : Option CompilationUnit) :
    (∀ c, s.find? name context = some c →
      (∃ unit ∈ s.units, c ∈ unit.classes) ∧
        (c.qualifiedName = name ∨ ∃ front, c.qualifiedName = front ++ "." ++ name)) ∧
    (name ∈ s.qualifiedNames → ∃ c, s.find? name context = some c ∧ c.qualifiedName = name) ∧
    (name ∉ s.qualifiedNames →
      ((s.find? name none).isSome ↔
        ∃! q, q ∈ s.qualifiedNames ∧ ∃ front, q = front ++ "." ++ name)) ∧
    (∀ order, order.Perm s.classIndex.toList →
      findInOrder s.classIndex order name context = s.find? name context) := by
  refine ⟨fun c hc => ?_, fun hname => ?_, fun hname => ?_, fun order horder => ?_⟩
  · obtain ⟨unit, hunit⟩ := declaredIn_of_find? hc
    exact ⟨⟨unit, hunit.mem⟩, eq_or_isEndOf_of_find? hc⟩
  · obtain ⟨d, hd⟩ := Option.isSome_iff_exists.mp (declared?_isSome_iff.mpr hname)
    exact ⟨d.2, find?_of_declared? hd context, qualifiedName_of_declared? hd⟩
  · rw [find?_none_isSome_iff hname]
    exact exists_congr fun q => and_assoc.symm.trans <| and_congr_right fun _ =>
      forall_congr' fun r => and_imp.symm
  · exact findInOrder_eq_find? horder name context

end Sources

end Source

end AndroidLint
