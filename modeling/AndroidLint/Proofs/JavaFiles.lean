/-
  File:      AndroidLint/Proofs/JavaFiles.lean
  Subject:   The shape of Java syntax trees: statements, declarations and files.

  The nodes of which more is known than that their children fit are read here: declarations of
  variables, clauses that catch, `try` statements and classes.

  * `sound_upTo`:         the rules are sound, however deep constructs are nested;
  * `wellFormed_parse`:   the syntax tree of every file is well formed.
-/
import AndroidLint.Proofs.JavaShapes

namespace AndroidLint.Java

open Source Syntax
open Syntax.Reader (Gives)

/-! ## 1. Nodes of which more is known -/

/-- What is known of a part of a `try`. -/
structure TryPart (u : Tree) : Prop where
  fit : Fit u
  clause : u.kind = .catchClause ∨ u.kind = .finallyClause → u.role = .plain

theorem TryPart.of_kind {u : Tree} (h : Fit u) (hkind : u.kind = .block ∨ u.kind = .other) :
    TryPart u := by
  refine ⟨h, fun hclause => ?_⟩
  rcases hkind with hkind | hkind <;> rw [hkind] at hclause <;>
    rcases hclause with hk | hk <;> cases hk

theorem ClassPart.of_role {u : Tree} (hname : u.role ≠ .name) (hbody : u.role ≠ .body) :
    ClassPart u :=
  ⟨fun hrole => absurd hrole hname, fun hrole => absurd hrole hbody⟩

/-- Children of a class. -/
def ClassParts (us : List Tree) : Prop := ∀ u ∈ us, Fit u ∧ ClassPart u

theorem ClassParts.cons {u : Tree} {us : List Tree} (hs : ClassParts us) (h : Fit u ∧ ClassPart u) :
    ClassParts (u :: us) :=
  List.forall_mem_cons.mpr ⟨h, hs⟩

theorem ClassParts.append {us vs : List Tree} (h : ClassParts us) (h' : ClassParts vs) :
    ClassParts (us ++ vs) :=
  List.forall_mem_append.mpr ⟨h, h'⟩

theorem classParts_singleton {u : Tree} (h : Fit u ∧ ClassPart u) : ClassParts [u] :=
  List.forall_mem_singleton.mpr h

theorem fit_typeDeclaration {kind : Kind} (hkind : kind.declaresType = true) {children : List Tree}
    (h : ClassParts children) (range : ByteRange) (text : String) :
    Fit ⟨kind, .plain, range, text, children⟩ := by
  refine fit_node (fun u hu => (h u hu).1) ?_ range text
  unfold Kind.Holds
  split
  case h_6 => exact fun _ u hu => (h u hu).2
  all_goals cases hkind

/-- The name of a class is not empty. -/
theorem reads_className : Reads (fun t => Fit t ∧ ClassPart t) (Reader.as .name identifier) := by
  refine .as (T := fun t => Fit t ∧ t.text ≠ "") ?_ fun t ht => ⟨ht.1.as (by decide),
    fun _ => ht.2, fun hrole => absurd hrole (show Role.name ≠ .body by decide)⟩
  exact .leaf (.token isName) fun t ht => ⟨fit_leaf rfl t.range t.text, ht.2.text_ne⟩

theorem reads_classPartBody {r : Reader Tree}
    (h : Reads (fun t => Fit t ∧ (t.kind = .classBody ∨ t.kind = .other)) r) :
    Reads (fun t => Fit t ∧ ClassPart t) (Reader.as .body r) :=
  h.as fun _ ht => ⟨ht.1.as (by decide),
    fun hrole => absurd hrole (show Role.body ≠ .name by decide), fun _ => ht.2⟩

/-! ## 2. Statements -/

theorem reads_one {r : Reader Tree} (h : Reads Fit r) : Reads Fits (do return [← r]) :=
  h.bind fun _ ht => .pure (fits_singleton ht)

theorem reads_simple (keyword : String) {inside : Reader (List Tree)} (h : Reads Fits inside) :
    Reads Fit (simple keyword inside) :=
  reads_node rfl <| (passes_word _).skip <| h.bind fun _ hinside =>
    (passes_sign _).skip <| .pure hinside

section Statements

variable {rules : Rules} (h : rules.Sound)

include h

theorem reads_modifiersListed : Reads Fits (Reader.listed (modifiers rules)) :=
  .listed ((reads_modifiers h).mono fun _ ht => ht.1)

theorem reads_writtenType :
    Reads (fun t => Fit t ∧ t.role = .type) (Reader.as .type rules.type) :=
  h.type.as fun _ ht => ⟨ht.as .type, rfl⟩

theorem reads_declaredName : Reads Fit (declaredName rules) :=
  (reads_as reads_identifier).bind fun _ hname => (passes_dimension h).many.skip <| .pure hname

theorem reads_variableDeclarator : Reads Fit (variableDeclarator rules) := by
  refine reads_node rfl <| (reads_declaredName h).bind fun name hname => ?_
  exact (Gives.listed ((passes_sign _).skip (reads_as h.initializer))).bind fun value hvalue =>
    .pure (fits_cons.mpr ⟨hname, hvalue⟩)

theorem reads_variableDeclaration {kind : Kind}
    (hkind : kind = .fieldDeclaration ∨ kind = .localVariableDeclaration) :
    Reads Fit (variableDeclaration rules kind) := by
  have hholds {children : List Tree} (htype : ∃ u ∈ children, u.role = .type) :
      kind.Holds children := by
    rcases hkind with rfl | rfl
    · exact htype
    · exact htype
  refine .node (C := fun children => Fits children ∧ ∃ u ∈ children, u.role = .type) ?_
    fun children hchildren => fit_node hchildren.1 (hholds hchildren.2)
  refine (reads_modifiersListed h).bind fun modifiers hmodifiers =>
    (reads_writtenType h).bind fun type htype => ?_
  refine (Gives.separated1 (passes_sign _) (reads_variableDeclarator h)).bind
    fun declarators hdeclarators => (passes_sign _).skip <| .pure ⟨?_, type, ?_, htype.2⟩
  · exact fits_append.mpr ⟨hmodifiers, fits_cons.mpr ⟨htype.1, hdeclarators.2⟩⟩
  · exact List.mem_append_right _ List.mem_cons_self

theorem reads_enhancedFor : Reads Fit (enhancedFor rules) := by
  refine reads_node rfl <| (passes_word _).skip <| (passes_sign _).skip <|
    (reads_modifiersListed h).bind fun modifiers hmodifiers =>
    (reads_writtenType h).bind fun type htype => (reads_declaredName h).bind fun name hname => ?_
  refine (passes_sign _).skip <| (reads_as h.expression).bind fun value hvalue =>
    (passes_sign _).skip <| h.statement.bind fun body hbody => .pure ?_
  exact fits_append.mpr ⟨fits_append.mpr ⟨hmodifiers, fits_cons.mpr ⟨htype.1,
    fits_cons.mpr ⟨hname, fits_singleton hvalue⟩⟩⟩, hbody⟩

theorem reads_plainFor : Reads Fit (plainFor rules) := by
  refine reads_node rfl <| (passes_word _).skip <| (passes_sign _).skip <|
    .bind (P := Fits) (.orElse ?_ ?_) fun beginning hbeginning => ?_
  · exact reads_one (reads_variableDeclaration h (.inr rfl))
  · exact (reads_commaSeparated h.expression).bind fun _ hall => (passes_sign _).skip <| .pure hall
  · refine h.expression.listed.bind fun condition hcondition => (passes_sign _).skip <|
      (reads_commaSeparated h.expression).bind fun update hupdate => (passes_sign _).skip <|
      h.statement.bind fun body hbody => .pure ?_
    exact fits_append.mpr
      ⟨fits_append.mpr ⟨fits_append.mpr ⟨hbeginning, hcondition⟩, hupdate⟩, hbody⟩

theorem reads_switchLabel : Reads Fit (switchLabel rules) := by
  refine reads_node rfl (.orElse ?_ ((passes_word _).skip <| .pure fits_nil))
  refine (passes_word _).skip <| .bind (P := Fits) (.orElse (reads_one (reads_pattern h)) ?_)
    fun labels hlabels => (Gives.listed ((passes_word _).skip h.expression)).bind
      fun guard hguard => .pure (fits_append.mpr ⟨hlabels, hguard⟩)
  exact (Gives.separated1 (passes_sign _)
    ((reads_conditional h).orElse (reads_wordLeaf rfl _))).mono fun _ hall => hall.2

theorem reads_switchBlock : Reads Fit (switchBlock rules) := by
  refine reads_node rfl <|
    reads_between (.many (.orElse (reads_node rfl ?_) (reads_node rfl ?_))) _ _
  · refine ((reads_switchLabel h).bind fun label hlabel =>
      (passes_sign _).skip <| .pure (P := Fit) hlabel).many1.bind fun labels hlabels => ?_
    exact h.statement.many.bind fun statements hstatements =>
      .pure (fits_append.mpr ⟨hlabels, fits_flatten hstatements⟩)
  · exact (reads_switchLabel h).bind fun label hlabel => (passes_sign _).skip <|
      h.statement.bind fun action haction => .pure (fits_cons.mpr ⟨hlabel, haction⟩)

/-- The body of a method or of a clause. -/
theorem reads_body : Reads Fit (Reader.as .body rules.block) :=
  h.block.as fun _ ht => ht.1.as (by decide)

theorem reads_catchClause : Reads TryPart (catchClause rules) := by
  refine (reads_plainNode rfl ?_).mono fun _ ht => ⟨ht.1, fun _ => ht.2.2⟩
  refine (passes_word _).skip <| (reads_between (P := Fit) ?_ _ _).bind fun parameter hparameter =>
    (reads_body h).bind fun body hbody =>
      .pure (fits_cons.mpr ⟨hparameter, fits_singleton hbody⟩)
  refine .node (C := fun children => Fits children ∧ ∃ u ∈ children, u.kind = .catchType) ?_
    fun children hchildren => fit_node hchildren.1 hchildren.2
  refine (reads_modifiersListed h).bind fun modifiers hmodifiers =>
    .bind (P := fun t => Fit t ∧ t.kind = .catchType) ?_ fun types htypes =>
      (reads_declaredName h).bind fun name hname => .pure ⟨?_, types, ?_, htypes.2⟩
  · refine .node (.separated1 (passes_sign _) h.type) fun types htypes range text => ⟨?_, rfl⟩
    have hholds : Kind.catchType.Holds types := ⟨htypes.1, fun u hu => (htypes.2 u hu).2⟩
    exact fit_node (fun u hu => (htypes.2 u hu).fit) hholds range text
  · exact fits_append.mpr ⟨hmodifiers, fits_cons.mpr ⟨htypes.1, fits_singleton hname⟩⟩
  · exact List.mem_append_right _ List.mem_cons_self

theorem reads_resources : Reads (fun t => Fit t ∧ t.kind = .other) (resources rules) := by
  refine (reads_plainNode rfl ?_).mono fun _ ht => ⟨ht.1, ht.2.1⟩
  refine (passes_sign _).skip <| (Gives.separated1 (passes_sign _) (.orElse (reads_node rfl ?_)
    (reads_node rfl (reads_one h.expression)))).bind fun all hall =>
      (passes_sign _).optional.skip <| (passes_sign _).skip <| .pure hall.2
  refine (reads_modifiersListed h).bind fun modifiers hmodifiers =>
    (reads_writtenType h).bind fun type htype => (reads_declaredName h).bind fun name hname =>
    (passes_sign _).skip <| (reads_as h.expression).bind fun value hvalue => .pure ?_
  exact fits_append.mpr ⟨hmodifiers, fits_cons.mpr ⟨htype.1,
    fits_cons.mpr ⟨hname, fits_singleton hvalue⟩⟩⟩

theorem reads_tryStatement : Reads Fit (tryStatement rules) := by
  refine .node (C := fun children => ∀ u ∈ children, TryPart u) ?_ fun children hchildren =>
    fit_node (fun u hu => (hchildren u hu).fit) fun u hu => (hchildren u hu).clause
  have hresources : Reads TryPart (Reader.as .resources (resources rules)) :=
    (reads_resources h).as fun _ ht => .of_kind (ht.1.as (by decide)) (.inr ht.2)
  have hblock : Reads TryPart (Reader.as .body rules.block) :=
    h.block.as fun _ ht => .of_kind (ht.1.as (by decide)) (.inl ht.2)
  refine (passes_word _).skip <| hresources.listed.bind fun resources hresources =>
    hblock.bind fun body hbody => (reads_catchClause h).many.bind fun clauses hclauses => ?_
  refine (Gives.listed (T := TryPart) ?_).bind fun final hfinal => .pure ?_
  · exact (reads_plainNode rfl ((passes_word _).skip <| h.block.bind fun _ ht =>
      .pure (fits_singleton ht.1))).mono fun _ ht => ⟨ht.1, fun _ => ht.2.2⟩
  · exact List.forall_mem_append.mpr ⟨List.forall_mem_append.mpr
      ⟨hresources, List.forall_mem_cons.mpr ⟨hbody, hclauses⟩⟩, hfinal⟩

theorem reads_block : Reads (fun t => Fit t ∧ t.kind = .block) (block rules) := by
  refine (reads_plainNode rfl ?_).mono fun _ ht => ⟨ht.1, ht.2.1⟩
  exact (reads_between h.statement.many _ _).bind fun _ hall => .pure (fits_flatten hall)

theorem reads_guarded (keyword : String) {inside : Reader (List Tree)}
    (hinside : Reads Fits inside) : Reads Fit (guarded rules keyword inside) :=
  reads_node rfl <| (passes_word _).skip <| (reads_parenthesized h).bind fun _ hcondition =>
    hinside.bind fun _ hchildren => .pure (fits_cons.mpr ⟨hcondition, hchildren⟩)

theorem reads_keywordStatement (keyword : String) : Reads Fit (keywordStatement rules keyword) := by
  have hblock : Reads Fit rules.block := h.block.mono fun _ ht => ht.1
  unfold keywordStatement
  split
  · refine reads_guarded h _ <| h.statement.bind fun consequence hconsequence =>
      ((passes_word _).skip h.statement).optional.bind fun alternative halternative => .pure ?_
    refine fits_append.mpr ⟨hconsequence, ?_⟩
    cases alternative with
    | none => exact fits_nil
    | some statements => exact halternative statements rfl
  · exact reads_guarded h _ h.statement
  · exact reads_guarded h _ (reads_one h.switchBlock)
  · exact reads_guarded h _ (reads_one hblock)
  · exact (reads_enhancedFor h).orElse (reads_plainFor h)
  · exact reads_node rfl <| (passes_word _).skip <| h.statement.bind fun body hbody =>
      (passes_word _).skip <| (reads_parenthesized h).bind fun condition hcondition =>
        (passes_sign _).skip <| .pure (fits_append.mpr ⟨hbody, fits_singleton hcondition⟩)
  · exact reads_tryStatement h
  · exact reads_simple _ h.expression.listed
  · exact reads_simple _ (reads_one h.expression)
  · exact reads_simple _ reads_identifier.listed
  · exact reads_simple _ reads_identifier.listed
  · exact reads_simple _ <| h.expression.bind fun condition hcondition =>
      (Gives.listed ((passes_sign _).skip h.expression)).bind fun message hmessage =>
        .pure (fits_cons.mpr ⟨hcondition, hmessage⟩)
  · exact Gives.peekSecond?.bind fun _ _ => (Gives.check _).skip <|
      reads_simple _ (reads_one h.expression)
  · exact .fail

theorem reads_statement : Reads Fits (statement rules) := by
  refine Gives.peek?.bind fun next _ => ?_
  split
  · exact .fail
  · next t =>
    refine .ite (fun _ => (passes_sign _).skip <| .pure fits_nil) fun _ => .ite
      (fun _ => reads_one (h.block.mono fun _ ht => ht.1)) fun _ => ?_
    refine .orElse (reads_one (.ite (fun _ => reads_keywordStatement h _) fun _ => .fail)) <|
      .orElse (reads_one h.typeDeclaration) <|
      .orElse (reads_one (reads_variableDeclaration h (.inr rfl))) <|
      .orElse (reads_one (reads_node rfl ?_)) (reads_one (reads_node rfl ?_))
    · exact reads_identifier.bind fun label hlabel => (passes_sign _).skip <|
        h.statement.bind fun statement hstatement => .pure (fits_cons.mpr ⟨hlabel, hstatement⟩)
    · exact h.expression.bind fun e he => (passes_sign _).skip <| .pure (fits_singleton he)

end Statements

/-! ## 3. Methods -/

section Declarations

variable {rules : Rules} (h : rules.Sound)

include h

theorem reads_formalParameter : Reads Fit (formalParameter rules) := by
  refine Gives.here.bind fun start _ => (reads_modifiersListed h).bind fun modifiers hmodifiers =>
    h.type.bind fun type htype => .orElse ?_ (.orElse ?_ ?_)
  · exact (passes_sign _).skip <| h.annotationUse.many.skip <| (reads_variableDeclarator h).bind
      fun declarator hdeclarator => .close <| fit_plain rfl <| fits_append.mpr
        ⟨hmodifiers, fits_cons.mpr ⟨htype.fit, fits_singleton hdeclarator⟩⟩
  · exact (reads_identifier.skip (passes_sign _)).many.skip <| (passes_word _).skip <|
      .close <| fit_plain rfl <| fits_append.mpr ⟨hmodifiers, fits_singleton htype.fit⟩
  · exact (reads_declaredName h).bind fun name hname => .close <| fit_plain rfl <|
      fits_append.mpr ⟨hmodifiers, fits_cons.mpr ⟨htype.as .type, fits_singleton hname⟩⟩

theorem reads_formalParameters : Reads Fit (formalParameters rules) :=
  reads_as (reads_node rfl (reads_between (reads_commaSeparated (reads_formalParameter h)) _ _))

/-- A list of types after a word. -/
theorem reads_typesAfter (keyword : String) :
    Reads (fun t => Fit t ∧ t.kind = .other ∧ t.role = .plain) (Reader.node .other do
      word keyword
      Reader.separated1 (sign ",") rules.type) :=
  reads_plainNode rfl <| (passes_word _).skip <|
    (Gives.separated1 (passes_sign _) h.type).mono fun _ hall t ht => (hall.2 t ht).fit

theorem reads_throwsClause : Reads Fits (throwsClause rules) :=
  .listed ((reads_typesAfter h _).mono fun _ ht => ht.1)

theorem reads_method (ofAnnotationType : Bool) : Reads Fit (method rules ofAnnotationType) := by
  have hkind : (if ofAnnotationType then Kind.other else .methodDeclaration).isSpecial = false := by
    cases ofAnnotationType <;> rfl
  refine reads_node hkind <| (reads_modifiersListed h).bind fun modifiers hmodifiers =>
    ((passes_typeParameters h).skip h.annotationUse.many).optional.skip <|
    (reads_writtenType h).bind fun type htype => (reads_as reads_identifier).bind fun name hname =>
    (reads_formalParameters h).bind fun parameters hparameters => (passes_dimension h).many.skip <|
    (reads_throwsClause h).bind fun throws hthrows => ?_
  refine (Gives.listed ((passes_word _).skip (reads_as h.elementValue))).bind
    fun default hdefault => .bind (P := Fits)
      (((passes_sign _).skip <| .pure fits_nil).orElse (reads_body h).listed) fun body hbody =>
        .pure ?_
  exact fits_append.mpr ⟨fits_append.mpr ⟨fits_append.mpr ⟨fits_append.mpr ⟨hmodifiers,
    fits_cons.mpr ⟨htype.1, fits_cons.mpr ⟨hname, fits_singleton hparameters⟩⟩⟩, hthrows⟩, hdefault⟩,
    hbody⟩

theorem reads_constructorCall : Reads Fit (constructorCall rules) := by
  refine .orElse (reads_node rfl ?_) (reads_node rfl ?_)
  · exact (passes_typeArguments h).optional.skip <|
      ((reads_wordLeaf rfl _).orElse (reads_wordLeaf rfl _)).bind fun target htarget =>
      (reads_argumentList h).bind fun arguments harguments => (passes_sign _).skip <|
        .pure (fits_cons.mpr ⟨htarget, fits_singleton harguments⟩)
  · exact (reads_primary h).bind fun outer houter => (passes_sign _).skip <|
      (passes_typeArguments h).optional.skip <| (reads_wordLeaf rfl _).bind fun target htarget =>
      (reads_argumentList h).bind fun arguments harguments => (passes_sign _).skip <| .pure <|
        fits_cons.mpr ⟨houter.as (by decide), fits_cons.mpr ⟨htarget, fits_singleton harguments⟩⟩

theorem reads_constructor : Reads Fit (constructor rules) := by
  refine reads_node rfl <| (reads_modifiersListed h).bind fun modifiers hmodifiers =>
    (passes_typeParameters h).optional.skip <| (reads_as reads_identifier).bind fun name hname =>
    (reads_formalParameters h).bind fun parameters hparameters =>
    (reads_throwsClause h).bind fun throws hthrows => (reads_node rfl ?_).bind fun body hbody =>
      .pure ?_
  · exact (passes_sign _).skip <| (reads_constructorCall h).listed.bind fun call hcall =>
      h.statement.many.bind fun statements hstatements => (passes_sign _).skip <|
        .pure (fits_append.mpr ⟨hcall, fits_flatten hstatements⟩)
  · exact fits_append.mpr ⟨fits_append.mpr ⟨fits_append.mpr
      ⟨hmodifiers, fits_cons.mpr ⟨hname, fits_singleton hparameters⟩⟩, hthrows⟩,
      fits_singleton (hbody.as (by decide))⟩

theorem reads_compactConstructor : Reads Fit (compactConstructor rules) :=
  reads_node rfl <| (reads_modifiersListed h).bind fun _ hmodifiers =>
    (reads_as reads_identifier).bind fun _ hname =>
    (reads_body h).bind fun _ hbody =>
      .pure (fits_append.mpr ⟨hmodifiers, fits_cons.mpr ⟨hname, fits_singleton hbody⟩⟩)

/-! ## 4. Classes -/

theorem reads_memberDeclaration (ofAnnotationType : Bool) :
    Reads Fits (memberDeclaration rules ofAnnotationType) := by
  have hblock : Reads Fits (do return [← rules.block]) :=
    reads_one (h.block.mono fun _ ht => ht.1)
  refine (passes_atSign _).bind fun _ _ => .ite (fun _ => hblock) fun _ => ?_
  exact .orElse ((passes_sign _).skip <| .pure fits_nil) <|
    .orElse (reads_one (reads_node rfl ((passes_word _).skip hblock))) <|
    .orElse (reads_one h.typeDeclaration) <| .orElse (reads_one (reads_constructor h)) <|
    .orElse (reads_one (reads_compactConstructor h)) <|
    .orElse (reads_one (reads_method h ofAnnotationType)) <|
    reads_one (reads_variableDeclaration h (.inl rfl))

theorem reads_members (ofAnnotationType : Bool) : Reads Fits (members rules ofAnnotationType) :=
  (reads_between (reads_memberDeclaration h ofAnnotationType).many _ _).bind fun _ hall =>
    .pure (fits_flatten hall)

theorem reads_classBody : Reads (fun t => Fit t ∧ t.kind = .classBody) (classBody rules) :=
  (reads_plainNode rfl (reads_members h false)).mono fun _ ht => ⟨ht.1, ht.2.1⟩

theorem reads_enumConstant : Reads Fit (enumConstant rules) := by
  have hclassBody : Reads Fit (Reader.as .body rules.classBody) :=
    h.classBody.as fun _ ht => ht.1.as (by decide)
  refine reads_node rfl <| (reads_modifiersListed h).bind fun modifiers hmodifiers =>
    (reads_as reads_identifier).bind fun name hname => (passes_atSign _).bind fun _ _ =>
    .either (reads_argumentList h).listed (.pure fits_nil) fun arguments harguments =>
    (passes_atSign _).bind fun _ _ => .either hclassBody.listed (.pure fits_nil) fun body hbody =>
      .pure ?_
  exact fits_append.mpr ⟨fits_append.mpr ⟨hmodifiers, fits_cons.mpr ⟨hname, harguments⟩⟩, hbody⟩

theorem reads_enumBody : Reads (fun t => Fit t ∧ t.kind = .other) (enumBody rules) := by
  refine (reads_plainNode rfl ?_).mono fun _ ht => ⟨ht.1, ht.2.1⟩
  refine (passes_sign _).skip <| (reads_commaSeparated (reads_enumConstant h)).bind
    fun constants hconstants => (passes_sign _).optional.skip <|
      (Gives.listed (reads_node rfl ?_)).bind fun rest hrest => (passes_sign _).skip <|
        .pure (fits_append.mpr ⟨hconstants, hrest⟩)
  exact (passes_sign _).skip <| (reads_memberDeclaration h false).many.bind fun _ hall =>
    .pure (fits_flatten hall)

theorem reads_typeList (keyword : String) : Reads ClassParts (typeList rules keyword) :=
  .listed ((reads_typesAfter h keyword).mono fun _ ht =>
    ⟨ht.1, .of_role (by rw [ht.2.2]; decide) (by rw [ht.2.2]; decide)⟩)

theorem reads_classRest : Reads ClassParts (classRest rules) := by
  have hbody := reads_classPartBody (h.classBody.mono fun _ ht => ⟨ht.1, .inl ht.2⟩)
  refine (passes_word _).skip <| reads_className.bind fun name hname =>
    (passes_typeParameters h).optional.skip <| .bind (P := ClassParts) (.listed ?_)
      fun superclass hsuper => ?_
  · refine (reads_node rfl ((passes_word _).skip ?_)).as fun t ht =>
      ⟨ht.as (by decide), .of_role (show Role.superclass ≠ .name by decide)
        (show Role.superclass ≠ .body by decide)⟩
    exact reads_one (h.type.mono fun _ ht => ht.fit)
  · exact (reads_typeList h _).bind fun interfaces hinterfaces => (reads_typeList h _).bind
      fun permits hpermits => hbody.bind fun body hbody =>
        .pure ((((hsuper.cons hname).append hinterfaces).append hpermits).append
          (classParts_singleton hbody))

theorem reads_interfaceRest : Reads ClassParts (interfaceRest rules) := by
  have hbody := reads_classPartBody ((reads_plainNode rfl (reads_members h false)).mono
    fun _ ht => ⟨ht.1, .inr ht.2.1⟩)
  exact (passes_word _).skip <| reads_className.bind fun name hname =>
    (passes_typeParameters h).optional.skip <| (reads_typeList h _).bind
    fun interfaces hinterfaces => (reads_typeList h _).bind fun permits hpermits =>
      hbody.bind fun body hbody =>
        .pure (((hinterfaces.cons hname).append hpermits).append (classParts_singleton hbody))

theorem reads_enumRest : Reads ClassParts (enumRest rules) := by
  have hbody := reads_classPartBody ((reads_enumBody h).mono fun _ ht => ⟨ht.1, .inr ht.2⟩)
  exact (passes_word _).skip <| reads_className.bind fun name hname => (reads_typeList h _).bind
    fun interfaces hinterfaces => hbody.bind fun body hbody =>
      .pure ((hinterfaces.cons hname).append (classParts_singleton hbody))

theorem reads_annotationTypeRest : Reads ClassParts (annotationTypeRest rules) := by
  have hbody := reads_classPartBody ((reads_plainNode rfl (reads_members h true)).mono
    fun _ ht => ⟨ht.1, .inr ht.2.1⟩)
  exact (passes_sign _).skip <| (passes_word _).skip <| reads_className.bind fun name hname =>
    hbody.bind fun body hbody => .pure ((classParts_singleton hbody).cons hname)

theorem reads_recordRest : Reads ClassParts (recordRest rules) := by
  have hbody := reads_classPartBody (h.classBody.mono fun _ ht => ⟨ht.1, .inl ht.2⟩)
  have hparameters : Reads (fun t => Fit t ∧ ClassPart t) (formalParameters rules) :=
    (reads_node rfl (reads_between (reads_commaSeparated (reads_formalParameter h)) _ _)).as
      fun t ht => ⟨ht.as (by decide), .of_role (show Role.parameters ≠ .name by decide)
        (show Role.parameters ≠ .body by decide)⟩
  exact (passes_word _).skip <| reads_className.bind fun name hname =>
    (passes_typeParameters h).optional.skip <| hparameters.bind fun parameters hparameters =>
    (reads_typeList h _).bind fun interfaces hinterfaces => hbody.bind fun body hbody =>
      .pure (((hinterfaces.cons hparameters).cons hname).append (classParts_singleton hbody))

theorem reads_typeDeclaration : Reads Fit (typeDeclaration rules) := by
  have hmodifiers : Reads ClassParts (Reader.listed (modifiers rules)) :=
    .listed ((reads_modifiers h).mono fun _ ht =>
      ⟨ht.1, .of_role (by rw [ht.2.2]; decide) (by rw [ht.2.2]; decide)⟩)
  refine Gives.here.bind fun start _ => hmodifiers.bind fun modifiers hmodifiers => ?_
  have hclose {kind : Kind} (hkind : kind.declaresType = true) {rest : Reader (List Tree)}
      (hrest : Reads ClassParts rest) : Reads Fit (do
        Reader.close start kind (modifiers ++ (← rest))) :=
    hrest.bind fun _ hparts => .close (fit_typeDeclaration hkind (hmodifiers.append hparts))
  exact (hclose rfl (reads_classRest h)).orElse <| (hclose rfl (reads_interfaceRest h)).orElse <|
    (hclose rfl (reads_enumRest h)).orElse <| (hclose rfl (reads_annotationTypeRest h)).orElse <|
    hclose rfl (reads_recordRest h)

/-! ## 5. Files -/

theorem sound_next : rules.next.Sound where
  expression := reads_expression h
  unary := reads_unary h
  type := reads_type h
  annotationUse := reads_annotationUse h
  annotationStarts := mayStart_annotationUse h
  elementValue := reads_elementValue h
  initializer := reads_initializer h
  block := reads_block h
  statement := reads_statement h
  switchBlock := reads_switchBlock h
  classBody := reads_classBody h
  typeDeclaration := reads_typeDeclaration h

theorem reads_topLevel : Reads Fits (topLevel rules) := by
  refine .orElse (reads_one (reads_node rfl ?_)) <| .orElse (reads_one (reads_node rfl ?_)) <|
    .orElse (reads_one (reads_node rfl ?_)) <| .orElse (reads_one h.typeDeclaration) <|
    .orElse (reads_one (reads_method h false)) h.statement
  · exact h.annotationUse.many.skip <| (passes_word _).skip <| reads_qualifiedName.bind
      fun name hname => (passes_sign _).skip <| .pure (fits_singleton hname)
  · refine (passes_word _).skip <| (passes_word _).optional.skip <| reads_qualifiedName.bind
      fun name hname => .bind (P := Fits) (.listed ((passes_sign _).skip ?_)) fun all hall =>
        (passes_sign _).skip <| .pure (fits_cons.mpr ⟨hname, hall⟩)
    exact .leaf (.token _) fun t _ => fit_leaf rfl t.range t.text
  · exact h.annotationUse.many.skip <| (passes_word _).optional.skip <| (passes_word _).skip <|
      reads_qualifiedName.skip <| (passes_bracketed _ _).skip <| .pure fits_nil

end Declarations

theorem sound_none : Rules.none.Sound where
  expression := .fail
  unary := .fail
  type := .fail
  annotationUse := .fail
  annotationStarts := fun i hi t j hr => by cases hr
  elementValue := .fail
  initializer := .fail
  block := .fail
  statement := .fail
  switchBlock := .fail
  classBody := .fail
  typeDeclaration := .fail

theorem sound_upTo (depth : Nat) : (Rules.upTo depth).Sound := by
  induction depth with
  | zero => exact sound_none
  | succ depth ih => exact sound_next ih

/-- **The syntax tree of every file is well formed.** -/
theorem wellFormed_parse (contents : List Char) : WellFormed (parse contents) := by
  obtain ⟨_, hall⟩ := (reads_topLevel (sound_upTo (4 * (tokens contents).length + 8))).manyFrom
    (sound_tokens contents)
  exact (fit_plain rfl (fits_flatten hall) _ _).1

end AndroidLint.Java
