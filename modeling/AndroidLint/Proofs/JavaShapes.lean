/-
  File:      AndroidLint/Proofs/JavaShapes.lean
  Subject:   The shape of Java syntax trees: names, types and expressions.

  What the rules rely on of a node is put together in `Proper`; a tree is well formed when all its
  nodes are proper. Each rule of the grammar reads well-formed trees if the rules for what is nested
  in it do (`Rules.Sound`). A type is the only node whose text matters: it begins with a word or an
  annotation, so something is left of it when it is erased.

  * `wellFormed_mk`:      a tree is well formed when its top is proper and its children are;
  * `reads_type`:         types are never empty;
  * `reads_expression`:   expressions are well formed.
-/
import AndroidLint.Java.Walk
import AndroidLint.Proofs.JavaPlaces
import AndroidLint.Proofs.Readers

namespace AndroidLint.Java

open Source Syntax
open Syntax.Reader (BeginsWith Gives MayStart Starts)

/-! ## 1. Well-formed trees -/

/-- What is known of a part of a class: its name is not empty, and its body is not a class. -/
structure ClassPart (u : Tree) : Prop where
  named : u.role = .name → u.text ≠ ""
  body : u.role = .body → u.kind = .classBody ∨ u.kind = .other

/-- What is known of the children of a node of some kind. -/
def Kind.Holds (kind : Kind) (children : List Tree) : Prop :=
  match kind with
  | .fieldDeclaration | .localVariableDeclaration => ∃ u ∈ children, u.role = .type
  | .catchParameter => ∃ u ∈ children, u.kind = .catchType
  | .catchType => children ≠ [] ∧ ∀ u ∈ children, erase u.text ≠ ""
  -- The clauses of a `try` are neither its body nor its resources.
  | .tryStatement =>
    ∀ u ∈ children, u.kind = .catchClause ∨ u.kind = .finallyClause → u.role = .plain
  | k => k.declaresType = true → ∀ u ∈ children, ClassPart u

theorem Kind.Holds.classPart {kind : Kind} {children : List Tree} (h : kind.Holds children)
    (htype : kind.declaresType = true) : ∀ u ∈ children, ClassPart u := by
  unfold Kind.Holds at h
  split at h
  case h_6 => exact h htype
  all_goals cases htype

/-- What is known of a node and its children. -/
structure Proper (t : Tree) : Prop where
  /-- A type that is written is not empty. -/
  types : ∀ u ∈ t.children, u.role = .type → erase u.text ≠ ""
  holds : t.kind.Holds t.children

/-- All nodes of a tree are proper. -/
def WellFormed (t : Tree) : Prop := ∀ u : Tree, u.Within t → Proper u

theorem wellFormed_mk {kind : Kind} {role : Role} {range : ByteRange} {text : String}
    {children : List Tree} (h : Proper ⟨kind, role, range, text, children⟩)
    (hchildren : ∀ c ∈ children, WellFormed c) :
    WellFormed ⟨kind, role, range, text, children⟩ := by
  intro u hu
  cases hu with
  | self => exact h
  | child hc hu => exact hchildren _ hc u hu

/-- What a node is does not depend on the part it plays. -/
theorem WellFormed.as {t : Tree} (h : WellFormed t) (role : Role) : WellFormed (t.as role) := by
  intro u hu
  cases hu with
  | self => exact ⟨(h t .self).types, (h t .self).holds⟩
  | child hc hu => exact h u (.child hc hu)

/-- A well-formed tree that may be a child: if it is the type of something it is not empty. -/
def Fit (t : Tree) : Prop := WellFormed t ∧ (t.role = .type → erase t.text ≠ "")

/-- A well-formed type that is not empty. -/
def Typed (t : Tree) : Prop := WellFormed t ∧ erase t.text ≠ ""

/-- Trees that may be children. -/
def Fits (ts : List Tree) : Prop := ∀ t ∈ ts, Fit t

theorem Fit.as {t : Tree} (h : Fit t) {role : Role} (hrole : role ≠ .type) : Fit (t.as role) :=
  ⟨h.1.as role, fun heq => absurd heq hrole⟩

theorem Typed.as {t : Tree} (h : Typed t) (role : Role) : Fit (t.as role) :=
  ⟨h.1.as role, fun _ => h.2⟩

theorem Typed.fit {t : Tree} (h : Typed t) : Fit t := ⟨h.1, fun _ => h.2⟩

@[simp] theorem fits_nil : Fits [] := List.forall_mem_nil _

@[simp] theorem fits_cons {t : Tree} {ts : List Tree} : Fits (t :: ts) ↔ Fit t ∧ Fits ts :=
  List.forall_mem_cons

@[simp] theorem fits_append {ts us : List Tree} : Fits (ts ++ us) ↔ Fits ts ∧ Fits us :=
  List.forall_mem_append

theorem fits_singleton {t : Tree} (h : Fit t) : Fits [t] := List.forall_mem_singleton.mpr h

theorem fits_flatten {tss : List (List Tree)} (h : ∀ ts ∈ tss, Fits ts) : Fits tss.flatten := by
  intro t ht
  obtain ⟨ts, hts, ht⟩ := List.mem_flatten.mp ht
  exact h ts hts t ht

theorem fit_node {kind : Kind} {children : List Tree} (h : Fits children)
    (hholds : kind.Holds children) (range : ByteRange) (text : String) :
    Fit ⟨kind, .plain, range, text, children⟩ :=
  ⟨wellFormed_mk ⟨fun u hu => (h u hu).2, hholds⟩ fun c hc => (h c hc).1,
    fun hrole => by cases hrole⟩

/-- The kinds of nodes of which more is known than that their children fit. -/
def Kind.isSpecial : Kind → Bool
  | .fieldDeclaration | .localVariableDeclaration | .catchParameter | .catchType
  | .tryStatement => true
  | k => k.declaresType

theorem holds_of_plain {kind : Kind} (h : kind.isSpecial = false) (children : List Tree) :
    kind.Holds children := by
  unfold Kind.Holds
  split <;> simp_all [Kind.isSpecial]

/-- A node of any other kind is well formed when its children fit. -/
theorem fit_plain {kind : Kind} (hkind : kind.isSpecial = false) {children : List Tree}
    (h : Fits children) (range : ByteRange) (text : String) :
    Fit ⟨kind, .plain, range, text, children⟩ :=
  fit_node h (holds_of_plain hkind children) range text

/-! ## 2. Tokens -/

/-- A token has the character it begins with, a word one that can begin words. -/
def Stands (t : Token) : Prop :=
  ∃ c, BeginsWith t c ∧ t.text.toList.head? = some c ∧ (t.kind = .word → beginsWord c = true)

theorem Stands.text_ne {t : Token} (h : Stands t) : t.text ≠ "" := by
  obtain ⟨c, _, hhead, _⟩ := h
  intro htext
  rw [htext] at hhead
  cases hhead

theorem numberTail_ne_word (digit : Char → Bool) (lower upper : Char) (decimal : Bool)
    (cs : List Char) : (numberTail digit lower upper decimal cs).1 ≠ .word := by
  unfold numberTail
  dsimp only
  split <;> split <;> exact fun heq => TokenKind.noConfusion heq

theorem number_ne_word (cs : List Char) : (number cs).1 ≠ .word := by
  unfold number
  split
  · exact numberTail_ne_word _ _ _ _ _
  · exact numberTail_ne_word _ _ _ _ _
  · exact TokenKind.noConfusion
  · exact TokenKind.noConfusion
  · exact numberTail_ne_word _ _ _ _ _

theorem beginsWord_of_lexeme {c : Char} {cs : List Char} {further : Nat}
    (h : lexeme c cs = .token .word further) : beginsWord c = true := by
  unfold lexeme at h
  split at h
  · cases h
  split at h
  · cases h
  split at h
  · cases h
  split at h
  · assumption
  split at h
  · injection h with hkind
    exact absurd hkind (number_ne_word (c :: cs))
  split at h
  · cases h
  split at h <;> cases h

theorem sound_tokens (contents : List Char) :
    (⟨tokens contents, 0⟩ : Input TokenKind).Sound Stands := by
  refine sound_tokensFrom (fun c cs kind further hlexeme offset afterNewline => ?_) 0 false contents
  refine ⟨c, ⟨cs, rfl, ?_⟩, ?_, ?_⟩
  · show offset + c.utf8Size ≤ offset + Text.width (c :: cs.take further)
    rw [Text.width_cons]
    omega
  · rw [String.toList_ofList]
    rfl
  · rintro rfl
    exact beginsWord_of_lexeme hlexeme

/-- Every result of a reader satisfies `P`. -/
abbrev Reads {α : Type} (P : α → Prop) (r : Reader α) : Prop := Gives Stands P r

/-- Nothing is said about the results of a reader. -/
abbrev Passes {α : Type} (r : Reader α) : Prop := Reads (fun _ => True) r

theorem passes {α : Type} {P : α → Prop} {r : Reader α} (h : Reads P r) : Passes r :=
  h.mono fun _ _ => trivial

/-! ## 3. Words and signs -/

theorem passes_sign (text : String) : Passes (sign text) := (Gives.token _).void

theorem passes_word (text : String) : Passes (word text) := (Gives.token _).void

theorem passes_atSign (text : String) : Passes (atSign text) :=
  Gives.peek?.bind fun _ _ => .pure trivial

theorem passes_atWord (text : String) : Passes (atWord text) :=
  Gives.peek?.bind fun _ _ => .pure trivial

theorem fit_leaf {kind : Kind} (hkind : kind.isSpecial = false) (range : ByteRange)
    (text : String) : Fit ⟨kind, .plain, range, text, []⟩ :=
  fit_plain hkind fits_nil range text

theorem reads_identifier : Reads Fit identifier :=
  .leaf (.token isName) fun t _ => fit_leaf rfl t.range t.text

/-- A node that plays no part yet. -/
theorem reads_plainNode {kind : Kind} (hkind : kind.isSpecial = false) {r : Reader (List Tree)}
    (h : Reads Fits r) :
    Reads (fun t => Fit t ∧ t.kind = kind ∧ t.role = .plain) (Reader.node kind r) :=
  .node h fun _ hchildren range text => ⟨fit_plain hkind hchildren range text, rfl, rfl⟩

theorem reads_node {kind : Kind} (hkind : kind.isSpecial = false) {r : Reader (List Tree)}
    (h : Reads Fits r) : Reads Fit (Reader.node kind r) :=
  (reads_plainNode hkind h).mono fun _ ht => ht.1

theorem reads_as {role : Role} {r : Reader Tree} (h : Reads Fit r)
    (hrole : role ≠ .type := by decide) : Reads Fit (Reader.as role r) :=
  .as h fun _ ht => ht.as hrole

theorem reads_wordLeaf {kind : Kind} (hkind : kind.isSpecial = false) (text : String) :
    Reads Fit (wordLeaf kind text) :=
  .leaf (.token _) fun t _ => fit_leaf hkind t.range t.text

theorem reads_between {α : Type} {P : α → Prop} {r : Reader α} (h : Reads P r)
    (opening closing : String) : Reads P (between opening closing r) :=
  (passes_sign opening).skip <| h.bind fun _ ha => (passes_sign closing).skip <| .pure ha

theorem reads_commaSeparated {α : Type} {P : α → Prop} {r : Reader α} (h : Reads P r) :
    Reads (fun as => ∀ a ∈ as, P a) (commaSeparated r) :=
  .separated (passes_sign ",") h

theorem reads_qualifiedName : Reads Fit qualifiedName := by
  refine Gives.here.bind fun start _ => reads_identifier.bind fun first hfirst => ?_
  refine ((passes_sign ".").skip reads_identifier).many.bind fun rest _ => ?_
  exact .ite (fun _ => .pure hfirst) fun _ => .close (fit_leaf rfl)

theorem passes_bracketed (opening closing : String) : Passes (bracketed opening closing) :=
  .bracketed _ _

/-! ## 4. Types -/

/-- A character that is left when a type is erased. -/
def StaysInType (c : Char) : Prop := c ≠ '<' ∧ Text.isBlank c = false

theorem erase_ne_empty {text : String} {c : Char} {cs : List Char} (h : text.toList = c :: cs)
    (hc : StaysInType c) : erase text ≠ "" := by
  intro hempty
  have hlist := congrArg String.toList hempty
  rw [erase, String.toList_ofList, h, List.takeWhile_cons_of_pos (by simpa using hc.1),
    List.filter_cons_of_pos (by simpa using hc.2)] at hlist
  cases hlist

theorem not_isBlank_of_isAlpha {c : Char} (h : c.isAlpha = true) : Text.isBlank c = false := by
  have hrange : (decide (c.val ≥ 'A'.val ∧ c.val ≤ 'Z'.val) ||
      decide (c.val ≥ 'a'.val) && decide (c.val ≤ 'z'.val)) = true := h
  simp only [Bool.or_eq_true, Bool.and_eq_true, decide_eq_true_eq, ge_iff_le,
    UInt32.le_iff_toNat_le] at hrange
  have hletter : 65 ≤ c.toNat ∧ c.toNat ≤ 122 := by
    rcases hrange with ⟨h1, h2⟩ | ⟨h1, h2⟩
    · exact ⟨h1, Nat.le_trans h2 (by decide)⟩
    · exact ⟨Nat.le_trans (by decide) h1, h2⟩
  simp only [Text.isBlank, Bool.or_eq_false_iff, Bool.and_eq_false_iff, decide_eq_false_iff_not,
    beq_eq_false_iff_ne]
  omega

theorem staysInType_of_beginsWord {c : Char} (h : beginsWord c = true) : StaysInType c := by
  simp only [beginsWord, Bool.or_eq_true, beq_iff_eq, Bool.and_eq_true, Bool.not_eq_true',
    decide_eq_true_eq] at h
  constructor
  · rintro rfl
    revert h
    decide
  · rcases h with ((h | rfl) | rfl) | ⟨_, h⟩
    · exact not_isBlank_of_isAlpha h
    · rfl
    · rfl
    · exact h

/-- What is known of the rules for what is nested in a construct. -/
structure Rules.Sound (rules : Rules) : Prop where
  expression : Reads Fit rules.expression
  unary : Reads Fit rules.unary
  type : Reads Typed rules.type
  annotationUse : Reads Fit rules.annotationUse
  annotationStarts : MayStart Stands StaysInType rules.annotationUse
  elementValue : Reads Fit rules.elementValue
  initializer : Reads Fit rules.initializer
  block : Reads (fun t => Fit t ∧ t.kind = .block) rules.block
  statement : Reads Fits rules.statement
  switchBlock : Reads Fit rules.switchBlock
  classBody : Reads (fun t => Fit t ∧ t.kind = .classBody) rules.classBody
  typeDeclaration : Reads Fit rules.typeDeclaration

theorem starts_word {p : Token → Bool} (hp : ∀ t, p t = true → t.kind = .word) :
    Starts Stands StaysInType (Reader.token p) := by
  refine Reader.starts_token fun t hstands ht => ?_
  obtain ⟨c, hbegins, _, hword⟩ := hstands
  exact ⟨c, hbegins, staysInType_of_beginsWord (hword (hp t ht))⟩

theorem starts_identifier : Starts Stands StaysInType identifier :=
  (starts_word fun _ ht => beq_iff_eq.mp (Bool.and_eq_true_iff.mp ht).1).bind (.token _)
    fun _ => .pure (P := fun _ => True) trivial

/-- What begins as types do gives a type that is not empty. -/
theorem reads_typeNode {r : Reader (List Tree)} (h : Reads Fits r)
    (hstarts : Starts Stands StaysInType r) : Reads Typed (Reader.node .type r) := by
  intro i hi t j hr
  obtain ⟨hgoes, hfit⟩ := reads_node rfl h hi hr
  obtain ⟨c, cs, htext, hc⟩ := Reader.head?_node hstarts hi hr
  exact ⟨hgoes, hfit.1, erase_ne_empty htext hc⟩

section Types

variable {rules : Rules} (h : rules.Sound)

include h

theorem passes_typeArguments : Passes (typeArguments rules) := by
  refine (reads_between (reads_commaSeparated (.orElse ?_ (.void h.type))) _ _).void
  refine h.annotationUse.many.skip <| (passes_sign _).skip <|
    .void (.optional (P := fun _ => True) ?_)
  exact ((passes_word _).orElse (passes_word _)).skip (.void h.type)

theorem passes_typeParameters : Passes (typeParameters rules) := by
  refine (reads_between (reads_commaSeparated (P := fun _ => True) ?_) _ _).void
  exact h.annotationUse.many.skip <| reads_identifier.skip <|
    .void (.optional ((passes_word _).skip (.separated1 (passes_sign _) h.type)))

theorem passes_dimension : Passes (dimension rules) :=
  h.annotationUse.many.skip <| (passes_sign _).skip (passes_sign _)

theorem passes_simpleTypeTokens : Passes (simpleTypeTokens rules) := by
  refine .orElse (.void (.token _)) (.void (.separated1 (P := fun _ => True) (passes_sign _) ?_))
  exact h.annotationUse.many.skip <| reads_identifier.skip <|
    .void (passes_typeArguments h).optional

theorem starts_simpleTypeTokens : Starts Stands StaysInType (simpleTypeTokens rules) := by
  have hprimitive := starts_word (p := fun t => t.kind == .word && primitiveTypes.contains t.text)
    fun t ht => beq_iff_eq.mp (Bool.and_eq_true_iff.mp ht).1
  have hname : Passes (do
      let _ ← identifier
      let _ ← Reader.optional (typeArguments rules)) :=
    reads_identifier.skip <| .void (passes_typeArguments h).optional
  refine .orElse (hprimitive.void (.token _)) ?_
  refine (Starts.separated1 ?_ (h.annotationUse.many.skip hname) (passes_sign _)).void
    (.separated1 (passes_sign _) (h.annotationUse.many.skip hname))
  refine (h.annotationStarts.many h.annotationUse).bind h.annotationUse.many (fun _ => ?_)
    fun _ => hname
  exact starts_identifier.bind reads_identifier fun _ => .void (passes_typeArguments h).optional

theorem reads_simpleType : Reads Typed (simpleType rules) :=
  reads_typeNode ((passes_simpleTypeTokens h).skip (.pure fits_nil))
    ((starts_simpleTypeTokens h).bind (passes_simpleTypeTokens h)
      fun _ => .pure (P := Fits) fits_nil)

theorem reads_type : Reads Typed (type rules) := by
  have hrest : Reads Fits (do
      simpleTypeTokens rules
      let _ ← Reader.many (dimension rules)
      pure []) :=
    (passes_simpleTypeTokens h).skip <| (passes_dimension h).many.skip <| .pure fits_nil
  refine reads_typeNode (h.annotationUse.many.skip hrest) ?_
  refine (h.annotationStarts.many h.annotationUse).bind h.annotationUse.many (fun _ => ?_)
    fun _ => hrest
  exact (starts_simpleTypeTokens h).bind (passes_simpleTypeTokens h) fun _ =>
    (passes_dimension h).many.skip <| .pure (P := Fits) fits_nil

end Types

/-! ## 5. Annotations and modifiers -/

/-- What is in braces, with commas between and maybe a last one. -/
theorem reads_braced {r : Reader Tree} (h : Reads Fit r) : Reads Fits (do
    sign "\x7b"
    let all ← commaSeparated r
    let _ ← Reader.optional (sign ",")
    sign "\x7d"
    pure all) :=
  (passes_sign _).skip <| (reads_commaSeparated h).bind fun _ hall =>
    (passes_sign _).optional.skip <| (passes_sign _).skip <| .pure hall

theorem reads_modifierWord : Reads Fit modifierWord := by
  refine .orElse (.leaf (.token _) fun t _ => fit_leaf rfl t.range t.text) (.orElse ?_ ?_)
  · refine (reads_wordLeaf rfl _).bind fun leaf hleaf => ?_
    refine .skip (P := fun _ => True) (Gives.peek?.bind fun _ _ => ?_) (.pure hleaf)
    exact passes (.check _)
  · exact reads_node rfl <| (passes_word _).skip <| (passes_sign _).skip <| (passes_word _).skip <|
      .pure fits_nil

section Annotations

variable {rules : Rules} (h : rules.Sound)

include h

theorem reads_elementValue : Reads Fit (elementValue rules) := by
  refine (passes_atSign _).bind fun _ _ => .ite (fun _ => h.annotationUse) fun _ => ?_
  refine (passes_atSign _).bind fun _ _ => .ite (fun _ => ?_) fun _ => h.expression
  exact reads_node rfl (reads_braced h.elementValue)

theorem reads_annotationUse : Reads Fit (annotationUse rules) := by
  refine reads_node rfl <| (passes_sign _).skip ?_
  refine (reads_as reads_qualifiedName).bind fun name hname => ?_
  refine (Gives.listed (reads_as (reads_node rfl ?_))).bind fun arguments harguments =>
    .pure (fits_cons.mpr ⟨hname, harguments⟩)
  refine reads_between (reads_commaSeparated (.orElse (reads_node rfl ?_) h.elementValue)) _ _
  refine (reads_as reads_identifier).bind fun key hkey => (passes_sign _).skip ?_
  exact (reads_as h.elementValue).bind fun value hvalue =>
    .pure (fits_cons.mpr ⟨hkey, fits_singleton hvalue⟩)

theorem mayStart_annotationUse : MayStart Stands StaysInType (annotationUse rules) := by
  refine Starts.mayStart_node ?_ (reads_annotationUse h)
  refine (Reader.starts_token fun t hstands ht => ?_).void (.token _)
  obtain ⟨c, hbegins, hhead, _⟩ := hstands
  have htext : t.text = "@" := beq_iff_eq.mp (Bool.and_eq_true_iff.mp ht).2
  rw [htext] at hhead
  cases hhead
  exact ⟨'@', hbegins, by decide, rfl⟩

theorem reads_modifiers :
    Reads (fun t => Fit t ∧ t.kind = .modifiers ∧ t.role = .plain) (modifiers rules) := by
  refine reads_plainNode rfl (.many1 ?_)
  refine (passes_atSign _).bind fun _ _ => .ite (fun _ => ?_) fun _ => reads_modifierWord
  exact Gives.peekSecond?.bind fun _ _ => (Gives.check _).skip h.annotationUse

end Annotations

/-! ## 6. Operators -/

theorem passes_attached (text : String) : Passes (attached text) :=
  Gives.here.bind fun _ _ => (Gives.token _).bind fun _ _ => passes (.check _)

theorem reads_operatorSign : Reads Fit operatorSign := by
  refine Gives.here.bind fun start _ => (passes_atSign _).bind fun _ _ => .ite (fun _ => ?_)
    fun _ => .leaf (.token _) fun t _ => fit_leaf rfl t.range t.text
  exact (passes_sign _).skip <|
    ((passes_attached _).skip (passes_attached _).optional).optional.skip <|
    (passes_attached _).optional.skip <| .close (fit_leaf rfl)

theorem reads_binaryOperator : Reads (fun p => Fit p.1) binaryOperator := by
  refine reads_operatorSign.bind fun operator hoperator => ?_
  split
  · exact .pure (hoperator.as (by decide))
  · exact .fail

theorem passes_assignmentOperator : Passes assignmentOperator :=
  reads_operatorSign.bind fun _ _ => passes (.check _)

/-- What is known of a link of a chain. -/
def Link.Fit : Link → Prop
  | .operator sign _ right => Java.Fit sign ∧ Java.Fit right.tree
  | .test pattern _ => Fits pattern

/-- What is known of the operands that wait, and of the one that was read last. -/
def Chain.Fit (state : Chain × Operand) : Prop :=
  (∀ w ∈ state.1, Java.Fit w.1.tree ∧ Java.Fit w.2.1) ∧ Java.Fit state.2.tree

theorem fit_reduce (level : Nat) (chain : Chain) (current : Operand)
    (h : Chain.Fit (chain, current)) : Chain.Fit (chain.reduce level current) := by
  fun_induction Chain.reduce level chain current with
  | case1 current => exact h
  | case2 current left sign bound rest hlevel ih =>
    obtain ⟨⟨hleft, hsign⟩, hrest⟩ := List.forall_mem_cons.mp h.1
    refine ih ⟨hrest, fit_plain rfl ?_ _ _⟩
    exact fits_cons.mpr ⟨hleft.as (by decide),
      fits_cons.mpr ⟨hsign, fits_singleton (h.2.as (by decide))⟩⟩
  | case3 current left sign bound rest hlevel => exact h

theorem fit_step {state : Chain × Operand} {link : Link} (h : Chain.Fit state) (hlink : link.Fit) :
    Chain.Fit (Chain.step state link) := by
  cases link with
  | operator sign level right =>
    obtain ⟨hchain, hcurrent⟩ := fit_reduce level state.1 state.2 h
    exact ⟨List.forall_mem_cons.mpr ⟨⟨hcurrent, hlink.1⟩, hchain⟩, hlink.2⟩
  | test pattern stop =>
    obtain ⟨hchain, hcurrent⟩ := fit_reduce instanceOfLevel state.1 state.2 h
    exact ⟨hchain, fit_plain rfl (fits_cons.mpr ⟨hcurrent.as (by decide), hlink⟩) _ _⟩

theorem fit_chain {first : Operand} {links : List Link} (h : Fit first.tree)
    (hlinks : ∀ l ∈ links, l.Fit) : Fit (Chain.tree first links) := by
  have hrun (state : Chain × Operand) (hstate : Chain.Fit state) :
      Chain.Fit (links.foldl Chain.step state) :=
    List.foldlRecOn links Chain.step hstate fun _ hs l hl => fit_step hs (hlinks l hl)
  exact (fit_reduce 0 _ _ (hrun ([], first) ⟨List.forall_mem_nil _, h⟩)).2

/-! ## 7. Expressions -/

theorem passes_atLambda : Passes atLambda := .succeeds _

/-- What follows the sign of a reference to a method. -/
theorem passes_referenced : Passes (word "new" <|> do let _ ← identifier) :=
  (passes_word _).orElse (.void reads_identifier)

theorem reads_literal : Reads Fit literal := by
  refine (Gives.token _).bind fun t _ => ?_
  have hleaf {kind : Kind} (hkind : kind.isSpecial = false) : Reads Fit (do
      let kind ← pure kind
      pure ⟨kind, .plain, t.range, t.text, []⟩) :=
    .pure (fit_leaf hkind t.range t.text)
  have hfail : Reads Fit (do
      let kind ← Reader.fail
      pure ⟨kind, .plain, t.range, t.text, []⟩) :=
    Gives.fail.bind (P := fun _ => False) fun _ hfalse => hfalse.elim
  dsimp only
  split
  · exact hleaf rfl
  · exact hleaf rfl
  · exact hleaf rfl
  · exact hleaf rfl
  · split
    · exact hleaf rfl
    · exact hleaf rfl
    · exact hleaf rfl
    · exact hleaf rfl
    · exact hleaf rfl
    · exact hfail
  · exact hfail

/-- Whether an operand of a cast begins here is only looked at. -/
theorem passes_atCastOperand (primitive : Bool) : Passes (atCastOperand primitive) := by
  refine Gives.peek?.bind fun next _ => ?_
  split
  · exact .pure trivial
  · split <;> exact .pure trivial

section Expressions

variable {rules : Rules} (h : rules.Sound)

include h

theorem reads_lambda : Reads Fit (lambda rules) := by
  refine reads_node rfl <| (reads_node rfl ?_).bind fun parameters hparameters =>
    (passes_sign _).skip ?_
  · exact ((passes_bracketed _ _).orElse (.void reads_identifier)).skip <| .pure fits_nil
  · refine (passes_atSign _).bind fun _ _ => .either (h.block.mono fun _ ht => ht.1) h.expression
      fun body hbody => .pure ?_
    exact fits_cons.mpr ⟨hparameters.as (by decide), fits_singleton (hbody.as (by decide))⟩

theorem reads_argumentList : Reads Fit (argumentList rules) :=
  reads_as (reads_node rfl (reads_between (reads_commaSeparated h.expression) _ _))

theorem reads_parenthesized : Reads Fit (parenthesized rules) :=
  reads_node rfl <| (reads_between h.expression _ _).bind fun _ he => .pure (fits_singleton he)

theorem reads_arrayInitializer : Reads Fit (arrayInitializer rules) :=
  reads_node rfl (reads_braced h.initializer)

theorem reads_initializer : Reads Fit (initializer rules) :=
  (passes_atSign _).bind fun _ _ => .ite (fun _ => reads_arrayInitializer h) fun _ => h.expression

theorem reads_creation (start : Input TokenKind) {outer : List Tree} (houter : Fits outer) :
    Reads Fit (creation rules start outer) := by
  refine (passes_word _).skip <| h.annotationUse.many.bind fun annotations hannotations => ?_
  refine (passes_typeArguments h).optional.skip ?_
  refine ((reads_simpleType h).as fun _ ht => ht.as .type).bind fun type htype => ?_
  have hbefore : Fits (outer ++ annotations ++ [type]) :=
    fits_append.mpr ⟨fits_append.mpr ⟨houter, hannotations⟩, fits_singleton htype⟩
  refine (passes_atSign _).bind fun _ _ => .ite (fun _ => ?_) fun _ => ?_
  · refine (reads_argumentList h).bind fun arguments harguments => ?_
    have hbody : Reads Fits (Reader.listed rules.classBody) :=
      .listed (h.classBody.mono fun _ ht => ht.1)
    exact (passes_atSign _).bind fun _ _ => .either hbody (.pure fits_nil) fun body hbody =>
      .close (fit_plain rfl (fits_append.mpr ⟨hbefore, fits_cons.mpr ⟨harguments, hbody⟩⟩))
  · have hempty : Reads Fit (Reader.node .other do
        let _ ← Reader.many1 (dimension rules)
        pure []) :=
      reads_node rfl <| (passes_dimension h).many1.skip <| .pure fits_nil
    refine .bind (P := Fits) (.orElse ?_ ?_) fun rest hrest =>
      .close (fit_plain rfl (fits_append.mpr ⟨hbefore, hrest⟩))
    · refine hempty.bind fun dimensions hdimensions => ?_
      exact (reads_as (reads_arrayInitializer h)).bind fun elements helements =>
        .pure (fits_cons.mpr ⟨hdimensions, fits_singleton helements⟩)
    · refine (Gives.many1 (reads_node rfl ?_)).bind fun sizes hsizes =>
        hempty.listed.bind fun dimensions hdimensions =>
          .pure (fits_append.mpr ⟨hsizes, hdimensions⟩)
      exact h.annotationUse.many.skip <| (passes_sign _).skip <| h.expression.bind fun size hsize =>
        (passes_sign _).skip <| .pure (fits_singleton hsize)

theorem reads_nameOrCall : Reads Fit (nameOrCall rules) := by
  refine Gives.here.bind fun start _ => reads_identifier.bind fun name hname => ?_
  refine (passes_atSign _).bind fun _ _ => .ite (fun _ => ?_) fun _ => .pure hname
  exact (reads_argumentList h).bind fun arguments harguments =>
    .close (fit_plain rfl (fits_cons.mpr ⟨hname.as (by decide), fits_singleton harguments⟩))

theorem reads_typeExpression : Reads Fit (typeExpression rules) := by
  refine reads_node rfl <| (reads_type h).bind fun type htype => (Gives.check _).skip ?_
  refine Gives.skip (P := fun _ => True) (.orElse ?_ ?_) (.pure (fits_singleton htype.fit))
  · exact (passes_sign _).skip <| (passes_typeArguments h).optional.skip passes_referenced
  · exact (passes_sign _).skip (passes_word _)

theorem reads_atom : Reads Fit (atom rules) := by
  refine Gives.here.bind fun start _ => ?_
  refine (passes_atSign _).bind fun _ _ => .ite (fun _ => reads_parenthesized h) fun _ => ?_
  refine (passes_atWord _).bind fun _ _ => .ite (fun _ => reads_creation h start fits_nil)
    fun _ => ?_
  refine (passes_atWord _).bind fun _ _ => .ite (fun _ => reads_node rfl ?_) fun _ => ?_
  · exact (passes_word _).skip <| (reads_parenthesized h).bind fun subject hsubject =>
      h.switchBlock.bind fun body hbody =>
        .pure (fits_cons.mpr ⟨hsubject, fits_singleton hbody⟩)
  · exact reads_literal.orElse ((reads_typeExpression h).orElse (reads_nameOrCall h))

theorem reads_member (start : Input TokenKind) {object : Tree} (hobject : Fit object) :
    Reads Fit (member rules start object) := by
  have hobject : Fit (object.as .object) := hobject.as (by decide)
  refine (passes_sign _).skip ?_
  refine (passes_atWord _).bind fun _ _ => .ite
    (fun _ => reads_creation h start (fits_singleton hobject)) fun _ => ?_
  refine (passes_atWord _).bind fun _ _ => .ite
    (fun _ => (passes_word _).skip <| .close (fit_plain rfl (fits_singleton hobject))) fun _ => ?_
  refine (passes_atWord _).bind fun _ _ => .ite
    (fun _ => (passes_word _).skip <| .close (fit_plain rfl (fits_singleton hobject))) fun _ => ?_
  refine ((passes_word _).skip (passes_sign _)).optional.skip <|
    (passes_typeArguments h).optional.skip ?_
  have hname : Reads Fit
      (identifier <|> Reader.leaf .stringLiteral (Reader.token (·.kind == .string))) :=
    reads_identifier.orElse (.leaf (.token _) fun t _ => fit_leaf rfl t.range t.text)
  refine hname.bind fun name hname => .ite (fun _ => ?_) fun _ => ?_
  · exact .close (fit_plain rfl (fits_cons.mpr ⟨hobject, fits_singleton hname⟩))
  refine (passes_atSign _).bind fun _ _ => .ite (fun _ => ?_) fun _ => ?_
  · exact (reads_argumentList h).bind fun arguments harguments => .close <| fit_plain rfl <|
      fits_cons.mpr ⟨hobject, fits_cons.mpr ⟨hname.as (by decide), fits_singleton harguments⟩⟩
  · exact .close (fit_plain rfl (fits_cons.mpr ⟨hobject, fits_singleton hname⟩))

theorem reads_suffix (start : Input TokenKind) {object : Tree} (hobject : Fit object) :
    Reads Fit (suffix rules start object) := by
  refine (reads_member h start hobject).orElse (.orElse ?_ ?_)
  · exact (reads_between h.expression _ _).bind fun index hindex =>
      .close (fit_plain rfl (fits_cons.mpr ⟨hobject, fits_singleton hindex⟩))
  · exact (passes_sign _).skip <| (passes_typeArguments h).optional.skip <|
      passes_referenced.skip <| .close (fit_plain rfl (fits_singleton hobject))

theorem reads_primary : Reads Fit (primary rules) :=
  Gives.here.bind fun start _ => (reads_atom h).bind fun _ hatom =>
    .iterate (fun _ hobject => reads_suffix h start hobject) hatom

theorem reads_cast : Reads Fit (cast rules) := by
  refine reads_node rfl <| (reads_between (.separated1 (passes_sign _) h.type) _ _).bind
    fun types htypes => ?_
  refine (passes_atCastOperand _).bind fun _ _ => (Gives.check _).skip ?_
  refine passes_atLambda.bind fun _ _ => .either (reads_lambda h) h.unary fun value hvalue =>
    .pure ?_
  refine fits_append.mpr ⟨fun t ht => ?_, fits_singleton (hvalue.as (by decide))⟩
  obtain ⟨u, hu, rfl⟩ := List.mem_map.mp ht
  exact (htypes.2 u hu).as .type

theorem reads_unary : Reads Fit (unary rules) := by
  have hstep : Passes (sign "++" <|> sign "--") := (passes_sign _).orElse (passes_sign _)
  refine Gives.here.bind fun start _ => ?_
  refine .orElse (reads_node rfl ?_) (.orElse (reads_node rfl ?_) (.orElse (reads_cast h) ?_))
  · refine .bind (P := Fit) (.leaf (.token _) fun t _ => fit_leaf rfl t.range t.text)
      fun operator hoperator => h.unary.bind fun operand hoperand => .pure ?_
    exact fits_cons.mpr ⟨hoperator.as (by decide), fits_singleton (hoperand.as (by decide))⟩
  · exact hstep.skip <| h.unary.bind fun operand hoperand => .pure (fits_singleton hoperand)
  · exact (reads_primary h).bind fun operand hoperand => .iterate
      (fun t ht => hstep.skip <| .close (fit_plain rfl (fits_singleton ht))) hoperand

theorem reads_pattern : Reads Fit (pattern rules) := by
  refine reads_node rfl <| (passes_word _).optional.skip <| h.type.bind fun type htype => ?_
  refine Gives.skip (P := fun _ => True) (.orElse ?_ (.void reads_identifier))
    (.pure (fits_singleton htype.fit))
  exact (passes_bracketed _ _).skip (.void reads_identifier.optional)

theorem reads_link : Reads Link.Fit (link rules) := by
  refine (passes_atWord _).bind fun _ _ => .ite (fun _ => ?_) fun _ => ?_
  · refine (passes_word _).skip <| .bind (P := Fit) ((reads_pattern h).orElse ?_)
      fun right hright => Gives.here.bind fun _ _ => .pure (fits_singleton (hright.as (by decide)))
    exact (passes_word _).optional.skip (h.type.mono fun _ ht => ht.fit)
  · refine reads_binaryOperator.bind fun operator hoperator => Gives.here.bind fun start _ => ?_
    exact passes_atLambda.bind fun _ _ => .either (reads_lambda h) h.unary fun right hright =>
      .pure ⟨hoperator, hright⟩

theorem reads_chain : Reads Fit (chain rules) :=
  Gives.here.bind fun _ _ => h.unary.bind fun _ hfirst =>
    (reads_link h).many.bind fun _ hlinks => .pure (fit_chain hfirst hlinks)

theorem reads_conditional : Reads Fit (conditional rules) := by
  refine Gives.here.bind fun start _ => (reads_chain h).bind fun condition hcondition => ?_
  refine (passes_atSign _).bind fun _ _ => .ite (fun _ => ?_) fun _ => .pure hcondition
  refine (passes_sign _).skip <| h.expression.bind fun consequence hconsequence => ?_
  refine (passes_sign _).skip <| h.expression.bind fun alternative halternative => ?_
  exact .close <| fit_plain rfl <| fits_cons.mpr
    ⟨hcondition, fits_cons.mpr ⟨hconsequence.as (by decide), fits_singleton halternative⟩⟩

theorem reads_expression : Reads Fit (expression rules) := by
  refine passes_atLambda.bind fun _ _ => .ite (fun _ => reads_lambda h) fun _ => ?_
  refine Gives.here.bind fun start _ => (reads_conditional h).bind fun left hleft => ?_
  refine .orElse ?_ (.pure hleft)
  exact passes_assignmentOperator.skip <| h.expression.bind fun right hright => .close <|
    fit_plain rfl <| fits_cons.mpr
      ⟨hleft.as (by decide), fits_singleton (hright.as (by decide))⟩

end Expressions

end AndroidLint.Java
