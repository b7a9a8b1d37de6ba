/-
  File:      AndroidLint/Proofs/Readers.lean
  Subject:   What readers give, whatever tokens they are given.

  A reader takes tokens from the front, so what is left is always an end of the input, and where the
  last token that was read ends moves on only. What is known of every result is put together
  from what is known of the results of the parts:

  * `Input.Goes`:     one input is what is left of another one;
  * `Gives`:          every result of a reader satisfies a predicate, with a rule for each way to put
                      readers together;
  * `Starts`:         a reader takes a first token that begins with a character of a kind;
  * `head?_node`:     the text of a node begins as its first token does.
-/
import AndroidLint.Syntax.Reader

namespace AndroidLint.Syntax

variable {τ κ α β : Type} {ok : Token τ → Prop}

/-! ## 1. Inputs -/

/-- Tokens in the order of the text, all of which `ok` holds of, that end behind what was read. -/
structure Input.Sound (ok : Token τ → Prop) (i : Input τ) : Prop where
  each : ∀ t ∈ i.tokens, ok t
  ordered : i.tokens.Pairwise fun a b => a.range.stop ≤ b.range.stop
  behind : ∀ t ∈ i.tokens, i.last ≤ t.range.stop

/-- An input is what is left of another one: nothing was taken, or a first token and maybe more. -/
structure Input.Goes (ok : Token τ → Prop) (i j : Input τ) : Prop where
  sound : j.Sound ok
  grows : i.last ≤ j.last
  taken : j.tokens = i.tokens ∨
    ∃ t rest, i.tokens = t :: rest ∧ j.tokens <:+ rest ∧ t.range.stop ≤ j.last

namespace Input

variable {i j k : Input τ}

theorem Goes.refl (h : i.Sound ok) : i.Goes ok i := ⟨h, Nat.le_refl _, .inl rfl⟩

theorem Goes.isSuffix (h : i.Goes ok j) : j.tokens <:+ i.tokens := by
  rcases h.taken with heq | ⟨t, rest, htokens, hsuffix, _⟩
  · exact heq ▸ List.suffix_rfl
  · exact htokens ▸ hsuffix.trans (List.suffix_cons t rest)

theorem Goes.trans (h : i.Goes ok j) (h' : j.Goes ok k) : i.Goes ok k where
  sound := h'.sound
  grows := Nat.le_trans h.grows h'.grows
  taken := by
    rcases h.taken with heq | ⟨t, rest, htokens, hsuffix, hstop⟩
    · rw [← heq]
      exact h'.taken
    · exact .inr ⟨t, rest, htokens, h'.isSuffix.trans hsuffix, Nat.le_trans hstop h'.grows⟩

/-- What is left behind a first part of the tokens, when the last of these was read. -/
theorem Goes.of_append {t : Token τ} {front rest : List (Token τ)} (h : i.Sound ok)
    (htokens : i.tokens = front ++ t :: rest) : i.Goes ok ⟨rest, t.range.stop⟩ := by
  have hmem : t ∈ i.tokens := htokens ▸ List.mem_append_right front List.mem_cons_self
  have hrest {u : Token τ} (hu : u ∈ rest) : u ∈ i.tokens :=
    htokens ▸ List.mem_append_right front (List.mem_cons_of_mem t hu)
  have hordered := h.ordered
  rw [htokens, List.pairwise_append, List.pairwise_cons] at hordered
  obtain ⟨_, ⟨hbehind, hback⟩, hcross⟩ := hordered
  refine ⟨⟨fun u hu => h.each u (hrest hu), hback, hbehind⟩, h.behind t hmem, .inr ?_⟩
  cases front with
  | nil => exact ⟨t, rest, htokens, List.suffix_rfl, Nat.le_refl _⟩
  | cons u front =>
    exact ⟨u, front ++ t :: rest, htokens,
      (List.suffix_cons t rest).trans (List.suffix_append front (t :: rest)),
      hcross u List.mem_cons_self t List.mem_cons_self⟩

end Input

/-- The tokens of a text are in its order. -/
theorem sound_tokensFrom {lexeme : Char → List Char → Lexeme τ}
    (h : ∀ c cs kind further, lexeme c cs = .token kind further → ∀ offset afterNewline,
      ok { kind, text := String.ofList (c :: cs.take further)
           range := ⟨offset, offset + Text.width (c :: cs.take further)⟩
           afterNewline, source := c :: cs })
    (offset : Nat) (afterNewline : Bool) (cs : List Char) :
    (⟨tokensFrom lexeme offset afterNewline cs, offset⟩ : Input τ).Sound ok := by
  fun_induction tokensFrom lexeme offset afterNewline cs with
  | case1 => exact ⟨List.forall_mem_nil _, .nil, List.forall_mem_nil _⟩
  | case2 offset afterNewline c cs further hlexeme run ih =>
    exact ⟨ih.each, ih.ordered, fun t ht => Nat.le_trans (Nat.le_add_right _ _) (ih.behind t ht)⟩
  | case3 offset afterNewline c cs kind further hlexeme run stop ih =>
    refine ⟨List.forall_mem_cons.mpr ⟨h c cs kind further hlexeme offset afterNewline, ih.each⟩,
      List.pairwise_cons.mpr ⟨ih.behind, ih.ordered⟩, fun t ht => ?_⟩
    rcases List.mem_cons.mp ht with rfl | ht
    · exact Nat.le_add_right _ _
    · exact Nat.le_trans (Nat.le_add_right _ _) (ih.behind t ht)

/-! ## 2. Results -/

namespace Reader

/-- What a choice reads, one of its two readers reads. -/
theorem eq_some_of_orElse {r r' : Reader τ α} {i : Input τ} {result : α × Input τ}
    (h : (r <|> r') i = some result) : r i = some result ∨ r' i = some result := by
  have hcases : (r i <|> r' i) = some result := h
  cases hfirst : r i with
  | none =>
    rw [hfirst] at hcases
    exact .inr hcases
  | some p =>
    rw [hfirst] at hcases
    exact .inl hcases

/-- Every result of a reader satisfies `P`, and what it leaves is left of its input. -/
def Gives (ok : Token τ → Prop) (P : α → Prop) (r : Reader τ α) : Prop :=
  ∀ ⦃i⦄, i.Sound ok → ∀ ⦃a j⦄, r i = some (a, j) → i.Goes ok j ∧ P a

namespace Gives

variable {P : α → Prop} {Q : β → Prop} {r : Reader τ α}

theorem mono {P' : α → Prop} (h : Gives ok P r) (hsub : ∀ a, P a → P' a) : Gives ok P' r :=
  fun _ hi _ _ hr => ⟨(h hi hr).1, hsub _ (h hi hr).2⟩

theorem pure {a : α} (h : P a) : Gives ok P (Pure.pure a : Reader τ α) := by
  intro i hi b j hr
  cases hr
  exact ⟨.refl hi, h⟩

theorem bind {f : α → Reader τ β} (h : Gives ok P r) (hf : ∀ a, P a → Gives ok Q (f a)) :
    Gives ok Q (r >>= f) := by
  intro i hi b k hr
  obtain ⟨⟨a, j⟩, hfirst, hrest⟩ := Option.bind_eq_some_iff.mp hr
  obtain ⟨hgoes, ha⟩ := h hi hfirst
  obtain ⟨hgoes', hb⟩ := hf a ha hgoes.sound hrest
  exact ⟨hgoes.trans hgoes', hb⟩

theorem map {f : α → β} (h : Gives ok P r) (hf : ∀ a, P a → Q (f a)) : Gives ok Q (f <$> r) :=
  h.bind fun a ha => .pure (hf a ha)

/-- Nothing needs to be known of a result that is dropped. -/
theorem skip {r' : Reader τ β} (h : Gives ok P r) (h' : Gives ok Q r') :
    Gives ok Q (do let _ ← r; r') :=
  h.bind fun _ _ => h'

theorem void (h : Gives ok P r) : Gives ok (fun _ => True) (do let _ ← r : Reader τ Unit) :=
  h.skip (.pure trivial)

theorem orElse {r' : Reader τ α} (h : Gives ok P r) (h' : Gives ok P r') :
    Gives ok P (r <|> r') := by
  intro i hi a j hr
  exact (eq_some_of_orElse hr).elim (fun hr => h hi hr) (fun hr => h' hi hr)

theorem fail : Gives ok P (Reader.fail : Reader τ α) := by
  intro i hi a j hr
  cases hr

theorem ite {c : Prop} [Decidable c] {r' : Reader τ α} (h : c → Gives ok P r)
    (h' : ¬ c → Gives ok P r') : Gives ok P (if c then r else r') := by
  split
  · next hc => exact h hc
  · next hc => exact h' hc

/-- One of two readers, and what is done with its result. -/
theorem either {c : Prop} [Decidable c] {r' : Reader τ α} {f : α → Reader τ β} (h : Gives ok P r)
    (h' : Gives ok P r') (hf : ∀ a, P a → Gives ok Q (f a)) :
    Gives ok Q (if c then r >>= f else r' >>= f) :=
  .ite (fun _ => h.bind hf) fun _ => h'.bind hf

theorem here : Gives ok (fun _ => True) (Reader.here : Reader τ (Input τ)) := by
  intro i hi a j hr
  cases hr
  exact ⟨.refl hi, trivial⟩

theorem peek? : Gives ok (fun _ => True) (Reader.peek? : Reader τ (Option (Token τ))) := by
  intro i hi a j hr
  cases hr
  exact ⟨.refl hi, trivial⟩

theorem peekSecond? :
    Gives ok (fun _ => True) (Reader.peekSecond? : Reader τ (Option (Token τ))) := by
  intro i hi a j hr
  cases hr
  exact ⟨.refl hi, trivial⟩

theorem succeeds (r : Reader τ α) : Gives ok (fun _ => True) (Reader.succeeds r) := by
  intro i hi a j hr
  cases hr
  exact ⟨.refl hi, trivial⟩

theorem check (condition : Bool) :
    Gives ok (fun _ => condition = true) (Reader.check condition : Reader τ Unit) :=
  .ite (fun h => .pure h) fun _ => .fail

theorem token (p : Token τ → Bool) : Gives ok (fun t => p t = true ∧ ok t) (Reader.token p) := by
  intro i hi t j hr
  unfold Reader.token at hr
  split at hr
  · next u rest htokens =>
    split at hr
    · next hp =>
      cases hr
      have hparts : i.tokens = [] ++ t :: rest := htokens
      exact ⟨.of_append hi hparts, hp, hi.each t (htokens ▸ List.mem_cons_self)⟩
    · cases hr
  · cases hr

theorem optional (h : Gives ok P r) : Gives ok (fun o => ∀ a ∈ o, P a) (Reader.optional r) := by
  intro i hi o j hr
  unfold Reader.optional at hr
  split at hr
  · next a rest hfirst =>
    cases hr
    obtain ⟨hgoes, ha⟩ := h hi hfirst
    exact ⟨hgoes, fun b hb => Option.some.inj hb ▸ ha⟩
  · cases hr
    exact ⟨.refl hi, fun _ hb => absurd hb (Option.not_mem_none _)⟩

theorem manyFrom (h : Gives ok P r) {i : Input τ} (hi : i.Sound ok) :
    i.Goes ok (Reader.manyFrom r i).2 ∧ ∀ a ∈ (Reader.manyFrom r i).1, P a := by
  fun_induction Reader.manyFrom r i with
  | case1 i hnone => exact ⟨.refl hi, List.forall_mem_nil _⟩
  | case2 i a rest hfirst hshorter as rest' hrest ih =>
    obtain ⟨hgoes, ha⟩ := h hi hfirst
    obtain ⟨hgoes', has⟩ := ih hgoes.sound
    rw [hrest] at hgoes' has
    exact ⟨hgoes.trans hgoes', List.forall_mem_cons.mpr ⟨ha, has⟩⟩
  | case3 i a rest hfirst hshorter =>
    obtain ⟨hgoes, ha⟩ := h hi hfirst
    exact ⟨hgoes, List.forall_mem_singleton.mpr ha⟩

theorem many (h : Gives ok P r) : Gives ok (fun as => ∀ a ∈ as, P a) (Reader.many r) := by
  intro i hi as j hr
  have hfrom := h.manyFrom hi
  rwa [Option.some.inj hr] at hfrom

theorem many1 (h : Gives ok P r) : Gives ok (fun as => ∀ a ∈ as, P a) (Reader.many1 r) :=
  h.bind fun _ ha => h.many.bind fun _ has => .pure (List.forall_mem_cons.mpr ⟨ha, has⟩)

theorem separated1 {separator : Reader τ β} (hs : Gives ok Q separator) (h : Gives ok P r) :
    Gives ok (fun as => as ≠ [] ∧ ∀ a ∈ as, P a) (Reader.separated1 separator r) :=
  h.bind fun _ ha => (hs.bind fun _ _ => h).many.bind fun _ has =>
    .pure ⟨List.cons_ne_nil _ _, List.forall_mem_cons.mpr ⟨ha, has⟩⟩

theorem separated {separator : Reader τ β} (hs : Gives ok Q separator) (h : Gives ok P r) :
    Gives ok (fun as => ∀ a ∈ as, P a) (Reader.separated separator r) :=
  ((separated1 hs h).mono fun _ has => has.2).orElse (.pure (List.forall_mem_nil _))

theorem iterate {step : α → Reader τ α} (hstep : ∀ a, P a → Gives ok P (step a)) {a : α}
    (ha : P a) : Gives ok P (Reader.iterate step a) := by
  intro i hi b j hr
  have hfrom : i.Goes ok (iterateFrom step a i).2 ∧ P (iterateFrom step a i).1 := by
    clear hr
    fun_induction iterateFrom step a i with
    | case1 a i hnone => exact ⟨.refl hi, ha⟩
    | case2 a i b rest hfirst hshorter ih =>
      obtain ⟨hgoes, hb⟩ := hstep a ha hi hfirst
      obtain ⟨hgoes', hlast⟩ := ih hb hgoes.sound
      exact ⟨hgoes.trans hgoes', hlast⟩
    | case3 a i b rest hfirst hshorter => exact hstep a ha hi hfirst
  rwa [Option.some.inj hr] at hfrom

theorem bracketed (opens closes : Token τ → Bool) :
    Gives ok (fun _ => True) (Reader.bracketed opens closes) := by
  intro i hi a j hr
  unfold Reader.bracketed at hr
  split at hr
  · obtain ⟨⟨rest, stop⟩, hclosed, heq⟩ := Option.map_eq_some_iff.mp hr
    cases heq
    have hparts (depth : Nat) (ts : List (Token τ))
        (h : afterBrackets? opens closes depth ts = some (rest, stop)) :
        ∃ front t, ts = front ++ t :: rest ∧ stop = t.range.stop := by
      fun_induction afterBrackets? opens closes depth ts with
      | case1 => cases h
      | case2 depth t ts hopens ih | case4 depth t ts hopens hcloses hdepth ih
      | case5 depth t ts hopens hcloses ih =>
        obtain ⟨front, u, rfl, hstop⟩ := ih h
        exact ⟨t :: front, u, rfl, hstop⟩
      | case3 depth t ts hopens hcloses hdepth =>
        cases h
        exact ⟨[], t, rfl, rfl⟩
    obtain ⟨front, t, htokens, rfl⟩ := hparts 0 i.tokens hclosed
    exact ⟨.of_append hi htokens, trivial⟩
  · cases hr

/-! ### Trees -/

variable {T : Tree κ → Prop}

/-- Of a node that is closed the kind, the part and the children are known. -/
theorem close {start : Input τ} {kind : κ} {children : List (Tree κ)}
    (h : ∀ range text, T ⟨kind, .plain, range, text, children⟩) :
    Gives ok T (Reader.close start kind children) := by
  intro i hi a j hr
  cases hr
  exact ⟨.refl hi, h _ _⟩

theorem node {kind : κ} {C : List (Tree κ) → Prop} {r : Reader τ (List (Tree κ))}
    (h : Gives ok C r) (hT : ∀ children, C children → ∀ range text,
      T ⟨kind, .plain, range, text, children⟩) : Gives ok T (Reader.node kind r) :=
  here.bind fun _ _ => h.bind fun children hchildren => .close (hT children hchildren)

theorem leaf {kind : κ} {R : Token τ → Prop} {r : Reader τ (Token τ)} (h : Gives ok R r)
    (hT : ∀ t, R t → T ⟨kind, .plain, t.range, t.text, []⟩) : Gives ok T (Reader.leaf kind r) :=
  h.bind fun t ht => .pure (hT t ht)

theorem as {role : Role} {T' : Tree κ → Prop} {r : Reader τ (Tree κ)} (h : Gives ok T r)
    (hT : ∀ t, T t → T' (t.as role)) : Gives ok T' (Reader.as role r) :=
  h.map hT

theorem listed {r : Reader τ (Tree κ)} (h : Gives ok T r) :
    Gives ok (fun ts => ∀ t ∈ ts, T t) (Reader.listed r) :=
  h.optional.map fun _ ho t ht => ho t (Option.mem_toList.mp ht)

end Gives

/-! ## 3. First tokens -/

/-- A token takes its text from the front of its source, and begins with a character. -/
def BeginsWith (t : Token τ) (c : Char) : Prop :=
  ∃ cs, t.source = c :: cs ∧ t.range.start + c.utf8Size ≤ t.range.stop

/-- The first token between two inputs begins with a character that satisfies `C`. -/
def StartsAt (C : Char → Prop) (i j : Input τ) : Prop :=
  ∃ t rest c, i.tokens = t :: rest ∧ BeginsWith t c ∧ C c ∧ t.range.stop ≤ j.last

/-- A reader always takes a first token, and one that begins with a character in `C`. -/
def Starts (ok : Token τ → Prop) (C : Char → Prop) (r : Reader τ α) : Prop :=
  ∀ ⦃i⦄, i.Sound ok → ∀ ⦃a j⦄, r i = some (a, j) → StartsAt C i j

/-- If a reader takes tokens at all, the first one begins with a character in `C`. -/
def MayStart (ok : Token τ → Prop) (C : Char → Prop) (r : Reader τ α) : Prop :=
  ∀ ⦃i⦄, i.Sound ok → ∀ ⦃a j⦄, r i = some (a, j) → j.tokens = i.tokens ∨ StartsAt C i j

section Starts

variable {C : Char → Prop} {P : α → Prop} {Q : β → Prop} {r : Reader τ α} {f : α → Reader τ β}

theorem StartsAt.grow {i j k : Input τ} (h : StartsAt C i j) (hle : j.last ≤ k.last) :
    StartsAt C i k := by
  obtain ⟨t, rest, c, htokens, hbegins, hc, hstop⟩ := h
  exact ⟨t, rest, c, htokens, hbegins, hc, Nat.le_trans hstop hle⟩

theorem starts_token {p : Token τ → Bool} (h : ∀ t, ok t → p t = true → ∃ c, BeginsWith t c ∧ C c) :
    Starts ok C (Reader.token p) := by
  intro i hi t j hr
  have hgives : Gives ok _ (Reader.token p) := .token p
  obtain ⟨_, hp, hok⟩ := hgives hi hr
  obtain ⟨c, hbegins, hc⟩ := h t hok hp
  unfold token at hr
  split at hr
  · next u rest htokens =>
    split at hr
    · cases hr
      exact ⟨t, rest, c, htokens, hbegins, hc, Nat.le_refl _⟩
    · cases hr
  · cases hr

theorem Starts.bind (h : Starts ok C r) (hr : Gives ok P r) (hf : ∀ a, Gives ok Q (f a)) :
    Starts ok C (r >>= f) := by
  intro i hi b k hrun
  obtain ⟨⟨a, j⟩, hfirst, hrest⟩ := Option.bind_eq_some_iff.mp hrun
  exact (h hi hfirst).grow (hf a (hr hi hfirst).1.sound hrest).1.grows

theorem Starts.void (h : Starts ok C r) (hr : Gives ok P r) :
    Starts ok C (do let _ ← r : Reader τ Unit) :=
  h.bind hr fun _ => .pure (P := fun _ => True) trivial

theorem Starts.separated1 {separator : Reader τ β} (h : Starts ok C r) (hr : Gives ok P r)
    (hs : Gives ok Q separator) : Starts ok C (Reader.separated1 separator r) :=
  h.bind hr fun _ => (hs.skip hr).many.bind fun _ _ => .pure (P := fun _ => True) trivial

/-- A node begins as the first part of what is read for it does. -/
theorem Starts.mayStart_node {kind : κ} {T : Tree κ → Prop} {f : α → Reader τ (List (Tree κ))}
    (h : Starts ok C r) (hnode : Gives ok T (Reader.node kind (r >>= f))) :
    MayStart ok C (Reader.node kind (r >>= f)) := by
  intro i hi t j hrun
  obtain ⟨hgoes, _⟩ := hnode hi hrun
  rcases hgoes.taken with hsame | ⟨u, rest, htokens, _, hstop⟩
  · exact .inl hsame
  · obtain ⟨_, hchildren, _⟩ := Option.bind_eq_some_iff.mp hrun
    obtain ⟨_, hfirst, _⟩ := Option.bind_eq_some_iff.mp hchildren
    obtain ⟨v, rest', c, htokens', hbegins, hc, _⟩ := h hi hfirst
    obtain ⟨rfl, _⟩ := List.cons.inj (htokens'.symm.trans htokens)
    exact .inr ⟨v, rest, c, htokens, hbegins, hc, hstop⟩

theorem MayStart.bind (h : MayStart ok C r) (hr : Gives ok P r) (hf : ∀ a, Starts ok C (f a))
    (hgives : ∀ a, Gives ok Q (f a)) : Starts ok C (r >>= f) := by
  intro i hi b k hrun
  obtain ⟨⟨a, j⟩, hfirst, hrest⟩ := Option.bind_eq_some_iff.mp hrun
  have hsound := (hr hi hfirst).1.sound
  rcases h hi hfirst with hsame | hstarts
  · obtain ⟨t, rest, c, htokens, hbegins⟩ := hf a hsound hrest
    exact ⟨t, rest, c, hsame ▸ htokens, hbegins⟩
  · exact hstarts.grow (hgives a hsound hrest).1.grows

theorem Starts.orElse {r' : Reader τ α} (h : Starts ok C r) (h' : Starts ok C r') :
    Starts ok C (r <|> r') := by
  intro i hi a j hr
  exact (eq_some_of_orElse hr).elim (fun hr => h hi hr) (fun hr => h' hi hr)

theorem MayStart.many (h : MayStart ok C r) (hr : Gives ok P r) :
    MayStart ok C (Reader.many r) := by
  intro i hi as j hrun
  have hrun := Option.some.inj hrun
  -- One step is enough: what is read after it only moves the end on.
  rw [manyFrom] at hrun
  split at hrun
  · cases hrun
    exact .inl rfl
  · next a rest hfirst =>
    have hmore := (hr.manyFrom (hr hi hfirst).1.sound).1
    split at hrun
    · next hshorter =>
      cases hrun
      rcases h hi hfirst with hsame | hstarts
      · rw [hsame] at hshorter
        exact absurd hshorter (Nat.lt_irrefl _)
      · exact .inr (hstarts.grow hmore.grows)
    · cases hrun
      exact h hi hfirst

/-- **The text of a node begins as its first token does.** -/
theorem head?_node {kind : κ} {r : Reader τ (List (Tree κ))} (h : Starts ok C r) ⦃i j : Input τ⦄
    (hi : i.Sound ok) ⦃t : Tree κ⦄ (hr : Reader.node kind r i = some (t, j)) :
    ∃ c cs, t.text.toList = c :: cs ∧ C c := by
  obtain ⟨⟨children, k⟩, hchildren, hclose⟩ := Option.bind_eq_some_iff.mp hr
  cases hclose
  obtain ⟨u, rest, c, htokens, ⟨cs, hsource, hwidth⟩, hc, hstop⟩ := h hi hchildren
  have hfits : c.utf8Size ≤ j.last - u.range.start := by omega
  obtain ⟨n, hn⟩ : ∃ n, j.last - u.range.start = n + 1 :=
    ⟨j.last - u.range.start - 1, by have := c.utf8Size_pos; omega⟩
  refine ⟨c, Text.before (n + 1 - c.utf8Size) cs, ?_, hc⟩
  show (textFrom i (j.last - offset i)).toList = _
  rw [textFrom, offset, htokens]
  simp only [String.toList_ofList, hsource, hn]
  rw [Text.before, if_pos (by omega)]

end Starts

end Reader

end AndroidLint.Syntax
