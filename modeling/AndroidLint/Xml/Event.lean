/-
  File:      AndroidLint/Xml/Event.lean
  Subject:   A text as a sequence of tags, runs of character data and other markup.

  * `Piece.read`   the piece of markup that a `<` begins, told apart by the character after it and
                   followed to the `>` that closes it;
  * `Piece.event`  what the piece means, given the elements that are open;
  * `scan`         all events of a text, each with its byte range, up to the end or the first fault.

  The ranges of the events are consecutive and cover the text as far as it was read. A byte order
  mark in front is left out and not counted.
-/
import AndroidLint.Text.Offset
import AndroidLint.Xml.Error

namespace AndroidLint.Xml

/-! ## 1. Where markup ends -/

/-- Cut at the first `>` before which stands an acceptable text. The text so far is handed to
    `accept` with its last character first. -/
def cutAt? (accept : List Char → Bool) (seen : List Char) :
    List Char → Option (List Char × List Char)
  | [] => none
  | c :: cs =>
    if c = '>' ∧ accept seen then some (seen.reverse, cs) else cutAt? accept (c :: seen) cs

theorem cutAt?_eq_some {accept : List Char → Bool} {seen cs content rest : List Char}
    (h : cutAt? accept seen cs = some (content, rest)) :
    seen.reverse ++ cs = content ++ '>' :: rest := by
  induction cs generalizing seen with
  | nil => simp [cutAt?] at h
  | cons c cs ih =>
    simp only [cutAt?] at h
    split at h
    next hc =>
      obtain ⟨rfl, rfl⟩ := Prod.mk.inj (Option.some.inj h)
      simp [hc.1]
    next => simpa using ih h

/-- Cut at the first `>` that stands outside quotes; `quote` is the quote that is open. -/
def cutTag? (quote : Option Char) : List Char → Option (List Char × List Char)
  | [] => none
  | c :: cs =>
    let keep (quote : Option Char) := (cutTag? quote cs).map fun p => (c :: p.1, p.2)
    match quote with
    | some q => keep (if c = q then none else some q)
    | none =>
      if c = '>' then some ([], cs)
      else keep (if c = '\'' ∨ c = '"' then some c else none)

theorem cutTag?_eq_some {quote : Option Char} {cs content rest : List Char}
    (h : cutTag? quote cs = some (content, rest)) : cs = content ++ '>' :: rest := by
  induction cs generalizing quote content with
  | nil => simp [cutTag?] at h
  | cons c cs ih =>
    simp only [cutTag?] at h
    split at h
    next =>
      obtain ⟨⟨inside, rest'⟩, hc, he⟩ := Option.map_eq_some_iff.1 h
      obtain ⟨rfl, rfl⟩ := Prod.mk.inj he
      simp [ih hc]
    next =>
      split at h
      next hgt =>
        obtain ⟨rfl, rfl⟩ := Prod.mk.inj (Option.some.inj h)
        simp [hgt]
      next =>
        obtain ⟨⟨inside, rest'⟩, hc, he⟩ := Option.map_eq_some_iff.1 h
        obtain ⟨rfl, rfl⟩ := Prod.mk.inj he
        simp [ih hc]

/-- Whether a comment may end here: `--` stands before the `>`, and not as part of the opening. -/
def endsComment (seen : List Char) : Bool :=
  4 < Text.width seen && "--".toList.isPrefixOf seen

/-- Whether a section of character data may end here. -/
def endsCData (seen : List Char) : Bool := "]]".toList.isPrefixOf seen

/-- Whether a document type declaration may end here: its inner angle brackets are paired. -/
def endsDoctype (seen : List Char) : Bool := seen.count '<' == seen.count '>'

/-! ## 2. Pieces of markup -/

/-- Markup by the way it begins, with what stands between its first character and its `>`. -/
inductive Piece where
  /-- `<content>` -/
  | tag (content : List Char)
  /-- `</content>` -/
  | ending (content : List Char)
  /-- `<?content>` -/
  | question (content : List Char)
  /-- `<content>` where the content begins with `!-`, `![` or `!D` -/
  | comment (content : List Char)
  | cdata (content : List Char)
  | doctype (content : List Char)
  deriving Repr

/-- What comes of looking for a piece of markup after a `<`. -/
inductive Reading where
  | endOfText
  | refused (fault : Fault)
  /-- A piece, the characters it takes after the `<`, and the rest of the text. -/
  | piece (piece : Piece) (used rest : List Char)

/-- A piece that ends at the first `>`, or with the text when there is none. -/
def Reading.upToClose (begin : Char) (piece : List Char → Piece) (cs : List Char) : Reading :=
  match cutAt? (fun _ => true) [] cs with
  | some (content, rest) => .piece (piece content) (begin :: content ++ ['>']) rest
  | none => .piece (piece cs) (begin :: cs) []

/-- A piece that begins with `!`, given the whole text after the `<`. -/
def Reading.bang (construct : Construct) (piece : List Char → Piece) (accept : List Char → Bool)
    (cs : List Char) : Reading :=
  match cutAt? accept [] cs with
  | some (content, rest) => .piece (piece content) (content ++ ['>']) rest
  | none => .refused (.cutShort construct)

/-- The first byte of a character's UTF-8 form, read as a character. -/
def leadByte (c : Char) : Char :=
  let code := c.toNat
  Char.ofNat <|
    if code < 0x80 then code
    else if code < 0x800 then 0xC0 + code / 0x40
    else if code < 0x10000 then 0xE0 + code / 0x1000
    else 0xF0 + code / 0x40000

/-- The piece of markup that a `<` begins, given the text after it. -/
def Piece.read (cs : List Char) : Reading :=
  match cs with
  | [] => .endOfText
  | '/' :: rest => .upToClose '/' .ending rest
  | '?' :: rest => .upToClose '?' .question rest
  | '!' :: kind =>
    match kind with
    | [] => .refused (.cutShort .bang)
    | '[' :: _ => .bang .cdata .cdata endsCData cs
    | '-' :: _ => .bang .comment .comment endsComment cs
    | 'D' :: _ | 'd' :: _ => .bang .doctype .doctype endsDoctype cs
    | other :: _ => .refused (.unknownBang (leadByte other))
  | _ :: _ =>
    match cutTag? none cs with
    | some (content, rest) => .piece (.tag content) (content ++ ['>']) rest
    | none => .refused (.cutShort .element)

theorem Reading.upToClose_eq {begin : Char} {make : List Char → Piece} {cs used rest : List Char}
    {piece : Piece} (h : Reading.upToClose begin make cs = .piece piece used rest) :
    begin :: cs = used ++ rest := by
  unfold Reading.upToClose at h
  split at h
  next hc =>
    obtain ⟨_, rfl, rfl⟩ := Reading.piece.inj h
    simpa using cutAt?_eq_some hc
  next =>
    obtain ⟨_, rfl, rfl⟩ := Reading.piece.inj h
    simp

theorem Reading.bang_eq {construct : Construct} {make : List Char → Piece}
    {accept : List Char → Bool} {cs used rest : List Char} {piece : Piece}
    (h : Reading.bang construct make accept cs = .piece piece used rest) : cs = used ++ rest := by
  unfold Reading.bang at h
  split at h
  next hc =>
    obtain ⟨_, rfl, rfl⟩ := Reading.piece.inj h
    simpa using cutAt?_eq_some hc
  next => cases h

/-- A piece takes the beginning of the text, and the rest is left. -/
theorem Piece.read_eq {cs used rest : List Char} {piece : Piece}
    (h : Piece.read cs = .piece piece used rest) : cs = used ++ rest := by
  unfold Piece.read at h
  split at h
  next => cases h
  next => exact Reading.upToClose_eq h
  next => exact Reading.upToClose_eq h
  next =>
    split at h
    next => cases h
    next => exact Reading.bang_eq h
    next => exact Reading.bang_eq h
    next => exact Reading.bang_eq h
    next => exact Reading.bang_eq h
    next => cases h
  next =>
    split at h
    next hc =>
      obtain ⟨_, rfl, rfl⟩ := Reading.piece.inj h
      simpa using cutTag?_eq_some hc
    next => cases h

/-! ## 3. Events -/

/-- One event of a text. -/
inductive Event where
  | start (tag : List Char)
  | empty (tag : List Char)
  | close
  | text (written : List Char)
  | cdata (written : List Char)
  /-- A comment, a declaration or a processing instruction. -/
  | other
  deriving DecidableEq, Repr

/-- The blanks that end a name. -/
def isNameBlank (c : Char) : Bool := c == ' ' || c == '\r' || c == '\n' || c == '\t'

/-- Whether a text begins with a word in capitals, written in any case of letters. -/
def beginsWithWord (word : String) (cs : List Char) : Bool :=
  word.toList.isPrefixOf (cs.map Char.toUpper)

/-- The name that an end tag carries: blanks behind it do not count, unless there is nothing
    else. -/
def endName (content : List Char) : List Char :=
  match content.reverse.dropWhile isNameBlank with
  | [] => content
  | name => name.reverse

/-- What a piece of markup means, and which elements are open after it. Refused with a fault and
    the number of bytes by which its place lies before the end of the piece. -/
def Piece.event (opened : List (List Char)) :
    Piece → Except (Nat × Fault) (Event × List (List Char))
  | .tag content =>
    let name := content.takeWhile fun c => !isNameBlank c
    if content.getLast? = some '/' then
      .ok (.empty (if name.length < content.length then name else content.dropLast), opened)
    else .ok (.start name, name :: opened)
  | .ending content =>
    let back := 1 + Text.width content
    match opened with
    | [] => .error (back, .wrongEnd [] content)
    | expected :: outer =>
      if endName content = expected then .ok (.close, outer)
      else .error (back, .wrongEnd expected (endName content))
  | .question content =>
    if 1 < Text.width content ∧ content.getLast? = some '?' then .ok (.other, opened)
    else .error (1 + Text.width content, .cutShort .declaration)
  | .comment content =>
    if "!--".toList.isPrefixOf content then .ok (.other, opened)
    else .error (0, .cutShort .comment)
  | .cdata content =>
    if beginsWithWord "![CDATA[" (content.take (content.length - 2)) then
      .ok (.cdata ((content.take (content.length - 2)).drop 8), opened)
    else .error (0, .cutShort .cdata)
  | .doctype content =>
    if beginsWithWord "!DOCTYPE" content then
      if (content.drop 8).all isNameBlank then .error (0, .emptyDoctype)
      else .ok (.other, opened)
    else .error (0, .cutShort .doctype)

/-- An event and the bytes it takes. -/
structure Placed where
  event : Event
  range : ByteRange
  deriving DecidableEq, Repr

/-- The events of a text, and the fault that ended the reading, if one did. -/
structure Scan where
  events : List Placed
  fault : Option (Nat × Fault)
  deriving Repr

/-- The scan with one more event in front. -/
def Scan.cons (placed : Placed) (scan : Scan) : Scan := ⟨placed :: scan.events, scan.fault⟩

/-- The scan that ends with a fault at once. -/
def Scan.stop (position : Nat) (fault : Fault) : Scan := ⟨[], some (position, fault)⟩

/-- The events of the rest of a text that begins at an offset, while elements with the given names
    are open. -/
def scanFrom (offset : Nat) (opened : List (List Char)) : List Char → Scan
  | [] => ⟨[], none⟩
  | c :: cs =>
    if c = '<' then
      match _found : Piece.read cs with
      | .endOfText => ⟨[], none⟩
      | .refused fault => .stop (offset + 1) fault
      | .piece piece used rest =>
        let stop := offset + 1 + Text.width used
        match piece.event opened with
        | .error (back, fault) => .stop (stop - back) fault
        | .ok (event, opened) => .cons ⟨event, ⟨offset, stop⟩⟩ (scanFrom stop opened rest)
    else
      let run := c :: cs.takeWhile (· != '<')
      let stop := offset + Text.width run
      .cons ⟨.text run, ⟨offset, stop⟩⟩ (scanFrom stop opened (cs.dropWhile (· != '<')))
termination_by cs => cs.length
decreasing_by
  · have whole := congrArg List.length (Piece.read_eq _found)
    simp only [List.length_append, List.length_cons] at whole ⊢
    omega
  · have shorter := (List.dropWhile_sublist (· != '<') (l := cs)).length_le
    simp only [List.length_cons]
    omega

/-- The character that some editors put in front of a file. -/
def byteOrderMark : Char := '\uFEFF'

/-- All events of a text. -/
def scan (contents : List Char) : Scan :=
  match contents with
  | c :: cs => if c = byteOrderMark then scanFrom 0 [] cs else scanFrom 0 [] contents
  | [] => ⟨[], none⟩

end AndroidLint.Xml
