/-
  File:      AndroidLint/Yaml/Token.lean
  Subject:   The tokens of a YAML text.

  Outside of brackets, blocks open and close by their columns; tokens for that are put in where no
  character stands. A key of a mapping shows only at the colon after it: the places where one may
  have begun are kept, and the tokens for it are put in there afterwards. Such a key is on one line
  and at most 1024 characters long.
-/
import AndroidLint.Yaml.Tag

namespace AndroidLint.Yaml

/-- A token. -/
inductive Token where
  | directive (d : Directive)
  | documentStart
  | documentEnd
  | blockSequenceStart
  | blockMappingStart
  | blockEnd
  | flowSequenceStart
  | flowSequenceEnd
  | flowMappingStart
  | flowMappingEnd
  | blockEntry
  | flowEntry
  | key
  | value
  | anchor (name : String)
  | alias (name : String)
  | tag (handle suffix : String)
  | scalar (style : ScalarStyle) (text : String)
  deriving DecidableEq, Repr

/-- A place where a key may have begun. -/
structure KeyStart where
  /-- Whether nothing but a key can stand there. -/
  required : Bool
  /-- The number of tokens before it. -/
  tokens : Nat
  cursor : Cursor

/-- How far a text is split into tokens. -/
structure Scan where
  cursor : Cursor
  tokens : List Token := []
  /-- Where a key of the innermost level may have begun. -/
  key? : Option KeyStart := none
  /-- The same for the levels around it, from the inside; each open bracket begins a level. -/
  outerKeys : List (Option KeyStart) := []
  /-- The columns of the open blocks, from the inside. -/
  indents : List Nat := []
  /-- Whether a key may begin at the next token. -/
  keyAllowed : Bool := true

namespace Scan

/-! ## 1. Blocks and keys -/

/-- Whether the next token stands in brackets. -/
def inFlow (s : Scan) : Bool := !s.outerKeys.isEmpty

/-- A token at the end. -/
def add (s : Scan) (t : Token) : Scan := { s with tokens := s.tokens ++ [t] }

/-- A token in front of which `n` tokens stand. -/
def insert (s : Scan) (n : Nat) (t : Token) : Scan :=
  { s with tokens := s.tokens.take n ++ t :: s.tokens.drop n }

/-- Past a token of `n` characters. -/
def past (s : Scan) (n : Nat) : Scan := { s with cursor := s.cursor.skip n }

/-- Begin a block at a column, unless one is open there, with its token behind `n` tokens. -/
def openBlock (s : Scan) (column n : Nat) (t : Token) : Scan :=
  if !s.inFlow && s.indents.head?.all (· < column) then
    { s.insert n t with indents := column :: s.indents }
  else s

/-- End the blocks that satisfy `p`, from the inside. -/
def closeBlocks (s : Scan) (p : Nat → Bool) : Scan :=
  if s.inFlow then s
  else
    { s with
      tokens := s.tokens ++ (s.indents.takeWhile p).map fun _ => .blockEnd
      indents := s.indents.dropWhile p }

/-- No key has begun at this level; one that had to be a key is an error. -/
def dropKey? (s : Scan) : Option Scan :=
  if s.key?.any (·.required) then none else some { s with key? := none }

/-- A key may begin here, if one is allowed. -/
def saveKey? (s : Scan) : Option Scan :=
  if s.keyAllowed then do
    let required := !s.inFlow && s.indents.head? = some s.cursor.column
    let s ← s.dropKey?
    pure { s with key? := some { required, tokens := s.tokens.length, cursor := s.cursor } }
  else some s

/-- A key that is still open at a cursor. One that had to be a key is an error when it is not. -/
def stillOpen? (c : Cursor) : Option KeyStart → Option (Option KeyStart)
  | none => some none
  | some k =>
    if k.cursor.line < c.line || k.cursor.index + 1024 < c.index then
      if k.required then none else some none
    else some (some k)

/-- Forget the keys that are on an earlier line or too far away. -/
def dropStaleKeys? (s : Scan) : Option Scan := do
  let key? ← stillOpen? s.cursor s.key?
  let outerKeys ← s.outerKeys.mapM (stillOpen? s.cursor)
  pure { s with key?, outerKeys }

/-! ## 2. Between tokens -/

/-- Past blanks, comments and line ends. A tab counts as a blank where no key may begin. -/
def skipGapFrom : Nat → Scan → Scan
  | 0, s => s
  | fuel + 1, s =>
    let c := s.cursor.skipWhile fun ch => ch == ' ' || (ch == '\t' && (s.inFlow || !s.keyAllowed))
    let c := if c.head? = some '#' then c.skipWhile (!isBreak ·) else c
    if c.head?.any isBreak then
      skipGapFrom fuel { s with cursor := c.skipLine, keyAllowed := s.keyAllowed || !s.inFlow }
    else { s with cursor := c }

/-- Past blanks, comments and line ends. -/
def skipGap (s : Scan) : Scan := skipGapFrom (s.cursor.rest.length + 1) s

/-! ## 3. One token -/

/-- All blocks end, and no key may begin. -/
def leaveDocument? (s : Scan) : Option Scan := do
  let s ← (s.closeBlocks fun _ => true).dropKey?
  pure { s with keyAllowed := false }

/-- A bracket that opens. -/
def openBracket? (s : Scan) (t : Token) : Option Scan := do
  let s ← s.saveKey?
  pure { (s.add t).past 1 with
    key? := none, outerKeys := s.key? :: s.outerKeys, keyAllowed := true }

/-- A bracket that closes. -/
def closeBracket? (s : Scan) (t : Token) : Option Scan := do
  let s ← s.dropKey?
  let s := match s.outerKeys with
    | key? :: outerKeys => { s with key?, outerKeys }
    | [] => s
  pure { (s.add t).past 1 with keyAllowed := false }

/-- An entry of a block sequence. -/
def blockEntry? (s : Scan) : Option Scan := do
  if !s.inFlow && !s.keyAllowed then none
  let s ← (s.openBlock s.cursor.column s.tokens.length .blockSequenceStart).dropKey?
  pure { (s.add .blockEntry).past 1 with keyAllowed := true }

/-- A question mark before a key. -/
def explicitKey? (s : Scan) : Option Scan := do
  if !s.inFlow && !s.keyAllowed then none
  let s ← (s.openBlock s.cursor.column s.tokens.length .blockMappingStart).dropKey?
  pure { (s.add .key).past 1 with keyAllowed := !s.inFlow }

/-- A colon before a value. -/
def value? (s : Scan) : Option Scan :=
  match s.key? with
  | some k =>
    let s := (s.insert k.tokens .key).openBlock k.cursor.column k.tokens .blockMappingStart
    some { (s.add .value).past 1 with key? := none, keyAllowed := false }
  | none =>
    if !s.inFlow && !s.keyAllowed then none
    else
      let s := s.openBlock s.cursor.column s.tokens.length .blockMappingStart
      some { (s.add .value).past 1 with keyAllowed := !s.inFlow }

/-- A token that may begin a key, with the cursor behind it. -/
def keyPart? (s : Scan) (read : Cursor → Option (Token × Cursor)) : Option Scan := do
  let s ← s.saveKey?
  let (t, cursor) ← read s.cursor
  pure { s.add t with cursor, keyAllowed := false }

/-- A block scalar. -/
def blockScalar? (s : Scan) (style : ScalarStyle) : Option Scan := do
  let s ← s.dropKey?
  let (text, cursor) ← readBlock (style = .folded) s.indents.head? (s.cursor.skip 1)
  pure { s.add (.scalar style (String.ofList text)) with cursor, keyAllowed := true }

/-- A plain scalar. When a line end follows it, a key may begin there. -/
def plain? (s : Scan) : Option Scan := do
  let s ← s.saveKey?
  let limit := match s.indents.head? with | some n => n + 1 | none => 0
  let (text, crossesLine, cursor) ← readPlain s.inFlow limit s.cursor
  pure { s.add (.scalar .plain (String.ofList text)) with cursor, keyAllowed := crossesLine }

/-- Whether a plain scalar begins at the cursor. -/
def beginsPlain (s : Scan) (ch : Char) : Bool :=
  if ch == '-' then !(s.cursor.rest[1]?.any Text.isInlineBlank)
  else if ch == '?' || ch == ':' then !s.inFlow && !s.cursor.isGapAt 1
  else !(isFlowIndicator ch || Text.isInlineBlank ch || isBreak ch ||
    ['#', '&', '*', '!', '|', '>', '\'', '"', '%', '@', '\x60'].contains ch)

/-- The token that begins with a character at the cursor. -/
def token? (s : Scan) (ch : Char) : Option Scan :=
  let c := s.cursor
  let gapOrFlow := s.inFlow || c.isGapAt 1
  if ch == '%' && c.column == 0 then do
    let s ← s.leaveDocument?
    let (d, cursor) ← readDirective (c.skip 1)
    pure { s.add (.directive d) with cursor }
  else if c.isMark "---" then s.leaveDocument?.map fun s => (s.add .documentStart).past 3
  else if c.isMark "..." then s.leaveDocument?.map fun s => (s.add .documentEnd).past 3
  else if ch == '[' then s.openBracket? .flowSequenceStart
  else if ch == '\x7b' then s.openBracket? .flowMappingStart
  else if ch == ']' then s.closeBracket? .flowSequenceEnd
  else if ch == '\x7d' then s.closeBracket? .flowMappingEnd
  else if ch == ',' then
    s.dropKey?.map fun s => { (s.add .flowEntry).past 1 with keyAllowed := true }
  else if ch == '-' && c.isGapAt 1 then s.blockEntry?
  else if ch == '?' && gapOrFlow then s.explicitKey?
  else if ch == ':' && gapOrFlow then s.value?
  else if ch == '*' then
    s.keyPart? fun c => (readAnchorName (c.skip 1)).map fun (name, c) => (.alias name, c)
  else if ch == '&' then
    s.keyPart? fun c => (readAnchorName (c.skip 1)).map fun (name, c) => (.anchor name, c)
  else if ch == '!' then
    s.keyPart? fun c => (readTag s.inFlow c).map fun (handle, suffix, c) => (.tag handle suffix, c)
  else if ch == '|' && !s.inFlow then s.blockScalar? .literal
  else if ch == '>' && !s.inFlow then s.blockScalar? .folded
  else if ch == '\'' then
    s.keyPart? fun c => (readQuoted false (c.skip 1)).map fun (text, c) =>
      (.scalar .singleQuoted (String.ofList text), c)
  else if ch == '"' then
    s.keyPart? fun c => (readQuoted true (c.skip 1)).map fun (text, c) =>
      (.scalar .doubleQuoted (String.ofList text), c)
  else if s.beginsPlain ch then s.plain?
  else none

/-! ## 4. A whole text -/

/-- Split what is left of a text into tokens. Every token but the ends of blocks takes a
    character. -/
def finish? : Nat → Scan → Option (List Token)
  | 0, _ => none
  | fuel + 1, s => do
    let s ← s.skipGap.dropStaleKeys?
    let s := s.closeBlocks (s.cursor.column < ·)
    match s.cursor.head? with
    | none => s.leaveDocument?.map (·.tokens)
    | some ch => finish? fuel (← s.token? ch)

end Scan

/-- The tokens of a text. A byte order mark in front only takes a column; a character that may not be
    in a text makes it fail. -/
def tokens? (text : List Char) : Option (List Token) :=
  if text.all isAllowed then
    let start : Cursor := { rest := text }
    let cursor := if start.head? = some '\ufeff' then start.skip 1 else start
    Scan.finish? (text.length + 1) { cursor }
  else none

end AndroidLint.Yaml
