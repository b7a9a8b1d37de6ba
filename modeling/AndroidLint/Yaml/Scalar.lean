/-
  File:      AndroidLint/Yaml/Scalar.lean
  Subject:   Reading scalars.

  A line end inside a plain or quoted scalar counts as a blank, and further ones as line ends; blanks
  around them do not count. A block scalar keeps its lines or folds them in the same way.
-/
import AndroidLint.Text.Number
import AndroidLint.Yaml.Cursor

namespace AndroidLint.Yaml

/-- How a scalar is written. -/
inductive ScalarStyle where
  | plain
  | singleQuoted
  | doubleQuoted
  | literal
  | folded
  deriving DecidableEq, Repr

/-! ## 1. Gaps between the words of a scalar -/

/-- The blanks and line ends between two words. -/
structure Gap where
  /-- Blanks, as long as there is no line end. -/
  blanks : List Char := []
  /-- The first line end. -/
  first : List Char := []
  /-- Further line ends. -/
  further : List Char := []
  /-- Whether there is a line end, which may be escaped and then is not in `first`. -/
  crossesLine : Bool := false

/-- What a gap counts as. -/
def Gap.text (g : Gap) : List Char :=
  if g.crossesLine then
    if g.first.head? = some '\n' then (if g.further.isEmpty then [' '] else g.further)
    else g.first ++ g.further
  else g.blanks

/-- Read blanks and line ends. A tab before column `limit` of a new line is refused. -/
def readGapFrom (limit : Nat) : Nat → Gap → Cursor → Option (Gap × Cursor)
  | 0, g, c => some (g, c)
  | fuel + 1, g, c =>
    match c.head? with
    | none => some (g, c)
    | some ch =>
      if Text.isInlineBlank ch then
        if g.crossesLine then
          if ch = '\t' && c.column < limit then none else readGapFrom limit fuel g (c.skip 1)
        else readGapFrom limit fuel { g with blanks := g.blanks ++ [ch] } (c.skip 1)
      else if isBreak ch then
        let g := if g.crossesLine then { g with further := g.further ++ c.lineEnd }
          else { g with blanks := [], first := c.lineEnd, crossesLine := true }
        readGapFrom limit fuel g c.skipLine
      else some (g, c)

/-- Read the blanks and line ends that follow. -/
def readGap (limit : Nat) (g : Gap) (c : Cursor) : Option (Gap × Cursor) :=
  readGapFrom limit c.rest.length g c

/-! ## 2. Plain scalars -/

/-- The characters that have a meaning of their own inside brackets. -/
def isFlowIndicator (c : Char) : Bool := [',', '[', ']', '{', '}'].contains c

/-- The characters of a plain scalar up to a blank, a line end or an indicator. A colon inside
    brackets may not stand right before an indicator. -/
def readPlainRun (inFlow : Bool) : List Char → Option (List Char)
  | [] => some []
  | ch :: rest =>
    let next := rest.head?
    if Text.isInlineBlank ch || isBreak ch then some []
    else if ch = ':' then
      if inFlow && next.any fun d => isFlowIndicator d || d == '?' then none
      else if next.all fun d => Text.isInlineBlank d || isBreak d then some []
      else (readPlainRun inFlow rest).map (ch :: ·)
    else if inFlow && isFlowIndicator ch then some []
    else (readPlainRun inFlow rest).map (ch :: ·)

/-- Read a plain scalar on. `limit` is the least column of its further lines outside of brackets;
    `gap` stands between `text` and the next run. The result says whether the scalar is followed by
    a line end. -/
def readPlainFrom (inFlow : Bool) (limit : Nat) :
    Nat → (text : List Char) → (gap : Gap) → Cursor → Option (List Char × Bool × Cursor)
  | 0, text, gap, c => some (text, gap.crossesLine, c)
  | fuel + 1, text, gap, c => do
    if c.isDocumentMark || c.head? = some '#' then return (text, gap.crossesLine, c)
    let run ← readPlainRun inFlow c.rest
    let text := if run.isEmpty then text else text ++ gap.text ++ run
    let gap := if run.isEmpty then gap else {}
    let c := c.skip run.length
    let goesOn := c.head?.any fun ch => Text.isInlineBlank ch || isBreak ch
    if !goesOn then return (text, gap.crossesLine, c)
    let (gap, c) ← readGap limit gap c
    if !inFlow && c.column < limit then return (text, gap.crossesLine, c)
    readPlainFrom inFlow limit fuel text gap c

/-- Read a plain scalar. -/
def readPlain (inFlow : Bool) (limit : Nat) (c : Cursor) : Option (List Char × Bool × Cursor) :=
  readPlainFrom inFlow limit (c.rest.length + 1) [] {} c

/-! ## 3. Quoted scalars -/

/-- The character that a letter after a backslash stands for. -/
def simpleEscape? : Char → Option Char
  | '0' => some '\x00'
  | 'a' => some '\x07'
  | 'b' => some '\x08'
  | 't' => some '\t'
  | '\t' => some '\t'
  | 'n' => some '\n'
  | 'v' => some '\x0b'
  | 'f' => some '\x0c'
  | 'r' => some '\r'
  | 'e' => some '\x1b'
  | ' ' => some ' '
  | '"' => some '"'
  | '/' => some '/'
  | '\\' => some '\\'
  | 'N' => some '\u0085'
  | '_' => some '\u00a0'
  | 'L' => some '\u2028'
  | 'P' => some '\u2029'
  | _ => none

/-- The number of hexadecimal digits after a letter that gives a character by its code. -/
def codeLength? : Char → Option Nat
  | 'x' => some 2
  | 'u' => some 4
  | 'U' => some 8
  | _ => none

/-- The character with a code. -/
def charOfCode? (n : Nat) : Option Char := if n.isValidChar then some (Char.ofNat n) else none

/-- The character that follows a backslash, and what follows it. -/
def readEscape : List Char → Option (Char × List Char)
  | [] => none
  | e :: rest =>
    match codeLength? e with
    | some n =>
      if (rest.take n).length = n then do
        let code ← Text.natural? 16 (rest.take n)
        let ch ← charOfCode? code
        pure (ch, rest.drop n)
      else none
    | none => (simpleEscape? e).map fun ch => (ch, rest)

theorem readEscape_length_lt {cs rest : List Char} {ch : Char} (h : readEscape cs = some (ch, rest)) :
    rest.length < cs.length := by
  unfold readEscape at h
  split at h
  next => cases h
  next e tail =>
    split at h
    next n _ =>
      split at h
      next =>
        simp only [Option.bind_eq_bind, Option.pure_def] at h
        obtain ⟨_, _, h⟩ := Option.bind_eq_some_iff.1 h
        obtain ⟨_, _, h⟩ := Option.bind_eq_some_iff.1 h
        cases h
        simp only [List.length_drop, List.length_cons]
        omega
      next => cases h
    next =>
      obtain ⟨_, _, h⟩ := Option.map_eq_some_iff.1 h
      cases h
      simp

/-- The characters of a double-quoted scalar up to a blank, a line end or the closing quote, and what
    follows them. A backslash before a line end is left to the caller. -/
def readDoubleRun (cs : List Char) : Option (List Char × List Char) :=
  match cs with
  | [] => some ([], [])
  | ch :: rest =>
    if Text.isInlineBlank ch || isBreak ch || ch = '"' then some ([], ch :: rest)
    else if ch = '\\' then
      if rest.head?.any isBreak then some ([], ch :: rest)
      else
        match _found : readEscape rest with
        | none => none
        | some (decoded, rest) => (readDoubleRun rest).map fun p => (decoded :: p.1, p.2)
    else (readDoubleRun rest).map fun p => (ch :: p.1, p.2)
termination_by cs.length
decreasing_by
  · have := readEscape_length_lt _found; simp only [List.length_cons]; omega
  · simp

/-- The characters of a single-quoted scalar up to a blank, a line end or the closing quote, and what
    follows them. Two quotes stand for one. -/
def readSingleRun : List Char → List Char × List Char
  | '\'' :: '\'' :: rest => let p := readSingleRun rest; ('\'' :: p.1, p.2)
  | [] => ([], [])
  | ch :: rest =>
    if Text.isInlineBlank ch || isBreak ch || ch = '\'' then ([], ch :: rest)
    else let p := readSingleRun rest; (ch :: p.1, p.2)

/-- Read a quoted scalar on, up to its closing quote. -/
def readQuotedFrom (double : Bool) : Nat → (text : List Char) → Cursor → Option (List Char × Cursor)
  | 0, _, _ => none
  | fuel + 1, text, c => do
    if c.isDocumentMark || c.rest.isEmpty then none
    let (run, rest) ← if double then readDoubleRun c.rest else some (readSingleRun c.rest)
    let text := text ++ run
    let c := c.skip (c.rest.length - rest.length)
    let escaped := c.head? = some '\\'
    let c := if escaped then (c.skip 1).skipLine else c
    if c.head? = some (if double then '"' else '\'') then return (text, c.skip 1)
    let (gap, c) ← readGap 0 { crossesLine := escaped } c
    readQuotedFrom double fuel (text ++ gap.text) c

/-- Read a quoted scalar whose opening quote is passed. -/
def readQuoted (double : Bool) (c : Cursor) : Option (List Char × Cursor) :=
  readQuotedFrom double (c.rest.length + 1) [] c

/-! ## 4. Block scalars -/

/-- What is done with the line ends after the last line. -/
inductive Chomping where
  | strip
  | clip
  | keep
  deriving DecidableEq, Repr

/-- The sign for the last line ends. -/
def readChomping (c : Cursor) : Option (Chomping × Cursor) :=
  match c.head? with
  | some '+' => some (.keep, c.skip 1)
  | some '-' => some (.strip, c.skip 1)
  | _ => none

/-- The digit for the indentation; zero is refused. -/
def readIndentation (c : Cursor) : Option (Option Nat × Cursor) :=
  match c.head? with
  | some ch =>
    if ch = '0' then none
    else if ch.isDigit then some (some (ch.toNat - '0'.toNat), c.skip 1)
    else some (none, c)
  | none => some (none, c)

/-- The signs after the mark of a block scalar, in either order. -/
def readBlockHeader (c : Cursor) : Option (Chomping × Option Nat × Cursor) :=
  match readChomping c with
  | some (chomping, c) => do
    let (increment, c) ← readIndentation c
    pure (chomping, increment, c)
  | none => do
    let (increment, c) ← readIndentation c
    match increment, readChomping c with
    | some _, some (chomping, c) => pure (chomping, increment, c)
    | _, _ => pure (.clip, increment, c)

/-- Past blanks and a comment, to the next line. Anything else is refused. -/
def skipRestOfLine (c : Cursor) : Option Cursor :=
  let c := c.skipWhile Text.isInlineBlank
  let c := if c.head? = some '#' then c.skipWhile (!isBreak ·) else c
  match c.head? with
  | none => some c
  | some ch => if isBreak ch then some c.skipLine else none

/-- Read the indentation of a line and the empty lines before it. With no `indent` yet, the deepest
    indentation met is found as well. -/
def readIndentFrom (indent : Option Nat) :
    Nat → (deepest : Nat) → (breaks : List Char) → Cursor → Option (Nat × List Char × Cursor)
  | 0, deepest, breaks, c => some (deepest, breaks, c)
  | fuel + 1, deepest, breaks, c =>
    let spaces := (c.rest.takeWhile (· == ' ')).length
    let c := c.skip (match indent with | some n => min spaces (n - c.column) | none => spaces)
    let deepest := max deepest c.column
    if c.head? = some '\t' && indent.all (c.column < ·) then none
    else if c.head?.any isBreak then
      readIndentFrom indent fuel deepest (breaks ++ c.lineEnd) c.skipLine
    else some (deepest, breaks, c)

/-- Read the indentation of a line and the empty lines before it. -/
def readIndent (indent : Option Nat) (c : Cursor) : Option (Nat × List Char × Cursor) :=
  readIndentFrom indent (c.rest.length + 1) 0 [] c

/-- Read the lines of a block scalar at column `indent`. `first` is the end of the line before,
    `further` are the ends of the empty lines after it, and `afterBlank` says whether that line begins
    with a blank. The result is the text and the ends of the last lines. -/
def readBlockLines (folded : Bool) (indent : Nat) :
    Nat → (text first further : List Char) → (afterBlank : Bool) → Cursor →
      Option (List Char × List Char × List Char × Cursor)
  | 0, text, first, further, _, c => some (text, first, further, c)
  | fuel + 1, text, first, further, afterBlank, c => do
    if c.column != indent || c.rest.isEmpty then return (text, first, further, c)
    let blank := c.head?.any Text.isInlineBlank
    let joint :=
      if folded && first.head? = some '\n' && !afterBlank && !blank then
        (if further.isEmpty then [' '] else [])
      else first
    let line := c.rest.takeWhile (!isBreak ·)
    let c := c.skip line.length
    let first := c.lineEnd
    let (_, breaks, c) ← readIndent (some indent) c.skipLine
    readBlockLines folded indent fuel (text ++ joint ++ further ++ line) first breaks blank c

/-- Read a block scalar whose mark is passed; `parent` is the column of what is around it, when it
    stands in a block. -/
def readBlock (folded : Bool) (parent : Option Nat) (c : Cursor) : Option (List Char × Cursor) := do
  let (chomping, increment, c) ← readBlockHeader c
  let c ← skipRestOfLine c
  let given := increment.map (parent.getD 0 + ·)
  let (deepest, breaks, c) ← readIndent given c
  let least := match parent with | some n => n + 1 | none => 1
  let indent := given.getD (max deepest least)
  let (text, first, further, c) ←
    readBlockLines folded indent (c.rest.length + 1) [] [] breaks false c
  let ending := match chomping with
    | .strip => []
    | .clip => first
    | .keep => first ++ further
  pure (text ++ ending, c)

end AndroidLint.Yaml
