/-
  File:      AndroidLint/Ignore/Pattern.lean
  Subject:   Patterns for paths in ignore files.

  A star stands for any bytes but slashes, a question mark for one such byte. Two stars between
  slashes stand for any folders, at the beginning also for none, and at the end for everything below.
  Brackets hold a choice of characters, braces a choice of patterns, and a backslash takes its meaning
  from the next character.
-/
import AndroidLint.Text.Split

namespace AndroidLint.Ignore

/-- A part of a pattern. -/
inductive Part where
  | literal (c : Char)
  /-- One byte that is no slash. -/
  | any
  /-- Bytes that are no slashes. -/
  | run
  /-- Folders at the beginning. -/
  | leadingFolders
  /-- Everything below. -/
  | everythingBelow
  /-- A slash, perhaps with folders and a slash after it. -/
  | innerFolders
  /-- One byte out of some ranges, or out of none of them. -/
  | choice (negated : Bool) (ranges : List (Char × Char))
  /-- One of some patterns. -/
  | alternatives (patterns : List (List Part))

/-! ## 1. Matching -/

/-- The byte of a slash. -/
def slash : UInt8 := 47

/-- A list and all its tails. -/
def tails {α : Type} : List α → List (List α)
  | [] => [[]]
  | a :: as => (a :: as) :: tails as

/-- What follows each slash. -/
def afterSlashes : List UInt8 → List (List UInt8)
  | [] => []
  | b :: bs => if b = slash then bs :: afterSlashes bs else afterSlashes bs

/-- What follows a run of bytes that are no slashes, for each such run in front. -/
def afterRuns : List UInt8 → List (List UInt8)
  | [] => [[]]
  | b :: bs => if b = slash then [b :: bs] else (b :: bs) :: afterRuns bs

/-- What follows the bytes of a character. -/
def afterChar (c : Char) (bs : List UInt8) : List (List UInt8) :=
  let width := (String.utf8EncodeChar c).length
  if bs.take width = String.utf8EncodeChar c then [bs.drop width] else []

/-- Whether a byte is in one of some ranges. -/
def inRanges (ranges : List (Char × Char)) (b : UInt8) : Bool :=
  ranges.any fun (lo, hi) => lo.toNat ≤ b.toNat && b.toNat ≤ hi.toNat

mutual

/-- What may follow a part of a pattern. -/
def Part.rests : Part → List UInt8 → List (List UInt8)
  | .literal c, bs => afterChar c bs
  | .any, bs => match bs with
    | b :: rest => if b = slash then [] else [rest]
    | [] => []
  | .run, bs => afterRuns bs
  | .leadingFolders, bs => bs :: afterSlashes bs
  | .everythingBelow, bs => match bs with
    | b :: rest => if b = slash then tails rest else []
    | [] => []
  | .innerFolders, bs => match bs with
    | b :: rest => if b = slash then rest :: afterSlashes rest else []
    | [] => []
  | .choice negated ranges, bs => match bs with
    | b :: rest => if inRanges ranges b != negated then [rest] else []
    | [] => []
  | .alternatives patterns, bs => restsOfSome patterns bs

/-- What may follow a pattern. -/
def restsOf : List Part → List UInt8 → List (List UInt8)
  | [], bs => [bs]
  | p :: ps, bs => ((p.rests bs).flatMap (restsOf ps)).eraseDups

/-- What may follow one of some patterns. -/
def restsOfSome : List (List Part) → List UInt8 → List (List UInt8)
  | [], _ => []
  | p :: ps, bs => restsOf p bs ++ restsOfSome ps bs

end

/-- Whether a pattern stands for a whole path. Two stars alone stand for every path. -/
def isMatch (pattern : List Part) (path : String) : Bool :=
  match pattern with
  | [.leadingFolders] => true
  | _ => (restsOf pattern path.toUTF8.toList).contains []

/-! ## 2. Reading -/

/-- The ranges in brackets after the opening one and a sign of negation. A closing bracket in front
    and a dash in front or at the end stand for themselves; a range must not run backwards. -/
def readRanges : Nat → (first inRange : Bool) → List (Char × Char) → List Char →
    Option (List (Char × Char) × List Char)
  | 0, _, _, _, _ => none
  | fuel + 1, first, inRange, ranges, cs =>
    match cs with
    | [] => none
    | c :: rest =>
      if c = ']' && !first then
        some (if inRange then ranges ++ [('-', '-')] else ranges, rest)
      else if c = '-' && !first && !inRange then readRanges fuel false true ranges rest
      else if inRange then
        match ranges.getLast? with
        | some (lo, _) =>
          if c < lo then none
          else readRanges fuel false false (ranges.dropLast ++ [(lo, c)]) rest
        | none => none
      else readRanges fuel false false (ranges ++ [(c, c)]) rest

/-- A choice of characters after its opening bracket. -/
def readChoice (cs : List Char) : Option (Part × List Char) :=
  let (negated, cs) := match cs with
    | '!' :: rest => (true, rest)
    | '^' :: rest => (true, rest)
    | _ => (false, cs)
  (readRanges (cs.length + 1) true false [] cs).map fun (ranges, rest) =>
    (.choice negated ranges, rest)

/-- The open braces of a pattern: the patterns that are finished, and the one that is not. -/
structure Level where
  finished : List (List Part) := []
  parts : List Part := []

/-- What two stars stand for after some parts. `before` is the character in front of them, and
    `nested` says whether they are in braces. The result says whether a slash behind them counts. -/
def doubleStar (parts : List Part) (before : Option Char) (nested : Bool) (next : Option Char) :
    List Part × Bool :=
  let plain := (parts ++ [.run, .run], false)
  if parts.isEmpty then
    if next.all (· == '/') then ([.leadingFolders], next.isSome) else plain
  else if before ≠ some '/' && !(nested && (before = some ',' || before = some '\x7b')) then plain
  else
    let atEnd := next.isNone || (nested && (next = some ',' || next = some '\x7d'))
    if atEnd || next = some '/' then
      let last := match parts.getLast? with
        | some .leadingFolders => Part.leadingFolders
        | some .everythingBelow => .everythingBelow
        | _ => if atEnd then .everythingBelow else .innerFolders
      (parts.dropLast ++ [last], !atEnd)
    else plain

/-- Read a pattern. `outer` are the open braces around it, and `before` is the character in front. -/
def readParts : Nat → (outer : List Level) → Level → (before : Option Char) → List Char →
    Option (List Part)
  | 0, _, _, _, _ => none
  | fuel + 1, outer, level, before, cs =>
    let add (p : Part) : Level := { level with parts := level.parts ++ [p] }
    match cs with
    | [] => if outer.isEmpty then some level.parts else none
    | '?' :: rest => readParts fuel outer (add .any) (some '?') rest
    | '*' :: '*' :: rest =>
      let (parts, takesSlash) := doubleStar level.parts before (!outer.isEmpty) rest.head?
      let level := { level with parts }
      if takesSlash then readParts fuel outer level (some '/') (rest.drop 1)
      else readParts fuel outer level (some '*') rest
    | '*' :: rest => readParts fuel outer (add .run) (some '*') rest
    | '[' :: rest => do
      let (p, rest) ← readChoice rest
      readParts fuel outer (add p) (some ']') rest
    | '\x7b' :: rest => readParts fuel (level :: outer) {} (some '\x7b') rest
    | '\x7d' :: rest =>
      match outer with
      | [] => none
      | around :: outer =>
        let choice := Part.alternatives (level.finished ++ [level.parts])
        readParts fuel outer { around with parts := around.parts ++ [choice] } (some '\x7d') rest
    | ',' :: rest =>
      if outer.isEmpty then readParts fuel outer (add (.literal ',')) (some ',') rest
      else
        readParts fuel outer { finished := level.finished ++ [level.parts] } (some ',') rest
    | '\\' :: rest =>
      match rest with
      | c :: rest => readParts fuel outer (add (.literal c)) (some c) rest
      | [] => none
    | c :: rest => readParts fuel outer (add (.literal c)) (some c) rest

/-- Read a pattern; a bracket or brace that is not closed makes it fail. -/
def readPattern (cs : List Char) : Option (List Part) :=
  readParts (cs.length + 1) [] {} none cs

end AndroidLint.Ignore
