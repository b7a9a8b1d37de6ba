/-
  File:      AndroidLint/Toml/Text.lean
  Subject:   Strings.

  Strings in double quotes know escapes, those in single quotes do not. Three quotes begin a string
  of several lines; a line end right after them does not count, and at its end one or two quotes may
  stand before the three that close it.
-/
import AndroidLint.Text.Blank
import AndroidLint.Text.Number
import AndroidLint.Toml.Value

namespace AndroidLint.Toml

/-! ## 1. Escapes -/

/-- The character that a letter after a backslash stands for. -/
def simpleEscape? : Char → Option Char
  | 'b' => some '\x08'
  | 't' => some '\t'
  | 'n' => some '\n'
  | 'f' => some '\x0c'
  | 'r' => some '\r'
  | '"' => some '"'
  | '\\' => some '\\'
  | _ => none

/-- The character with a code of `n` hexadecimal digits in front, and what follows it. -/
def readCode (n : Nat) (cs : List Char) : Option (Char × List Char) := do
  if (cs.take n).length = n then
    let code ← Text.natural? 16 (cs.take n)
    if code.isValidChar then some (Char.ofNat code, cs.drop n) else none
  else none

/-- The character that follows a backslash, and what follows it. -/
def readEscape : List Char → Option (Char × List Char)
  | [] => none
  | 'u' :: rest => readCode 4 rest
  | 'U' :: rest => readCode 8 rest
  | e :: rest => (simpleEscape? e).map fun ch => (ch, rest)

/-- Past blanks and line ends. -/
def skipBlankLines : Nat → List Char → List Char
  | 0, cs => cs
  | fuel + 1, cs =>
    let cs := cs.dropWhile Text.isInlineBlank
    match lineEnd? cs with
    | some rest => skipBlankLines fuel rest
    | none => cs

/-- What follows a backslash at the end of a line: all blanks and line ends are passed over. -/
def skipLineJoin? (cs : List Char) : Option (List Char) :=
  (lineEnd? (cs.dropWhile Text.isInlineBlank)).map fun rest => skipBlankLines (rest.length + 1) rest

/-! ## 2. Strings of one line -/

/-- The rest of a string of one line, up to its closing quote. -/
def readLineText (quote : Char) : Nat → List Char → Option (List Char × List Char)
  | 0, _ => none
  | fuel + 1, cs =>
    match cs with
    | [] => none
    | c :: rest =>
      if c = quote then some ([], rest)
      else if c = '\\' && quote = '"' then do
        let (ch, rest) ← readEscape rest
        let (text, rest) ← readLineText quote fuel rest
        pure (ch :: text, rest)
      else if isTextChar c then do
        let (text, rest) ← readLineText quote fuel rest
        pure (c :: text, rest)
      else none

/-! ## 3. Strings of several lines -/

/-- The rest of a string of several lines, up to the quotes that close it. -/
def readLinesText (quote : Char) : Nat → List Char → Option (List Char × List Char)
  | 0, _ => none
  | fuel + 1, cs =>
    let quotes := (cs.takeWhile (· == quote)).length
    if 3 ≤ quotes then
      let kept := min quotes 5 - 3
      some (List.replicate kept quote, cs.drop (kept + 3))
    else
      match lineEnd? cs with
      | some rest => do
        let (text, rest) ← readLinesText quote fuel rest
        pure ('\n' :: text, rest)
      | none =>
        match cs with
        | [] => none
        | c :: rest =>
          if c = '\\' && quote = '"' then
            match skipLineJoin? rest with
            | some rest => readLinesText quote fuel rest
            | none => do
              let (ch, rest) ← readEscape rest
              let (text, rest) ← readLinesText quote fuel rest
              pure (ch :: text, rest)
          else if isTextChar c then do
            let (text, rest) ← readLinesText quote fuel rest
            pure (c :: text, rest)
          else none

/-! ## 4. Any string -/

/-- Read a string of one line that begins here. -/
def readLineString (cs : List Char) : Option (String × List Char) :=
  match cs with
  | quote :: rest =>
    if quote = '"' ∨ quote = '\'' then
      (readLineText quote (rest.length + 1) rest).map fun (text, rest) => (String.ofList text, rest)
    else none
  | [] => none

/-- Read a string that begins here. -/
def readString (cs : List Char) : Option (String × List Char) :=
  match cs with
  | a :: b :: c :: rest =>
    if (a = '"' ∨ a = '\'') ∧ b = a ∧ c = a then
      let rest := (lineEnd? rest).getD rest
      (readLinesText a (rest.length + 1) rest).map fun (text, rest) => (String.ofList text, rest)
    else readLineString cs
  | _ => readLineString cs

end AndroidLint.Toml
