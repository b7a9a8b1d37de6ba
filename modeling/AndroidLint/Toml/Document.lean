/-
  File:      AndroidLint/Toml/Document.lean
  Subject:   Reading a TOML text.
-/
import AndroidLint.Text.Word
import AndroidLint.Toml.Moment
import AndroidLint.Toml.Number
import AndroidLint.Toml.Table
import AndroidLint.Toml.Text

namespace AndroidLint.Toml

/-! ## 1. Keys -/

/-- Read a key without dots. -/
def readSimpleKey (cs : List Char) : Option (String × List Char) :=
  match cs with
  | '"' :: _ | '\'' :: _ => readLineString cs
  | _ =>
    let name := cs.takeWhile Text.isBareChar
    if name.isEmpty then none else some (String.ofList name, cs.drop name.length)

/-- Read the parts of a key, which have dots and perhaps blanks between them. -/
def readKeyFrom : Nat → List Char → Option (List String × List Char)
  | 0, _ => none
  | fuel + 1, cs => do
    let (name, rest) ← readSimpleKey (cs.dropWhile Text.isInlineBlank)
    match rest.dropWhile Text.isInlineBlank with
    | '.' :: rest =>
      let (names, rest) ← readKeyFrom fuel rest
      pure (name :: names, rest)
    | rest => pure ([name], rest)

/-- The greatest number of parts of a key and of brackets around a value, and one more. -/
def nestingLimit : Nat := 80

/-- Read a key, with the blanks around it, as the path to a table and the key in it. -/
def readKey (cs : List Char) : Option (List String × String × List Char) := do
  let (names, rest) ← readKeyFrom (cs.length + 1) cs
  if names.length < nestingLimit then
    let key ← names.getLast?
    pure (names.dropLast, key, rest)
  else none

/-! ## 2. Values -/

/-- The characters of numbers, dates and the names of values. -/
def isWordChar (c : Char) : Bool := c.isAlphanum || "+-_.:".contains c

/-- The value of a word. -/
def wordValue? (word : List Char) : Option Value :=
  if word = "true".toList then some (.boolean true)
  else if word = "false".toList then some (.boolean false)
  else
    match moment? word with
    | some text => some (.moment text)
    | none =>
      if isFloat word then some (.float (String.ofList word)) else (integer? word).map .integer

/-- Read a word. A date and a time may have a blank between them. -/
def readWord (cs : List Char) : Option (Value × List Char) :=
  let word := cs.takeWhile isWordChar
  let rest := cs.drop word.length
  let plain := (wordValue? word).map fun v => (v, rest)
  match rest with
  | ' ' :: further =>
    let second := further.takeWhile isWordChar
    match readDate word, moment? (word ++ ' ' :: second) with
    | some _, some text => some (.moment text, further.drop second.length)
    | _, _ => plain
  | _ => plain

/-- Past blanks, comments and line ends inside an array. -/
def skipArrayGap : Nat → List Char → List Char
  | 0, cs => cs
  | fuel + 1, cs =>
    let cs := cs.dropWhile Text.isInlineBlank
    match lineEnd? (skipComment cs) with
    | some rest => skipArrayGap fuel rest
    | none => cs

mutual

/-- Read a value; `depth` is how many brackets may be open around its parts. -/
def readValue : Nat → (depth : Nat) → List Char → Option (Value × List Char)
  | 0, _, _ => none
  | fuel + 1, depth, cs =>
    match cs with
    | '"' :: _ | '\'' :: _ => (readString cs).map fun (s, rest) => (.text s, rest)
    | '[' :: rest =>
      if depth = 0 then none
      else (readItems fuel (depth - 1) rest).map fun (items, rest) => (.array items, rest)
    | '\x7b' :: rest =>
      if depth = 0 then none
      else
        match rest.dropWhile Text.isInlineBlank with
        | '\x7d' :: rest => some (.table [], rest)
        | _ => (readEntries fuel (depth - 1) [] rest).map fun (entries, rest) =>
          (.table (valuesOf entries), rest)
    | _ => readWord cs

/-- Read the items of an array. A comma may follow the last one. -/
def readItems : Nat → (depth : Nat) → List Char → Option (List Value × List Char)
  | 0, _, _ => none
  | fuel + 1, depth, cs => do
    match skipArrayGap cs.length cs with
    | ']' :: rest => pure ([], rest)
    | cs =>
      let (item, rest) ← readValue fuel depth cs
      match skipArrayGap rest.length rest with
      | ',' :: rest =>
        let (items, rest) ← readItems fuel depth rest
        pure (item :: items, rest)
      | ']' :: rest => pure ([item], rest)
      | _ => none

/-- Read the entries of a table in braces, at least one, after those read before. -/
def readEntries : Nat → (depth : Nat) → Entries → List Char → Option (Entries × List Char)
  | 0, _, _, _ => none
  | fuel + 1, depth, entries, cs => do
    let (path, key, rest) ← readKey cs
    let rest ← expect '=' rest
    let (v, rest) ← readValue fuel depth (rest.dropWhile Text.isInlineBlank)
    let entries ← Entries.put? path key v .header entries
    match rest.dropWhile Text.isInlineBlank with
    | ',' :: rest => readEntries fuel depth entries rest
    | '\x7d' :: rest => pure (entries, rest)
    | _ => none

end

/-! ## 3. Lines -/

/-- What follows a line of which only blanks and a comment are left. -/
def finishLine (cs : List Char) : Option (List Char) :=
  match skipComment (cs.dropWhile Text.isInlineBlank) with
  | [] => some []
  | rest => lineEnd? rest

/-- A line that says something. -/
inductive Line where
  | table (path : List String) (key : String)
  | row (path : List String) (key : String)
  | entry (path : List String) (key : String) (value : Value)

/-- Read a line that begins with neither a blank nor a comment, to the next line. -/
def readLine (cs : List Char) : Option (Line × List Char) := do
  match cs with
  | '[' :: '[' :: rest =>
    let (path, key, rest) ← readKey rest
    let rest ← expect ']' rest >>= expect ']'
    pure (.row path key, ← finishLine rest)
  | '[' :: rest =>
    let (path, key, rest) ← readKey rest
    let rest ← expect ']' rest
    pure (.table path key, ← finishLine rest)
  | _ =>
    let (path, key, rest) ← readKey cs
    let rest ← expect '=' rest
    let rest := rest.dropWhile Text.isInlineBlank
    let (v, rest) ← readValue (2 * rest.length + 2) (nestingLimit - 1) rest
    pure (.entry path key v, ← finishLine rest)

/-- Read all lines. -/
def readLines : Nat → List Char → Option (List Line)
  | 0, _ => none
  | fuel + 1, cs =>
    match cs.dropWhile Text.isInlineBlank with
    | [] => some []
    | cs =>
      match finishLine cs with
      | some rest => readLines fuel rest
      | none => do
        let (line, rest) ← readLine cs
        pure (line :: (← readLines fuel rest))

/-- The table that lines describe; `header` leads to the table that they add to. -/
def tableOf? : (header : List String) → Entries → List Line → Option Entries
  | _, entries, [] => some entries
  | _, entries, .table path key :: rest => do
    tableOf? (path ++ [key]) (← Entries.beginTable? path key entries) rest
  | _, entries, .row path key :: rest => do
    tableOf? (path ++ [key]) (← Entries.beginRow? path key entries) rest
  | header, entries, .entry path key v :: rest => do
    tableOf? header (← Entries.putUnder? header path key v entries) rest

/-- The table that a text describes. A byte order mark in front is passed over. -/
def ofText? (text : List Char) : Option Value := do
  let text := if text.head? = some '\ufeff' then text.drop 1 else text
  let lines ← readLines (text.length + 1) text
  let entries ← tableOf? [] [] lines
  pure (.table (valuesOf entries))

end AndroidLint.Toml
