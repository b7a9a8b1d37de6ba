/-
  File:      AndroidLint/Json/Reader.lean
  Subject:   Reading JSON.

  The grammar is the strict one: no comments, no commas at the end, control characters in texts
  only as escapes, and no half of a surrogate pair alone. Reading keeps members that occur twice.
-/
import AndroidLint.Json.Value
import AndroidLint.Text.Number

namespace AndroidLint.Json

/-! ## 1. Blanks and words -/

/-- A character that may stand between the parts of a value. -/
def isBlank (c : Char) : Bool := c == ' ' || c == '\n' || c == '\r' || c == '\t'

/-- What follows the blanks in front. -/
def skipBlanks (cs : List Char) : List Char := cs.dropWhile isBlank

/-- What follows a word that stands in front. -/
def afterWord? : List Char → List Char → Option (List Char)
  | [], cs => some cs
  | w :: ws, c :: cs => if w = c then afterWord? ws cs else none
  | _ :: _, [] => none

/-! ## 2. Texts -/

/-- The character that a letter after a backslash stands for. -/
def simpleEscape? : Char → Option Char
  | '"' => some '"'
  | '\\' => some '\\'
  | '/' => some '/'
  | 'b' => some '\x08'
  | 'f' => some '\x0c'
  | 'n' => some '\n'
  | 'r' => some '\r'
  | 't' => some '\t'
  | _ => none

/-- The number of four hexadecimal digits, and what follows them. -/
def readUnit (cs : List Char) : Option (Nat × List Char) :=
  match cs with
  | a :: b :: c :: d :: rest => (Text.natural? 16 [a, b, c, d]).map fun n => (n, rest)
  | _ => none

/-- The character of a unit; the first unit of a pair needs the second one behind it. -/
def readCode (cs : List Char) : Option (Char × List Char) := do
  let (n, rest) ← readUnit cs
  if 0xD800 ≤ n ∧ n < 0xDC00 then
    match rest with
    | '\\' :: 'u' :: rest =>
      let (m, rest) ← readUnit rest
      if 0xDC00 ≤ m ∧ m < 0xE000 then
        pure (Char.ofNat (0x10000 + (n - 0xD800) * 0x400 + (m - 0xDC00)), rest)
      else none
    | _ => none
  else if 0xDC00 ≤ n ∧ n < 0xE000 then none
  else pure (Char.ofNat n, rest)

/-- The character that follows a backslash, and what follows it. -/
def readEscape : List Char → Option (Char × List Char)
  | 'u' :: rest => readCode rest
  | e :: rest => (simpleEscape? e).map fun c => (c, rest)
  | [] => none

/-- The rest of a text, up to the closing quote. -/
def readText : Nat → List Char → Option (List Char × List Char)
  | 0, _ => none
  | fuel + 1, cs =>
    match cs with
    | [] => none
    | '"' :: rest => some ([], rest)
    | '\\' :: rest => do
      let (c, rest) ← readEscape rest
      let (text, rest) ← readText fuel rest
      pure (c :: text, rest)
    | c :: rest =>
      if c.toNat < 0x20 then none
      else (readText fuel rest).map fun (text, rest) => (c :: text, rest)

/-! ## 3. Numbers -/

/-- The digits in front, at least one. -/
def readDigits (cs : List Char) : Option (List Char × List Char) :=
  let digits := cs.takeWhile Char.isDigit
  if digits.isEmpty then none else some (digits, cs.drop digits.length)

/-- The digits in front; only zero itself begins with a zero. -/
def readWhole (cs : List Char) : Option (List Char × List Char) :=
  match cs with
  | '0' :: rest => if rest.head?.any Char.isDigit then none else some (['0'], rest)
  | _ => readDigits cs

/-- A fraction, if one is in front. -/
def readFraction (cs : List Char) : Option (List Char × List Char) :=
  match cs with
  | '.' :: rest => (readDigits rest).map fun (ds, rest) => ('.' :: ds, rest)
  | _ => some ([], cs)

/-- An exponent, if one is in front. -/
def readExponent (cs : List Char) : Option (List Char × List Char) :=
  match cs with
  | e :: rest =>
    if e = 'e' ∨ e = 'E' then
      match rest with
      | '+' :: rest => (readDigits rest).map fun (ds, rest) => (e :: '+' :: ds, rest)
      | '-' :: rest => (readDigits rest).map fun (ds, rest) => (e :: '-' :: ds, rest)
      | _ => (readDigits rest).map fun (ds, rest) => (e :: ds, rest)
    else some ([], cs)
  | [] => some ([], cs)

/-- A number. One without sign, fraction and exponent counts as such below 2 to the power of 64. -/
def readNumber (cs : List Char) : Option (Value × List Char) := do
  let (sign, rest) := match cs with
    | '-' :: rest => (['-'], rest)
    | _ => ([], cs)
  let (whole, rest) ← readWhole rest
  let (fraction, rest) ← readFraction rest
  let (exponent, rest) ← readExponent rest
  let other := Value.number (String.ofList (sign ++ whole ++ fraction ++ exponent))
  if sign.isEmpty && fraction.isEmpty && exponent.isEmpty then
    let n ← Text.natural? 10 whole
    pure (if n < UInt64.size then .nat n else other, rest)
  else pure (other, rest)

/-! ## 4. Values -/

mutual

/-- Read a value with no blanks in front. -/
def readValue : Nat → List Char → Option (Value × List Char)
  | 0, _ => none
  | fuel + 1, cs =>
    match cs with
    | 'n' :: rest => (afterWord? "ull".toList rest).map fun rest => (.null, rest)
    | 't' :: rest => (afterWord? "rue".toList rest).map fun rest => (.bool true, rest)
    | 'f' :: rest => (afterWord? "alse".toList rest).map fun rest => (.bool false, rest)
    | '"' :: rest =>
      (readText (rest.length + 1) rest).map fun (text, rest) => (.str (String.ofList text), rest)
    | '[' :: rest =>
      match skipBlanks rest with
      | ']' :: rest => some (.arr [], rest)
      | rest => (readItems fuel rest).map fun (items, rest) => (.arr items, rest)
    | '\x7b' :: rest =>
      match skipBlanks rest with
      | '\x7d' :: rest => some (.obj [], rest)
      | rest => (readMembers fuel rest).map fun (members, rest) => (.obj members, rest)
    | _ => readNumber cs

/-- Read the items of an array, at least one, and its closing bracket. -/
def readItems : Nat → List Char → Option (List Value × List Char)
  | 0, _ => none
  | fuel + 1, cs => do
    let (v, rest) ← readValue fuel cs
    match skipBlanks rest with
    | ',' :: rest =>
      let (vs, rest) ← readItems fuel (skipBlanks rest)
      pure (v :: vs, rest)
    | ']' :: rest => pure ([v], rest)
    | _ => none

/-- Read the members of an object, at least one, and its closing brace. -/
def readMembers : Nat → List Char → Option (List (String × Value) × List Char)
  | 0, _ => none
  | fuel + 1, cs => do
    match cs with
    | '"' :: rest =>
      let (key, rest) ← readText (rest.length + 1) rest
      match skipBlanks rest with
      | ':' :: rest =>
        let (v, rest) ← readValue fuel (skipBlanks rest)
        match skipBlanks rest with
        | ',' :: rest =>
          let (ms, rest) ← readMembers fuel (skipBlanks rest)
          pure ((String.ofList key, v) :: ms, rest)
        | '\x7d' :: rest => pure ([(String.ofList key, v)], rest)
        | _ => none
      | _ => none
    | _ => none

end

/-- The value that a text is, with blanks around it. -/
def parse? (text : String) : Option Value := do
  let cs := skipBlanks text.toList
  let (v, rest) ← readValue (2 * cs.length + 1) cs
  if (skipBlanks rest).isEmpty then some v else none

end AndroidLint.Json
