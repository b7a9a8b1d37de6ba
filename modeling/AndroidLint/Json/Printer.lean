/-
  File:      AndroidLint/Json/Printer.lean
  Subject:   JSON written over several lines.

  Every item and every member stands on a line of its own, two blanks further in than what is around
  it. Empty arrays and objects stay on one line. Of the characters only quotes, backslashes and
  control characters are escaped.
-/
import AndroidLint.Json.Value

namespace AndroidLint.Json

/-! ## 1. Texts -/

/-- A hexadecimal digit. -/
def hexDigit (n : Nat) : Char := (Nat.toDigits 16 n).headD '0'

/-- A character as it is written in a text. -/
def escape (c : Char) : List Char :=
  if c = '"' then ['\\', '"']
  else if c = '\\' then ['\\', '\\']
  else if c = '\n' then ['\\', 'n']
  else if c = '\r' then ['\\', 'r']
  else if c = '\t' then ['\\', 't']
  else if c = '\x08' then ['\\', 'b']
  else if c = '\x0c' then ['\\', 'f']
  else if c.toNat < 0x20 then ['\\', 'u', '0', '0', hexDigit (c.toNat / 16), hexDigit (c.toNat % 16)]
  else [c]

/-- A text in quotes. -/
def quoted (s : String) : List Char := '"' :: s.toList.flatMap escape ++ ['"']

/-! ## 2. Values -/

/-- The beginning of a line. -/
def newLine (depth : Nat) : List Char := '\n' :: List.replicate (2 * depth) ' '

mutual

/-- A value that stands `depth` levels in. -/
def print (depth : Nat) : Value → List Char
  | .null => "null".toList
  | .bool true => "true".toList
  | .bool false => "false".toList
  | .nat n => Nat.toDigits 10 n
  | .number written => written.toList
  | .str s => quoted s
  | .arr [] => ['[', ']']
  | .arr (v :: vs) =>
    '[' :: newLine (depth + 1) ++ print (depth + 1) v ++ printItems (depth + 1) vs ++
      newLine depth ++ [']']
  | .obj [] => ['\x7b', '\x7d']
  | .obj ((k, v) :: ms) =>
    '\x7b' :: newLine (depth + 1) ++ quoted k ++ [':', ' '] ++ print (depth + 1) v ++
      printMembers (depth + 1) ms ++ newLine depth ++ ['\x7d']

/-- The items after the first one. -/
def printItems (depth : Nat) : List Value → List Char
  | [] => []
  | v :: vs => ',' :: newLine depth ++ print depth v ++ printItems depth vs

/-- The members after the first one. -/
def printMembers (depth : Nat) : List (String × Value) → List Char
  | [] => []
  | (k, v) :: ms =>
    ',' :: newLine depth ++ quoted k ++ [':', ' '] ++ print depth v ++ printMembers depth ms

end

/-- A value over several lines. -/
def pretty (v : Value) : String := String.ofList (print 0 v)

end AndroidLint.Json
