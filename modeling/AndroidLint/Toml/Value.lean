/-
  File:      AndroidLint/Toml/Value.lean
  Subject:   The values of a TOML text.
-/

namespace AndroidLint.Toml

/-- A value. -/
inductive Value where
  | text (s : String)
  | integer (n : Int)
  /-- A number with a fraction or an exponent, as it is written. -/
  | float (literal : String)
  | boolean (b : Bool)
  /-- A date, a time or both, in its one written form. -/
  | moment (text : String)
  | array (items : List Value)
  | table (entries : List (String × Value))

/-- The characters of comments and strings: a tab and everything that is not a control character of
    ASCII. -/
def isTextChar (c : Char) : Bool := c == '\t' || (' ' ≤ c && c != '\x7f')

/-- What follows the end of a line, if a line ends here. -/
def lineEnd? : List Char → Option (List Char)
  | '\n' :: rest => some rest
  | '\r' :: '\n' :: rest => some rest
  | _ => none

/-- What follows a comment, if one stands here. -/
def skipComment : List Char → List Char
  | '#' :: rest => rest.dropWhile isTextChar
  | cs => cs

end AndroidLint.Toml
