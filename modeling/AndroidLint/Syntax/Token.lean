/-
  File:      AndroidLint/Syntax/Token.lean
  Subject:   Cutting a source file into tokens.
-/
import AndroidLint.Text.Offset

namespace AndroidLint.Syntax

/-- A token, with kinds of tokens in `τ`. -/
structure Token (τ : Type) where
  kind : τ
  text : String
  range : ByteRange
  /-- A line ends between the token before and this one. -/
  afterNewline : Bool
  /-- The file from the token on. -/
  source : List Char

/-- What stands at some place of a file. Each takes one character and a number of further ones. -/
inductive Lexeme (τ : Type) where
  /-- Blanks or a comment. -/
  | gap (further : Nat)
  | token (kind : τ) (further : Nat)

variable {τ : Type}

/-- The tokens of the rest of a file that begins at an offset. A language says what begins with a
    character, given those that follow it. -/
def tokensFrom (lexeme : Char → List Char → Lexeme τ) (offset : Nat) (afterNewline : Bool) :
    List Char → List (Token τ)
  | [] => []
  | c :: cs =>
    match lexeme c cs with
    | .gap further =>
      let run := c :: cs.take further
      tokensFrom lexeme (offset + Text.width run) (afterNewline || run.contains '\n')
        (cs.drop further)
    | .token kind further =>
      let run := c :: cs.take further
      let stop := offset + Text.width run
      { kind, text := String.ofList run, range := ⟨offset, stop⟩, afterNewline, source := c :: cs } ::
        tokensFrom lexeme stop false (cs.drop further)
termination_by cs => cs.length
decreasing_by all_goals simp only [List.length_drop, List.length_cons]; omega

/-- The tokens of a file. -/
def tokens (lexeme : Char → List Char → Lexeme τ) (contents : List Char) : List (Token τ) :=
  tokensFrom lexeme 0 false contents

/-! ## Lengths of runs -/

/-- The number of characters in front that satisfy `p`. -/
def runLength (p : Char → Bool) (cs : List Char) : Nat := (cs.takeWhile p).length

/-- The number of characters up to and with the closing quote; a backslash takes the character after
    it along. -/
def quotedLength (quote : Char) : List Char → Nat
  | [] => 0
  | '\\' :: _ :: cs => 2 + quotedLength quote cs
  | c :: cs => if c = quote then 1 else 1 + quotedLength quote cs

/-- The number of characters up to and with a closing text. -/
def closedLength (closing : List Char) : List Char → Nat
  | [] => 0
  | c :: cs => if closing.isPrefixOf (c :: cs) then closing.length else 1 + closedLength closing cs

/-- Whether a character is a digit or a mark between digits. -/
def isDigitOrMark (c : Char) : Bool := c.isDigit || c == '_'

/-- Whether a character is a hexadecimal digit or a mark between digits. -/
def isHexOrMark (c : Char) : Bool :=
  isDigitOrMark c || ('a' ≤ c && c ≤ 'f') || ('A' ≤ c && c ≤ 'F')

/-- The number of characters of an exponent that begins with one of two letters, zero when there is
    none. -/
def exponentLength (lower upper : Char) (cs : List Char) : Nat :=
  match cs with
  | e :: rest =>
    if e = lower ∨ e = upper then
      let sign := match rest with
        | '+' :: _ | '-' :: _ => 1
        | _ => 0
      let digits := runLength isDigitOrMark (rest.drop sign)
      if 0 < digits then 1 + sign + digits else 0
    else 0
  | [] => 0

/-- The number of further characters of a sign, where some signs have more than one character. The
    longer ones come first. -/
def signLength (longSigns : List (List Char)) (c : Char) (cs : List Char) : Nat :=
  match longSigns.find? (·.isPrefixOf (c :: cs)) with
  | some sign => sign.length - 1
  | none => 0

/-- Whether a character can go on with a word, where it is given which ones can begin a word. -/
def continuesWord (beginsWord : Char → Bool) (c : Char) : Bool := beginsWord c || c.isDigit

end AndroidLint.Syntax
