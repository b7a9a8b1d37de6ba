/-
  File:      AndroidLint/Syntax/Vocabulary.lean
  Subject:   Words, names and signs among the tokens of a language.

  A language says which of its tokens are words and signs, and which words are no names. How they
  are read is the same for all languages.
-/
import AndroidLint.Syntax.Reader

namespace AndroidLint.Syntax

/-- The words and signs of a language with kinds of tokens in `τ`. -/
class Vocabulary (τ : Type) where
  /-- The kind of the words. -/
  word : τ
  /-- The kind of the signs. -/
  sign : τ
  /-- The words that are no names. -/
  keywords : List String

variable {τ α : Type} [DecidableEq τ] [Vocabulary τ]

/-! ## 1. One token -/

/-- Whether a token is a given word. -/
def isWord (text : String) (t : Token τ) : Bool := t.kind == Vocabulary.word && t.text == text

/-- Whether a token is a given sign. -/
def isSign (text : String) (t : Token τ) : Bool := t.kind == Vocabulary.sign && t.text == text

/-- Whether a token is a name. -/
def isName (t : Token τ) : Bool :=
  t.kind == Vocabulary.word && !(Vocabulary.keywords τ).contains t.text

/-- Whether the next token is a given word. -/
def atWord (text : String) : Reader τ Bool := do return (← Reader.peek?).any (isWord text)

/-- Whether the next token is a given sign. -/
def atSign (text : String) : Reader τ Bool := do return (← Reader.peek?).any (isSign text)

/-- Take a given word. -/
def word (text : String) : Reader τ Unit := do let _ ← Reader.token (isWord text)

/-- Take a given sign. -/
def sign (text : String) : Reader τ Unit := do let _ ← Reader.token (isSign text)

/-- A sign that directly follows the last token. -/
def attached (text : String) : Reader τ Unit := do
  let before ← Reader.here
  let t ← Reader.token (isSign text)
  Reader.check (t.range.start == before.last)

/-! ## 2. Signs around and between -/

/-- What stands between two signs. -/
def between (opening closing : String) (r : Reader τ α) : Reader τ α := do
  sign opening
  let inside ← r
  sign closing
  pure inside

/-- Things with commas between. -/
def commaSeparated (r : Reader τ α) : Reader τ (List α) := Reader.separated (sign ",") r

/-- Take a bracketed run of tokens, whatever it holds. -/
def bracketed (opening closing : String) : Reader τ Unit :=
  Reader.bracketed (isSign opening) (isSign closing)

end AndroidLint.Syntax
