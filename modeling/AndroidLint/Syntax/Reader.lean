/-
  File:      AndroidLint/Syntax/Reader.lean
  Subject:   Reading trees from tokens.

  A reader takes tokens from the front of its input, or refuses. Where two readers are tried one
  after the other, the second begins where the first began.
-/
import AndroidLint.Syntax.Token
import AndroidLint.Syntax.Tree

namespace AndroidLint.Syntax

/-- The tokens that are still to be read. -/
structure Input (τ : Type) where
  tokens : List (Token τ)
  /-- Where the last token that was read ends. -/
  last : Nat

/-- Reads an `α` from tokens. -/
abbrev Reader (τ : Type) := StateT (Input τ) Option

namespace Reader

variable {τ κ α β : Type}

/-- Refuse. -/
def fail : Reader τ α := fun _ => none

/-- The input as it is. -/
def here : Reader τ (Input τ) := fun input => some (input, input)

/-- The next token, which stays. -/
def peek? : Reader τ (Option (Token τ)) := fun input => some (input.tokens.head?, input)

/-- The token after the next one, which stays. -/
def peekSecond? : Reader τ (Option (Token τ)) := fun input => some (input.tokens[1]?, input)

/-- Take the next token if it satisfies `p`. -/
def token (p : Token τ → Bool) : Reader τ (Token τ) := fun input =>
  match input.tokens with
  | t :: rest => if p t then some (t, ⟨rest, t.range.stop⟩) else none
  | [] => none

/-- Refuse unless a condition holds. -/
def check (condition : Bool) : Reader τ Unit := if condition then pure () else fail

/-- What a reader reads, or nothing where it refuses. -/
def optional (r : Reader τ α) : Reader τ (Option α) := fun input =>
  match r input with
  | some (a, rest) => some (some a, rest)
  | none => some (none, input)

/-- Whether a reader would succeed; nothing is taken. -/
def succeeds (r : Reader τ α) : Reader τ Bool := fun input => some ((r input).isSome, input)

/-- Read as often as possible. The reading also ends when nothing was taken. -/
def manyFrom (r : Reader τ α) (input : Input τ) : List α × Input τ :=
  match r input with
  | none => ([], input)
  | some (a, rest) =>
    if _shorter : rest.tokens.length < input.tokens.length then
      let (as, rest) := manyFrom r rest
      (a :: as, rest)
    else ([a], rest)
termination_by input.tokens.length

/-- Read as often as possible. -/
def many (r : Reader τ α) : Reader τ (List α) := fun input => some (manyFrom r input)

/-- Read at least once. -/
def many1 (r : Reader τ α) : Reader τ (List α) := do
  let first ← r
  let rest ← many r
  pure (first :: rest)

/-- Read at least once, with separators between. -/
def separated1 (separator : Reader τ β) (r : Reader τ α) : Reader τ (List α) := do
  let first ← r
  let rest ← many (do let _ ← separator; r)
  pure (first :: rest)

/-- Read any number, with separators between. -/
def separated (separator : Reader τ β) (r : Reader τ α) : Reader τ (List α) :=
  separated1 separator r <|> pure []

/-- Change a value step by step, as often as the step can be read. -/
def iterateFrom (step : α → Reader τ α) (a : α) (input : Input τ) : α × Input τ :=
  match step a input with
  | none => (a, input)
  | some (b, rest) =>
    if _shorter : rest.tokens.length < input.tokens.length then iterateFrom step b rest
    else (b, rest)
termination_by input.tokens.length

/-- Change a value step by step, as often as the step can be read. -/
def iterate (step : α → Reader τ α) (a : α) : Reader τ α := fun input =>
  some (iterateFrom step a input)

/-- The text that takes so many bytes from the beginning of an input. -/
def textFrom (start : Input τ) (bytes : Nat) : String :=
  match start.tokens with
  | t :: _ => String.ofList (Text.before bytes t.source)
  | [] => ""

/-- The offset at which an input begins. -/
def offset (start : Input τ) : Nat :=
  match start.tokens with
  | t :: _ => t.range.start
  | [] => start.last

/-- The node that goes from an earlier input to where the reader is now. -/
def close (start : Input τ) (kind : κ) (children : List (Tree κ)) : Reader τ (Tree κ) :=
  fun input =>
    let range : ByteRange := ⟨offset start, input.last⟩
    some (⟨kind, .plain, range, textFrom start range.length, children⟩, input)

/-- A node whose children are read by `r`. -/
def node (kind : κ) (r : Reader τ (List (Tree κ))) : Reader τ (Tree κ) := do
  let start ← here
  let children ← r
  close start kind children

/-- A leaf for one token. -/
def leaf (kind : κ) (r : Reader τ (Token τ)) : Reader τ (Tree κ) := do
  let t ← r
  pure ⟨kind, .plain, t.range, t.text, []⟩

/-- A node in a part. -/
def as (role : Role) (r : Reader τ (Tree κ)) : Reader τ (Tree κ) := (·.as role) <$> r

/-- What is optional, as a list. -/
def listed (r : Reader τ (Tree κ)) : Reader τ (List (Tree κ)) := (·.toList) <$> optional r

/-- The tokens after the bracket that closes the one that was opened last, and where it ends. -/
def afterBrackets? (opens closes : Token τ → Bool) : Nat → List (Token τ) →
    Option (List (Token τ) × Nat)
  | _, [] => none
  | depth, t :: rest =>
    if opens t then afterBrackets? opens closes (depth + 1) rest
    else if closes t then
      if depth ≤ 1 then some (rest, t.range.stop) else afterBrackets? opens closes (depth - 1) rest
    else afterBrackets? opens closes depth rest

/-- Take a bracketed run of tokens, whatever it holds. -/
def bracketed (opens closes : Token τ → Bool) : Reader τ Unit := fun input =>
  if input.tokens.head?.any opens then
    (afterBrackets? opens closes 0 input.tokens).map fun (rest, stop) => ((), ⟨rest, stop⟩)
  else none

/-- The first reader that does not refuse. -/
def first (rs : List (Reader τ α)) : Reader τ α := rs.foldr (· <|> ·) fail

end Reader

end AndroidLint.Syntax
