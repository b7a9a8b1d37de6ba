/-
  File:      AndroidLint/Yaml/Node.lean
  Subject:   The value that a YAML text describes.
-/
import AndroidLint.Yaml.Token

namespace AndroidLint.Yaml

/-- A node of a document. -/
inductive Node where
  | scalar (style : ScalarStyle) (tag : Option String) (text : String)
  | sequence (items : List Node)
  | mapping (entries : List (Node × Node))
  /-- The node that an anchor of this number marks. -/
  | alias (anchor : Nat)

/-- What stands where nothing is written. -/
def Node.empty : Node := .scalar .plain none ""

/-- A node with an anchor. -/
structure MarkedNode where
  /-- The number of the anchor. -/
  anchor : Nat
  /-- How many anchors stand before it. -/
  rank : Nat
  node : Node

/-- A document: its root, which may be missing, and its nodes with anchors. -/
structure Document where
  root? : Option Node
  marked : List MarkedNode := []

namespace Document

/-- The node that an anchor marks. Of several anchors with one number the last one counts. -/
def marked? (d : Document) (anchor : Nat) : Option Node :=
  let found := d.marked.filter (·.anchor == anchor)
  (found.find? fun m => found.all (·.rank ≤ m.rank)).map (·.node)

/-- The node itself, where an alias may stand for it. An alias never marks a node, so one step is
    enough. -/
def resolve (d : Document) : Node → Node
  | .alias n => (d.marked? n).getD (.alias n)
  | node => node

end Document

/-! ## 1. Reading tokens -/

/-- How far the tokens of a document are read. -/
structure Reading where
  tokens : List Token
  /-- The names of anchors, with their numbers. -/
  names : List (String × Nat) := []
  /-- How many anchors are read. -/
  anchors : Nat := 0
  marked : List MarkedNode := []
  /-- What the handles of tags stand for. -/
  handles : List (String × String) := []

/-- A step that reads tokens, and may fail. -/
abbrev Read (α : Type) := StateT Reading Option α

namespace Read

/-- The next token. -/
def peek : Read (Option Token) := do return (← get).tokens.head?

/-- Past the next token. -/
def skip : Read Unit := modify fun r => { r with tokens := r.tokens.drop 1 }

/-- Whether the next token is this one; it is read then. -/
def accept (t : Token) : Read Bool := do
  if (← peek) = some t then skip; return true else return false

/-- The number of a new anchor: how many names there are before it. A name may be given again. -/
def declare (name : String) : Read Nat := do
  let number := (← get).names.length
  modify fun r =>
    { r with
      names := if r.names.any (·.1 == name)
        then r.names.map fun p => if p.1 == name then (name, number) else p
        else r.names ++ [(name, number)] }
  return number

/-- Read a node; if there is an anchor before it, it marks the node. -/
def mark (name : Option String) (read : Read Node) : Read Node := do
  match name with
  | none => read
  | some name =>
    let anchor ← declare name
    let rank := (← get).anchors
    modify fun r => { r with anchors := rank + 1 }
    let node ← read
    modify fun r => { r with marked := { anchor, rank, node } :: r.marked }
    return node

/-- The whole of a tag. -/
def wholeTag (handle suffix : String) : Read String := do
  if handle.isEmpty then return suffix
  match (← get).handles.lookup handle with
  | some lead => return lead ++ suffix
  | none => failure

/-- An anchor, if one is next. -/
def anchor? : Read (Option String) := do
  match ← peek with
  | some (.anchor name) => skip; return some name
  | _ => return none

/-- A tag, if one is next, as a handle and a suffix. -/
def tag? : Read (Option (String × String)) := do
  match ← peek with
  | some (.tag handle suffix) => skip; return some (handle, suffix)
  | _ => return none

/-- The anchor and the tag before a node, in either order. -/
def properties : Read (Option String × Option String) := do
  let first ← anchor?
  let tag ← tag?
  let name ← if first.isSome then pure first else if tag.isSome then anchor? else pure none
  match tag with
  | some (handle, suffix) => return (name, some (← wholeTag handle suffix))
  | none => return (name, none)

end Read

/-! ## 2. Nodes -/

/-- Where a node stands, which decides how it may be written. -/
inductive Place where
  /-- In brackets. -/
  | flow
  /-- In a block. -/
  | block
  /-- A key or value of a block mapping: here a sequence may have the column of its mapping. -/
  | blockPair
  deriving DecidableEq, Repr

open Read

mutual

/-- Read a node. -/
def readNode : Nat → Place → Read Node
  | 0, _ => failure
  | fuel + 1, place => do
    match ← peek with
    | some (.alias name) =>
      skip
      match (← get).names.lookup name with
      | some number => return .alias number
      | none => failure
    | _ =>
      let (name, tag) ← properties
      mark name (readContent fuel place tag (name.isSome || tag.isSome))

/-- Read a node whose anchor and tag are read; with one of those it may be empty. -/
def readContent : Nat → Place → (tag : Option String) → (mayBeEmpty : Bool) → Read Node
  | 0, _, _, _ => failure
  | fuel + 1, place, tag, mayBeEmpty => do
    match ← peek with
    | some (.scalar style text) => skip; return .scalar style tag text
    | some .flowSequenceStart => skip; return .sequence (← readFlowItems fuel true)
    | some .flowMappingStart => skip; return .mapping (← readFlowEntries fuel true)
    | t =>
      if t = some .blockEntry && place = .blockPair then
        return .sequence (← readInlineItems fuel)
      else if t = some .blockSequenceStart && place ≠ .flow then
        skip; return .sequence (← readBlockItems fuel)
      else if t = some .blockMappingStart && place ≠ .flow then
        skip; return .mapping (← readBlockEntries fuel)
      else if mayBeEmpty then return .scalar .plain tag ""
      else failure

/-- Read a node, or nothing where one of these tokens follows. -/
def readNodeUnless : Nat → List Token → Place → Read Node
  | 0, _, _ => failure
  | fuel + 1, ends, place => do
    if (← peek).any ends.contains then return .empty else readNode fuel place

/-- Read the items of a block sequence. -/
def readBlockItems : Nat → Read (List Node)
  | 0 => failure
  | fuel + 1 => do
    if ← accept .blockEntry then
      let item ← readNodeUnless fuel [.blockEntry, .blockEnd] .block
      return item :: (← readBlockItems fuel)
    else if ← accept .blockEnd then return []
    else failure

/-- Read the items of a block sequence that has the column of its mapping. -/
def readInlineItems : Nat → Read (List Node)
  | 0 => failure
  | fuel + 1 => do
    if ← accept .blockEntry then
      let item ← readNodeUnless fuel [.blockEntry, .key, .value, .blockEnd] .block
      return item :: (← readInlineItems fuel)
    else return []

/-- Read the entries of a block mapping. -/
def readBlockEntries : Nat → Read (List (Node × Node))
  | 0 => failure
  | fuel + 1 => do
    if ← accept .key then
      let key ← readNodeUnless fuel [.key, .value, .blockEnd] .blockPair
      let value ← if ← accept .value then readNodeUnless fuel [.key, .value, .blockEnd] .blockPair
        else pure .empty
      return (key, value) :: (← readBlockEntries fuel)
    else if ← accept .blockEnd then return []
    else failure

/-- Read the items of a sequence in brackets; between two items stands a comma. -/
def readFlowItems : Nat → (first : Bool) → Read (List Node)
  | 0, _ => failure
  | fuel + 1, first => do
    if ← accept .flowSequenceEnd then return []
    if !first then
      if !(← accept .flowEntry) then failure
    if ← accept .key then
      let entry ← readSinglePair fuel
      return .mapping [entry] :: (← readFlowItems fuel false)
    else if ← accept .flowSequenceEnd then return []
    else
      let item ← readNode fuel .flow
      return item :: (← readFlowItems fuel false)

/-- Read a key and a value as an item of a sequence in brackets. A mark right after the question mark
    takes the place of the key. -/
def readSinglePair : Nat → Read (Node × Node)
  | 0 => failure
  | fuel + 1 => do
    let key ←
      if (← peek).any [Token.value, .flowEntry, .flowSequenceEnd].contains then
        skip
        pure .empty
      else readNode fuel .flow
    let value ← if ← accept .value then readNodeUnless fuel [.flowEntry, .flowSequenceEnd] .flow
      else pure .empty
    return (key, value)

/-- Read the entries of a mapping in brackets; between two entries stands a comma, and a key may have
    no value. -/
def readFlowEntries : Nat → (first : Bool) → Read (List (Node × Node))
  | 0, _ => failure
  | fuel + 1, first => do
    if ← accept .flowMappingEnd then return []
    if !first then
      if !(← accept .flowEntry) then failure
    if ← accept .key then
      let key ← readNodeUnless fuel [.value, .flowEntry, .flowMappingEnd] .flow
      let value ← if ← accept .value then readNodeUnless fuel [.flowEntry, .flowMappingEnd] .flow
        else pure .empty
      return (key, value) :: (← readFlowEntries fuel false)
    else if ← accept .flowMappingEnd then return []
    else
      let key ← readNode fuel .flow
      return (key, .empty) :: (← readFlowEntries fuel false)

end

/-! ## 3. Documents -/

/-- Whether a token opens or closes a document. -/
def Token.bounds : Token → Bool
  | .directive _ | .documentStart | .documentEnd => true
  | _ => false

/-- The tags that the standard handles stand for. -/
def standardHandles : List (String × String) := [("!", "!"), ("!!", "tag:yaml.org,2002:")]

/-- The handles that the directives before a document give. There may be one version, which has to
    be known, and one tag for a handle. -/
def handles? (directives : List Directive) : Option (List (String × String)) :=
  let versions := directives.filterMap fun
    | .version major minor => some (major, minor)
    | _ => none
  let tags := directives.filterMap fun
    | .tag handle lead => some (handle, lead)
    | _ => none
  if versions.length ≤ 1 && versions.all (fun v => v = (1, 1) || v = (1, 2)) &&
      tags.map (·.1) == (tags.map (·.1)).eraseDups then
    some (tags ++ standardHandles)
  else none

/-- The directives in front. -/
def leadingDirectives : List Token → List Directive
  | .directive d :: rest => d :: leadingDirectives rest
  | _ => []

/-- The document that the tokens of a text describe. A text holds one document at most. -/
def Document.ofTokens? (tokens : List Token) : Option Document := do
  if tokens.isEmpty then return { root? := none }
  let directives := leadingDirectives tokens
  let handles ← handles? directives
  let tokens := tokens.drop directives.length
  let explicit := tokens.head? = some .documentStart
  if !explicit && !directives.isEmpty then none
  let start : Reading := { tokens := if explicit then tokens.drop 1 else tokens, handles }
  let read : Read Node := do
    if explicit && (← peek).all Token.bounds then return .empty
    else readNode (4 * tokens.length + 4) .block
  let (root, finish) ← read.run start
  if finish.tokens.all (· = .documentEnd) then some { root? := some root, marked := finish.marked }
  else none

/-- The document that a text describes. -/
def Document.ofText? (text : List Char) : Option Document := tokens? text >>= Document.ofTokens?

end AndroidLint.Yaml
