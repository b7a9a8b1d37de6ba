/-
  File:      AndroidLint/Java/Grammar/Operator.lean
  Subject:   Operators between operands, and the tree of a chain of them.

  A chain `a + b * c instanceof D` is read flat. `Chain.tree` then puts the operators that bind
  tighter first; operators of one level go from left to right.
-/
import AndroidLint.Java.Grammar.Basic

namespace AndroidLint.Java

open Syntax

/-! ## 1. Operators -/

/-- How tight a sign binds as an operator between two operands. -/
def level? (sign : String) : Option Nat :=
  match sign with
  | "||" => some 1
  | "&&" => some 2
  | "|" => some 3
  | "^" => some 4
  | "&" => some 5
  | "==" | "!=" => some 6
  | "<" | ">" | "<=" | ">=" => some 7
  | "<<" | ">>" | ">>>" => some 8
  | "+" | "-" => some 9
  | "*" | "/" | "%" => some 10
  | _ => none

/-- How tight `instanceof` binds. -/
def instanceOfLevel : Nat := 7

/-- A sign with the neighbours that belong to it: a run of `>`, or any other sign. A `=` right
    after a run of `>` belongs to it as well. -/
def operatorSign : Reader Tree := do
  let start ← Reader.here
  if ← atSign ">" then
    sign ">"
    let _ ← Reader.optional do
      attached ">"
      Reader.optional (attached ">")
    let _ ← Reader.optional (attached "=")
    Reader.close start .token []
  else Reader.leaf .token (Reader.token (·.kind == .sign))

/-- An operator between two operands, and its level. -/
def binaryOperator : Reader (Tree × Nat) := do
  let operator ← operatorSign
  match level? operator.text with
  | some level => pure (operator.as .operator, level)
  | none => Reader.fail

/-- The signs of assignments. -/
def assignmentSigns : List String :=
  ["=", "+=", "-=", "*=", "/=", "&=", "|=", "^=", "%=", "<<=", ">>=", ">>>="]

/-- The sign of an assignment. -/
def assignmentOperator : Reader Unit := do
  let operator ← operatorSign
  Reader.check (assignmentSigns.contains operator.text)

/-! ## 2. Chains -/

/-- An operand and the place where it begins. -/
structure Operand where
  start : Input TokenKind
  tree : Tree

/-- The node that goes from the beginning of an operand to an offset. -/
def Operand.extend (o : Operand) (stop : Nat) (kind : Kind) (children : List Tree) : Operand :=
  let range : ByteRange := ⟨o.tree.range.start, stop⟩
  { o with tree := ⟨kind, .plain, range, Reader.textFrom o.start range.length, children⟩ }

/-- What follows an operand in a chain. -/
inductive Link where
  | operator (sign : Tree) (level : Nat) (right : Operand)
  /-- A test of the operand's class, with the nodes for class and name. -/
  | test (pattern : List Tree) (stop : Nat)

/-- Operands that wait for their right side, the last first. -/
abbrev Chain := List (Operand × Tree × Nat)

/-- Complete the waiting operands whose operator binds at least as tight as a level. -/
def Chain.reduce (level : Nat) : Chain → Operand → Chain × Operand
  | [], current => ([], current)
  | (left, sign, bound) :: rest, current =>
    if level ≤ bound then
      Chain.reduce level rest
        (left.extend current.tree.range.stop .binary
          [left.tree.as .left, sign, current.tree.as .right])
    else ((left, sign, bound) :: rest, current)

/-- One link more. -/
def Chain.step (state : Chain × Operand) (link : Link) : Chain × Operand :=
  match link with
  | .operator sign level right =>
    let (chain, current) := Chain.reduce level state.1 state.2
    ((current, sign, level) :: chain, right)
  | .test pattern stop =>
    let (chain, current) := Chain.reduce instanceOfLevel state.1 state.2
    (chain, current.extend stop .instanceOf (current.tree.as .left :: pattern))

/-- The tree of an operand and the links after it. -/
def Chain.tree (first : Operand) (links : List Link) : Tree :=
  let (chain, current) := links.foldl Chain.step ([], first)
  (Chain.reduce 0 chain current).2.tree

end AndroidLint.Java
