/-
  File:      AndroidLint/Fix/Edit.lean
  Subject:   Text edits of one file, and applying several at once.

  All edits give their ranges in the text before any of them. They are applied from the end of the
  file towards its start, so that the offsets still to come stay valid:

  * `applyEdits`       the edited text, or what is wrong with the edits;
  * `dropOverlapping`  keeps the edits that do not overlap one kept before.
-/
import AndroidLint.Path
import AndroidLint.Text.Offset

namespace AndroidLint

/-- Put a text in place of a byte range of a file. -/
structure TextEdit where
  file : Path
  range : ByteRange
  replacement : String
  deriving DecidableEq, Repr

/-- An insertion at an offset. -/
def TextEdit.insertion (file : Path) (offset : Nat) (text : String) : TextEdit :=
  ⟨file, ⟨offset, offset⟩, text⟩

/-- Why edits cannot be applied. -/
inductive EditError where
  | outOfBounds (file : Path) (range : ByteRange) (size : Nat)
  | overlapping (file : Path)
  /-- The file cannot be read or written; `cause` is the system's word for it. -/
  | io (file : Path) (cause : String)
  deriving DecidableEq, Repr

/-- The text of an error. -/
def EditError.message : EditError → String
  | .outOfBounds file range size =>
    s!"Edit range {range.start}..{range.stop} is outside of {file.text} ({size} bytes)"
  | .overlapping file => s!"Overlapping edits in {file.text}"
  | .io file cause => s!"Failed to read or write {file.text}: {cause}"

namespace Edits

open AndroidLint.Text

/-- Whether an edit's range is a range of the text. -/
def inBounds (contents : List Char) (e : TextEdit) : Bool :=
  e.range.start ≤ e.range.stop && isBoundary contents e.range.start &&
    isBoundary contents e.range.stop

/-- The order in which edits are applied: the last start first, of these the last end first. -/
def appliesBefore (a b : TextEdit) : Bool :=
  b.range.start < a.range.start || (b.range.start == a.range.start && b.range.stop ≤ a.range.stop)

/-- Apply edits in the order given; each must end at or before `limit`, the start of the one before
    it. `result` is the text with the edits before it in place. -/
def applyFrom (file : Path) (contents : List Char) :
    List TextEdit → (limit : Nat) → (result : List Char) → Except EditError (List Char)
  | [], _, result => .ok result
  | e :: es, limit, result =>
    if inBounds contents e then
      if limit < e.range.stop then .error (.overlapping file)
      else
        applyFrom file contents es e.range.start (splice result e.range e.replacement.toList)
    else .error (.outOfBounds file e.range (width contents))

/-- Apply edits to the text of a file. -/
def applyEdits (file : Path) (contents : List Char) (edits : List TextEdit) :
    Except EditError (List Char) :=
  applyFrom file contents (edits.mergeSort appliesBefore) (width contents) contents

/-! ## Keeping edits that do not overlap -/

/-- The order of edits along the text. -/
def standsBefore (a b : TextEdit) : Bool :=
  a.range.start < b.range.start || (a.range.start == b.range.start && a.range.stop ≤ b.range.stop)

/-- Whether an edit overlaps one before it along the text: it begins inside it, or both are
    insertions at one place. -/
def overlaps (earlier e : TextEdit) : Bool :=
  e.range.start < earlier.range.stop || (e.range == earlier.range && e.range.isEmpty)

/-- Keep each edit that does not overlap `last`, the one kept before it. -/
def keepFrom (last : Option TextEdit) : List TextEdit → List TextEdit
  | [] => []
  | e :: es =>
    if last.any (overlaps · e) then keepFrom last es else e :: keepFrom (some e) es

/-- Keep the edits that do not overlap an earlier one. -/
def dropOverlapping (edits : List TextEdit) : List TextEdit :=
  keepFrom none (edits.mergeSort standsBefore)

end Edits

end AndroidLint
