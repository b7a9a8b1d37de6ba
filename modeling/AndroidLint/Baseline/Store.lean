/-
  File:      AndroidLint/Baseline/Store.lean
  Subject:   Baselines in files.

  A baseline is kept as JSON. Members that are not known are passed over, and a record may also be an
  array of its fields in order:

  * `encode`, `decode?`  the JSON value of a baseline, and the baseline of a JSON value;
  * `save`, `load`       the same with files.
-/
import AndroidLint.Baseline
import AndroidLint.Disk
import AndroidLint.Json.Printer
import AndroidLint.Json.Reader

namespace AndroidLint

/-- Why there is no baseline. -/
inductive BaselineError where
  /-- The file cannot be opened or written. -/
  | unreadable (cause : DiskError)
  /-- The file holds no baseline. -/
  | malformed
  /-- The baseline has another version. -/
  | version (found : Nat)
  deriving DecidableEq, Repr

/-! ## 1. JSON values -/

namespace Json.Value

/-- The fields of a record, in the order of their names. -/
def record? (names : List String) : Value → Option (List Value)
  | obj members => names.mapM fun name =>
    match members.filter (·.1 == name) with
    | [(_, v)] => some v
    | _ => none
  | arr items => if items.length = names.length then some items else none
  | _ => none

/-- A text. -/
def text? : Value → Option String
  | str s => some s
  | _ => none

/-- A number below a limit. -/
def below? (limit : Nat) : Value → Option Nat
  | nat n => if n < limit then some n else none
  | _ => none

/-- The items of an array. -/
def items? : Value → Option (List Value)
  | arr items => some items
  | _ => none

end Json.Value

namespace Fingerprint

/-- A fingerprint as JSON. -/
def encode (f : Fingerprint) : Json.Value :=
  .obj [("id", .str f.id), ("file", .str f.file), ("message", .str f.message), ("line", .nat f.line)]

/-- The fingerprint that a JSON value is. -/
def decode? (v : Json.Value) : Option Fingerprint := do
  match ← v.record? ["id", "file", "message", "line"] with
  | [id, file, message, line] =>
    pure ⟨← id.text?, ← file.text?, ← message.text?, ← line.below? UInt64.size⟩
  | _ => none

end Fingerprint

namespace Baseline

/-- A baseline as JSON. -/
def encode (b : Baseline) : Json.Value :=
  .obj [("version", .nat b.version), ("created_at", .nat b.createdAt),
    ("incidents", .ofList Fingerprint.encode b.fingerprints)]

/-- The baseline that a JSON value is. -/
def decode? (v : Json.Value) : Option Baseline := do
  match ← v.record? ["version", "created_at", "incidents"] with
  | [version, createdAt, incidents] =>
    let fingerprints ← (← incidents.items?).mapM Fingerprint.decode?
    pure ⟨← version.below? UInt32.size, ← createdAt.below? UInt64.size, fingerprints⟩
  | _ => none

/-! ## 2. Texts and files -/

/-- The text of a baseline. -/
def text (b : Baseline) : String := Json.pretty b.encode

/-- The baseline that a text is, of the current version. -/
def ofText (text : String) : Except BaselineError Baseline :=
  match Json.parse? text >>= decode? with
  | none => .error .malformed
  | some b => if b.version = currentVersion then .ok b else .error (.version b.version)

/-- Load a baseline. -/
def load (d : Disk) (file : Path) : Except BaselineError Baseline :=
  match d.text file with
  | .ok text => ofText text
  | .error .isFolder | .error .notText => .error .malformed
  | .error cause => .error (.unreadable cause)

/-- Save a baseline, making the folders around the file. -/
def save (d : Disk) (file : Path) (b : Baseline) : Except BaselineError Disk :=
  match d.writeInFolders file (.text b.text) with
  | .ok d => .ok d
  | .error cause => .error (.unreadable cause)

end Baseline

/-- The text of an error. -/
def BaselineError.message : BaselineError → String
  | unreadable cause => s!"Failed to read baseline file: {cause.message}"
  | malformed => "Failed to parse baseline"
  | version found =>
    s!"Baseline version mismatch: expected {Baseline.currentVersion}, found {found}"

end AndroidLint
