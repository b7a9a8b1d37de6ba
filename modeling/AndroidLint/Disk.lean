/-
  File:      AndroidLint/Disk.lean
  Subject:   Files and folders.

  A disk holds entries by place; a place is the list of names from the top down. A path leads from the
  working folder to a place, step by step, and every folder on the way has to be there.
-/
import AndroidLint.Path

namespace AndroidLint

/-- What a file holds: a text, or bytes that are none. -/
inductive Contents where
  | text (s : String)
  | binary (bytes : List UInt8)
  deriving DecidableEq

/-- What some bytes are. -/
def Contents.ofBytes (bytes : ByteArray) : Contents :=
  match String.fromUTF8? bytes with
  | some s => .text s
  | none => .binary bytes.toList

/-- The bytes of a file. -/
def Contents.bytes : Contents → ByteArray
  | text s => s.toUTF8
  | binary bytes => ⟨bytes.toArray⟩

/-- What is at a place. -/
inductive Entry where
  | folder
  | file (contents : Contents)

/-- Where something is: the names from the top down. -/
abbrev Place := List String

/-- Why something cannot be done with a file. -/
inductive DiskError where
  | missing
  | exists
  | notFolder
  | isFolder
  | notText
  deriving DecidableEq, Repr

/-- The system's words for it. -/
def DiskError.message : DiskError → String
  | .missing => "No such file or directory (os error 2)"
  | .exists => "File exists (os error 17)"
  | .notFolder => "Not a directory (os error 20)"
  | .isFolder => "Is a directory (os error 21)"
  | .notText => "stream did not contain valid UTF-8"

/-- Files and folders, and the folder where paths begin. The top is always a folder. -/
structure Disk where
  entries : List (Place × Entry) := []
  here : Place := []

namespace Disk

/-! ## 1. Places -/

/-- What is at a place. -/
def get? (d : Disk) (place : Place) : Option Entry :=
  if place.isEmpty then some .folder else d.entries.lookup place

/-- An entry in place of the one before, or a new one. -/
def setEntry (place : Place) (e : Entry) : List (Place × Entry) → List (Place × Entry)
  | [] => [(place, e)]
  | (p, old) :: rest => if p = place then (place, e) :: rest else (p, old) :: setEntry place e rest

/-- The disk with something put at a place. -/
def set (d : Disk) (place : Place) (e : Entry) : Disk :=
  { d with entries := setEntry place e d.entries }

theorem lookup_setEntry (place other : Place) (e : Entry) (es : List (Place × Entry)) :
    (setEntry place e es).lookup other = if other = place then some e else es.lookup other := by
  induction es with
  | nil =>
    by_cases h : other = place
    · simp [setEntry, h]
    · have h' : (other == place) = false := by simpa using h
      simp [setEntry, List.lookup_cons, h, h']
  | cons p rest ih =>
    obtain ⟨q, old⟩ := p
    by_cases hq : q = place
    · subst hq
      by_cases h : other = q
      · simp [setEntry, h]
      · have h' : (other == q) = false := by simpa using h
        simp [setEntry, List.lookup_cons, h, h']
    · by_cases h : other = q
      · subst h
        simp [setEntry, hq]
      · have h' : (other == q) = false := by simpa using h
        simpa [setEntry, List.lookup_cons, hq, h'] using ih

/-- What is put at a place is found there, and all else stays. -/
theorem get?_set (d : Disk) (place other : Place) (e : Entry) (h : place ≠ []) :
    (d.set place e).get? other = if other = place then some e else d.get? other := by
  by_cases ho : other = []
  · subst ho
    simp [get?, Ne.symm h]
  · simp [get?, set, ho, lookup_setEntry]

/-! ## 2. Paths -/

/-- One step of a path; what it leaves has to be a folder. -/
def step (d : Disk) (place : Place) (c : Path.Component) : Except DiskError Place :=
  match d.get? place with
  | none => .error .missing
  | some (.file _) => .error .notFolder
  | some .folder =>
    match c with
    | .root => .ok []
    | .current => .ok place
    | .parent => .ok place.dropLast
    | .name n => .ok (place ++ [n])

/-- The place that a path leads to; nothing has to be there. -/
def locate (d : Disk) (p : Path) : Except DiskError Place :=
  if p.text = "" then .error .missing else p.components.foldlM d.step d.here

/-- What a path leads to, with its place. -/
def find? (d : Disk) (p : Path) : Option (Place × Entry) :=
  match d.locate p with
  | .ok place => (d.get? place).map fun e => (place, e)
  | .error _ => none

/-- Whether a path leads to a file. -/
def isFile (d : Disk) (p : Path) : Bool :=
  match d.find? p with
  | some (_, .file _) => true
  | _ => false

/-! ## 3. Files -/

/-- What the file at a path holds. -/
def contents (d : Disk) (p : Path) : Except DiskError Contents := do
  match d.get? (← d.locate p) with
  | some (.file c) => .ok c
  | some .folder => .error .isFolder
  | none => .error .missing

/-- The text of the file at a path. -/
def text (d : Disk) (p : Path) : Except DiskError String := do
  match ← d.contents p with
  | .text s => .ok s
  | .binary _ => .error .notText

/-- Write a file; the folder has to be there. -/
def write (d : Disk) (p : Path) (c : Contents) : Except DiskError Disk := do
  let place ← d.locate p
  match d.get? place.dropLast with
  | none => .error .missing
  | some (.file _) => .error .notFolder
  | some .folder =>
    match d.get? place with
    | some .folder => .error .isFolder
    | _ => .ok (d.set place (.file c))

/-- Delete a file. -/
def remove (d : Disk) (p : Path) : Except DiskError Disk := do
  let place ← d.locate p
  match d.get? place with
  | none => .error .missing
  | some .folder => .error .isFolder
  | some (.file _) => .ok { d with entries := d.entries.filter (·.1 != place) }

/-- One step of a path, making the folder it leads to. -/
def makeStep (state : Disk × Place) (c : Path.Component) : Except DiskError (Disk × Place) := do
  let (d, place) := state
  let next ← d.step place c
  match d.get? next with
  | some .folder => .ok (d, next)
  | some (.file _) => .error .exists
  | none => .ok (d.set next .folder, next)

/-- Make a folder and those around it. -/
def makeFolders (d : Disk) (p : Path) : Except DiskError Disk := do
  let (d, _) ← p.components.foldlM makeStep (d, d.here)
  pure d

/-- Write a file, making the folder and those around it. -/
def writeInFolders (d : Disk) (p : Path) (c : Contents) : Except DiskError Disk := do
  match p.parent? with
  | some folder => (← d.makeFolders folder).write p c
  | none => d.write p c

/-! ## 4. Differences -/

/-- The files of a disk that another one does not hold in the same way. -/
def changesSince (d before : Disk) : List (Place × Contents) :=
  d.entries.filterMap fun (place, e) =>
    match e, before.get? place with
    | .folder, _ => none
    | .file c, some (.file old) => if c = old then none else some (place, c)
    | .file c, _ => some (place, c)

end Disk

end AndroidLint
