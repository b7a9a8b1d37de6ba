/-
  File:      AndroidLint/Toml/Table.lean
  Subject:   Tables under construction.

  A table comes from a header, from a longer header that passes through it, or from a key with dots.
  Each is open to additions of its own kind only: a header may define a table that headers passed
  through, and a key with dots may add to a table of such keys. Nothing is given twice.
-/
import AndroidLint.Toml.Value

namespace AndroidLint.Toml

/-- Where a table comes from. -/
inductive Origin where
  | header
  | passage
  | dotted
  deriving DecidableEq, Repr

/-- What a key of a table stands for. -/
inductive Item where
  | value (v : Value)
  | table (origin : Origin) (entries : List (String × Item))
  /-- Tables of headers in double brackets. -/
  | tables (rows : List (List (String × Item)))

/-- A table: its entries by key. -/
abbrev Entries := List (String × Item)

/-! ## 1. Values -/

mutual

/-- What an item is in the end. -/
def Item.toValue : Item → Value
  | .value v => v
  | .table _ entries => .table (valuesOf entries)
  | .tables rows => .array (rowValues rows)

/-- The values of a table. -/
def valuesOf : List (String × Item) → List (String × Value)
  | [] => []
  | (key, item) :: rest => (key, item.toValue) :: valuesOf rest

/-- The values of several tables. -/
def rowValues : List (List (String × Item)) → List Value
  | [] => []
  | row :: rest => .table (valuesOf row) :: rowValues rest

end

/-! ## 2. Entries -/

namespace Entries

/-- The item of a key. -/
def get? (key : String) (entries : Entries) : Option Item := entries.lookup key

/-- An item in place of the one of the same key, or at the end. -/
def set (key : String) (item : Item) : Entries → Entries
  | [] => [(key, item)]
  | (k, old) :: rest => if k = key then (key, item) :: rest else (k, old) :: set key item rest

/-- Change the table at the end of a path, which is given with its origin. A table that is missing is
    made; `dotted` says whether the path belongs to a key with dots. -/
def modifyAt (dotted : Bool) (change : Origin → Entries → Option Entries) :
    List String → Origin → Entries → Option Entries
  | [], origin, entries => change origin entries
  | key :: path, _, entries => do
    let item ← match get? key entries with
      | none =>
        let origin := if dotted then .dotted else .passage
        (modifyAt dotted change path origin []).map (Item.table origin)
      | some (.value _) => none
      | some (.tables rows) =>
        match rows.getLast? with
        | none => none
        | some row =>
          (modifyAt dotted change path .header row).map (fun row => .tables (rows.dropLast ++ [row]))
      | some (.table origin inner) =>
        if dotted && origin = .header then none
        else (modifyAt dotted change path origin inner).map (.table origin)
    pure (set key item entries)

/-- Give a key of a table a value; the key may have dots. -/
def put? (path : List String) (key : String) (v : Value) (origin : Origin) (entries : Entries) :
    Option Entries :=
  modifyAt true (fun origin entries =>
    if (origin == .dotted) == path.isEmpty || (get? key entries).isSome then none
    else some (set key (.value v) entries)) path origin entries

/-- Begin the table of a header. -/
def beginTable? (path : List String) (key : String) (entries : Entries) : Option Entries :=
  modifyAt false (fun _ entries =>
    match get? key entries with
    | none => some (set key (.table .header []) entries)
    | some (.table .passage inner) => some (set key (.table .header inner) entries)
    | _ => none) path .header entries

/-- Begin a further table of a header in double brackets. -/
def beginRow? (path : List String) (key : String) (entries : Entries) : Option Entries :=
  modifyAt false (fun _ entries =>
    match get? key entries with
    | none => some (set key (.tables [[]]) entries)
    | some (.tables rows) => some (set key (.tables (rows ++ [[]])) entries)
    | _ => none) path .header entries

/-- Give a key in the table of a header a value. -/
def putUnder? (header : List String) (path : List String) (key : String) (v : Value)
    (entries : Entries) : Option Entries :=
  modifyAt false (fun origin entries => put? path key v origin entries) header .header entries

end Entries

end AndroidLint.Toml
