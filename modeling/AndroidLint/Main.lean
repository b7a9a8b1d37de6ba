/-
  File:      AndroidLint/Main.lean
  Subject:   The command.

  The files that a run may look at are read first, the run itself is `CommandLine.run`, and the files
  that it changed are written at the end.
-/
import AndroidLint.CommandLine.Run
import Std.Time.DateTime.Timestamp

namespace AndroidLint.Command

/-- The written form of a place. -/
def written (place : Place) : String := "/" ++ Text.join "/" place

/-- Read what is at a place. Of a repository's own folder only the rules of files to ignore are
    read. -/
partial def readTree (d : Disk) (place : Place) : IO Disk := do
  let path := (← IO.currentDir) / written place
  if ← path.isDir then
    let d := if (d.get? place).isSome then d else d.set place .folder
    if place.getLast? = some ".git" then readTree d (place ++ ["info", "exclude"])
    else (← path.readDir).foldlM (fun d e => readTree d (place ++ [e.fileName])) d
  else if (← path.pathExists) && (d.get? place).isNone then
    return d.set place (.file (.ofBytes (← IO.FS.readBinFile path)))
  else return d

/-- Read the folders above a place, with the rules in them. -/
def readAbove (d : Disk) (place : Place) : IO Disk :=
  (Ignore.foldersAround place).reverse.foldlM (fun d folder => do
    let d := if (d.get? folder).isSome then d else d.set folder .folder
    [".ignore", ".gitignore", ".git"].foldlM (fun d name => readTree d (folder ++ [name])) d) d

/-- The names in a path. -/
def names (path : Path) : Place :=
  path.components.filterMap fun c =>
    match c with
    | .name n => some n
    | _ => none

/-- Read what a path leads to. -/
def readPath (d : Disk) (path : Path) : IO Disk := do
  let place := match d.locate path with
    | .ok place => place
    | .error _ => if path.isAbsolute then names path else d.here ++ names path
  readTree (← readAbove d place) place

/-- Write a file, making the folders around it. -/
def writeBack (place : Place) (c : Contents) : IO Unit := do
  IO.FS.createDirAll (written place.dropLast)
  IO.FS.writeBinFile (written place) c.bytes

/-- The time in seconds since the beginning of 1970. -/
def now : IO Nat := do
  return (← Std.Time.Timestamp.now).toSecondsSinceUnixEpoch.val.toNat

end AndroidLint.Command

open AndroidLint in
/-- Run the command. -/
def main (arguments : List String) : IO UInt32 := do
  let here := Command.names ⟨(← IO.currentDir).toString⟩
  let start ← Command.readAbove { here } (here ++ ["."])
  let paths := match CommandLine.Request.ofArguments arguments with
    | .run o => o.paths
    | _ => []
  let disk ← paths.foldlM Command.readPath start
  let outcome := CommandLine.run disk (← Command.now) arguments
  for (place, contents) in outcome.disk.changesSince disk do
    Command.writeBack place contents
  IO.print outcome.printed
  if outcome.complaint != "" then IO.eprintln outcome.complaint
  return outcome.code.toUInt32
