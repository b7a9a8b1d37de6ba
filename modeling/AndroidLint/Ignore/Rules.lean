/-
  File:      AndroidLint/Ignore/Rules.lean
  Subject:   The rules of ignore files.

  A rule says of files and folders below the folder of its file that they are passed over, or with an
  exclamation mark in front that they are kept. Of the rules of one file the last one that applies
  counts.
-/
import AndroidLint.Disk
import AndroidLint.Ignore.Pattern
import AndroidLint.Text.Blank

namespace AndroidLint.Ignore

/-- What is done with a file or folder. -/
inductive Verdict where
  | skip
  | keep
  deriving DecidableEq, Repr

/-- A rule. -/
structure Rule where
  verdict : Verdict
  foldersOnly : Bool
  pattern : List Part

/-! ## 1. Reading rules -/

/-- What a rule says when `anchored`, a slash in front being dropped, or not. A slash at the end
    means folders only. A pattern without a slash applies at any depth, and one that ends in two
    stars to what is below only. -/
def Rule.ofBody? (verdict : Verdict) (anchored : Bool) (body : List Char) : Option Rule := do
  let foldersOnly := body.getLast? = some '/'
  let body := if foldersOnly then body.dropLast else body
  let body := if foldersOnly && body.getLast? = some '\\' then body.dropLast else body
  let anywhere := !anchored && !body.contains '/' && body != "**".toList
  let body := if anywhere then "**/".toList ++ body else body
  let body := if "**/".toList.isPrefixOf body.reverse then body ++ "/*".toList else body
  pure { verdict, foldersOnly, pattern := ← readPattern body }

/-- The rule of a line. Blanks at its end do not count unless the last one is escaped; an empty line
    and a comment are no rules. -/
def Rule.ofLine? (line : List Char) : Option Rule :=
  if line.head? = some '#' then none
  else
    let line := if " \\".toList.isPrefixOf line.reverse then line else Text.trimEnd line
    match line with
    | [] => none
    | '\\' :: '!' :: rest => ofBody? .skip false ('!' :: rest)
    | '\\' :: '#' :: rest => ofBody? .skip false ('#' :: rest)
    | '!' :: '/' :: rest => ofBody? .keep true rest
    | '!' :: rest => ofBody? .keep false rest
    | '/' :: rest => ofBody? .skip true rest
    | _ => ofBody? .skip false line

/-- The lines of some bytes, without their ends. -/
def byteLines : List UInt8 → List (List UInt8)
  | [] => [[]]
  | b :: bs =>
    match byteLines bs with
    | line :: rest => if b = 10 then [] :: line :: rest else (b :: line) :: rest
    | [] => [[b]]

/-- The lines that are text, up to the first one that is not. -/
def textLines (bytes : List UInt8) : List (List Char) :=
  let lines := (byteLines bytes).map fun line =>
    String.fromUTF8? ⟨(if line.getLast? = some 13 then line.dropLast else line).toArray⟩
  (lines.takeWhile Option.isSome).filterMap (·.map String.toList)

/-- The rules of a file. A byte order mark in front is passed over, and so is a line that is no
    rule. -/
def rulesOf (contents : Contents) : List Rule :=
  let lines := match textLines contents.bytes.toList with
    | first :: rest => first.dropWhile (· == '\ufeff') :: rest
    | [] => []
  lines.filterMap Rule.ofLine?

/-! ## 2. Applying rules -/

/-- Whether a rule applies to a file or folder, given by its names below the folder of the rule. -/
def Rule.applies (r : Rule) (names : List String) (isFolder : Bool) : Bool :=
  (!r.foldersOnly || isFolder) && isMatch r.pattern (Text.join "/" names)

/-- What the rules of one file say. -/
def verdict? (rules : List Rule) (names : List String) (isFolder : Bool) : Option Verdict :=
  (rules.reverse.find? (·.applies names isFolder)).map (·.verdict)

/-- The rules of the file at a place. -/
def rulesAt (d : Disk) (place : Place) : List Rule :=
  match d.get? place with
  | some (.file contents) => rulesOf contents
  | _ => []

/-- The folders around a place, from the inside. -/
def foldersAround (place : Place) : List Place :=
  ((List.range place.length).map place.take).reverse

/-- What the rules say that files of one name hold in some folders; the first folder whose rules say
    something counts. -/
def verdictIn? (d : Disk) (rulesFile : List String) (folders : List Place) (place : Place)
    (isFolder : Bool) : Option Verdict :=
  folders.findSome? fun folder =>
    verdict? (rulesAt d (folder ++ rulesFile)) (place.drop folder.length) isFolder

/-- Whether a folder is the top of a repository. -/
def isRepository (d : Disk) (folder : Place) : Bool := (d.get? (folder ++ [".git"])).isSome

/-- The folders up to the top of the repository that holds them; none outside of repositories. -/
def repositoryFolders (d : Disk) (folders : List Place) : List Place :=
  let inner := folders.takeWhile (!isRepository d ·)
  if inner.length < folders.length then folders.take (inner.length + 1) else []

/-- What is done with a file or folder when everything in the folders around it is looked at: ignore
    files, then those of the repository. What no rule mentions is passed over when its name begins
    with a dot. -/
def isSkipped (d : Disk) (place : Place) (isFolder : Bool) : Bool :=
  let folders := foldersAround place
  let inner := repositoryFolders d folders
  let verdict := (verdictIn? d [".ignore"] folders place isFolder).or <|
    (verdictIn? d [".gitignore"] inner place isFolder).or
      (verdictIn? d [".git", "info", "exclude"] inner place isFolder)
  match verdict with
  | some v => v = .skip
  | none => place.getLast?.any (Text.hasHead ".")

end AndroidLint.Ignore
