/-
  File:      AndroidLint/Fixture.lean
  Subject:   Project files written inside other source code.

  A fixture is a file whose text is indented to fit the code around it. Its common indentation and
  the blank lines around it are removed, and the path of a source fixture follows from the package
  and the first type that its text declares.
-/
import AndroidLint.Path
import AndroidLint.Text.Blank
import AndroidLint.Text.Word

namespace AndroidLint

open AndroidLint.Text

/-- A file by path and text. -/
structure Fixture where
  path : Path
  contents : String
  deriving DecidableEq, Repr

namespace Fixture

/-! ## 1. Indentation -/

/-- Without the blank lines in front. -/
def dropBlankLines (lines : List (List Char)) : List (List Char) := lines.dropWhile allBlank

/-- The bytes of blanks in front of a line. -/
def indentation (line : List Char) : Nat := width (line.takeWhile isBlank)

/-- The least indentation of the lines that are not blank. -/
def commonIndentation (lines : List (List Char)) : Nat :=
  ((lines.filter (!allBlank ·)).map indentation).min?.getD 0

/-- Remove `indent` bytes in front of a line; a line that is shorter loses all its blanks in front.
    `none` when the cut falls inside a character. -/
def unindent? (indent : Nat) (line : List Char) : Option (List Char) :=
  if width line < indent then some (trimStart line) else (cut? indent line).map (·.2)

/-- Remove the common indentation and the blank lines around a text. `none` when lines are indented
    with blanks of different widths, so that a cut falls inside one. -/
def trimIndent? (text : List Char) : Option (List Char) := do
  let lines := (dropBlankLines (dropBlankLines (lines text)).reverse).reverse
  let cut ← lines.mapM (unindent? (commonIndentation lines))
  pure (joinWith ['\n'] cut ++ ['\n'])

/-! ## 2. Paths of source fixtures -/

/-- Whether a blank follows, and what follows the blanks. -/
def skipBlanks? (cs : List Char) : Option (List Char) :=
  match cs with
  | c :: cs => if isBlank c then some (cs.dropWhile isBlank) else none
  | [] => none

/-- The package that is declared at the head of a text, behind blanks. -/
def packageAt? (cs : List Char) : Option (List Char) := do
  let rest ← dropHead? "package".toList (cs.dropWhile isBlank)
  match (← skipBlanks? rest).takeWhile (fun c => isWord c || c == '.') with
  | [] => none
  | name => some name

/-- The first package that is declared at the head of a line. -/
def package? (atLineStart : Bool) : List Char → Option (List Char)
  | [] => none
  | c :: cs =>
    match (if atLineStart then packageAt? (c :: cs) else none) with
    | some name => some name
    | none => package? (c == '\n') cs

/-- The name of the type whose declaration begins at the head of a text with one of `keywords`. -/
def typeAt? (keywords : List String) (cs : List Char) : Option (List Char) :=
  keywords.findSome? fun keyword => do
    let rest ← skipBlanks? (← dropHead? keyword.toList cs)
    match rest with
    | c :: rest => if c.isAlpha || c == '_' then some (c :: rest.takeWhile isWord) else none
    | [] => none

/-- The first type that is declared in a text; `afterWord` says whether a word ends right before. -/
def type? (keywords : List String) (afterWord : Bool) : List Char → Option (List Char)
  | [] => none
  | c :: cs =>
    match (if afterWord then none else typeAt? keywords (c :: cs)) with
    | some name => some name
    | none => type? keywords (isWord c) cs

/-- Where a source text belongs: below `src`, in the folder of its package, under the name of its
    first type. -/
def sourcePath (contents : List Char) (ending : String) (keywords : List String) : Path :=
  let folders := ((package? true contents).map (splitOn '.')).getD []
  let folder : Path := folders.foldl (fun p f => p ++ ⟨String.ofList f⟩) ⟨"src"⟩
  let name := (type? keywords false contents).getD "test".toList
  folder ++ ⟨String.ofList name ++ "." ++ ending⟩

/-! ## 3. Kinds of fixtures -/

/-- A fixture at a path of its own. -/
def atPath? (path : Path) (text : String) : Option Fixture :=
  (trimIndent? text.toList).map fun contents => ⟨path, String.ofList contents⟩

/-- A Java source. -/
def java? (text : String) : Option Fixture :=
  (trimIndent? text.toList).map fun contents =>
    ⟨sourcePath contents "java" ["class", "interface", "enum"], String.ofList contents⟩

/-- A Kotlin source. -/
def kotlin? (text : String) : Option Fixture :=
  (trimIndent? text.toList).map fun contents =>
    ⟨sourcePath contents "kt" ["class", "object", "interface"], String.ofList contents⟩

/-- The build script of the project. -/
def gradle? (text : String) : Option Fixture := atPath? ⟨"build.gradle"⟩ text

/-- The manifest of the project. -/
def manifest? (text : String) : Option Fixture := atPath? ⟨"AndroidManifest.xml"⟩ text

end Fixture

end AndroidLint
