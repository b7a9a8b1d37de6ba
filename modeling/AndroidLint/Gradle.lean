/-
  File:      AndroidLint/Gradle.lean
  Subject:   What a build script says about platform levels and the kind of module.

  A level is looked for at the beginning of a line, as in `minSdkVersion 14`, `targetSdk = 30` or
  `minSdkVersion("O")`; the script is not read in any other way.
-/
import AndroidLint.Text.Blank
import AndroidLint.Text.Number
import AndroidLint.Text.Offset
import AndroidLint.Text.Split

namespace AndroidLint

/-- A value in a script and its place. -/
structure PlacedValue where
  value : String
  range : ByteRange
  deriving DecidableEq, Repr

/-- What build scripts say. -/
structure Gradle where
  minimumSdk : Option PlacedValue
  targetSdk : Option PlacedValue
  /-- The module is a library. -/
  isLibrary : Bool
  deriving DecidableEq, Repr

namespace Gradle

/-- What no script says. -/
def none : Gradle := ⟨.none, .none, false⟩

/-! ## 1. Finding a level -/

/-- The characters of a level. -/
def isLevelChar (c : Char) : Bool := c.isAlphanum || c == '_' || c == '.'

/-- What may stand between a setting and its value: blanks, with one `=` or `(` among them or at
    least one blank. -/
def afterSetting? (cs : List Char) : Option (List Char) :=
  match Text.trimStart cs with
  | '=' :: rest => some (Text.trimStart rest)
  | '(' :: rest => some (Text.trimStart rest)
  | rest => if rest.length < cs.length then some rest else .none

/-- Without a quote in front. -/
def dropQuote : List Char → List Char
  | '"' :: rest => rest
  | '\'' :: rest => rest
  | cs => cs

/-- Without the name of a setting, in its long or its short form. -/
def afterSettingName? (kind : String) (cs : List Char) : Option (List Char) :=
  (Text.dropHead? (kind ++ "SdkVersion").toList cs).or (Text.dropHead? (kind ++ "Sdk").toList cs)

/-- The value of a setting that begins here, after blanks, and the characters that follow the
    value. -/
def levelAt? (kind : String) (cs : List Char) : Option (List Char × List Char) := do
  let rest ← afterSettingName? kind (Text.trimStart cs)
  let rest := dropQuote (← afterSetting? rest)
  let value := rest.takeWhile isLevelChar
  if value.isEmpty then .none else some (value, rest.dropWhile isLevelChar)

/-- The first value of a setting that begins a line. `lineStart` says whether a line begins
    here. -/
def findLevel? (kind : String) : Bool → List Char → Option (List Char × List Char)
  | lineStart, cs =>
    match if lineStart then levelAt? kind cs else .none with
    | some found => some found
    | .none =>
      match cs with
      | [] => .none
      | c :: rest => findLevel? kind (c == '\n') rest

/-- The value of a setting and its place in the script. -/
def level? (kind : String) (script : List Char) : Option PlacedValue :=
  (findLevel? kind true script).map fun (value, rest) =>
    let stop := Text.width script - Text.width rest
    ⟨String.ofList value, ⟨stop - Text.width value, stop⟩⟩

/-! ## 2. Finding the library plugin -/

/-- Without one of the blanks at least that stand in front. -/
def afterBlanks? (cs : List Char) : Option (List Char) :=
  match cs with
  | c :: rest => if Text.isBlank c then some (Text.trimStart rest) else .none
  | [] => .none

/-- What follows `apply plugin:` or `id`, up to the name of the plugin. -/
def afterPlugin? (cs : List Char) : Option (List Char) :=
  match Text.dropHead? "apply".toList cs with
  | some rest => do
    let rest ← Text.dropHead? "plugin".toList (← afterBlanks? rest)
    let rest ← Text.dropHead? [':'] (Text.trimStart rest)
    pure (Text.trimStart rest)
  | .none => do
    let rest ← Text.dropHead? "id".toList cs
    match Text.trimStart rest with
    | '(' :: rest => pure (Text.trimStart rest)
    | rest => pure rest

/-- Whether a character is a quote. -/
def isQuote (c : Char) : Bool := c == '"' || c == '\''

/-- Whether a quoted name of the library plugin stands here. -/
def namesLibrary (cs : List Char) : Bool :=
  match cs with
  | [] => false
  | quote :: rest =>
    isQuote quote &&
      ["com.android.library", "android-library"].any fun name =>
        match Text.dropHead? name.toList rest with
        | some (quote :: _) => isQuote quote
        | _ => false

/-- Whether the script applies the library plugin. -/
def appliesLibrary : List Char → Bool
  | [] => false
  | c :: cs => ((afterPlugin? (c :: cs)).map namesLibrary).getD false || appliesLibrary cs

/-! ## 3. Scripts -/

/-- What a script says. -/
def ofScript (script : List Char) : Gradle :=
  ⟨level? "min" script, level? "target" script, appliesLibrary script⟩

/-- What two scripts say together; the first one has precedence. -/
def merge (first second : Gradle) : Gradle where
  minimumSdk := first.minimumSdk.or second.minimumSdk
  targetSdk := first.targetSdk.or second.targetSdk
  isLibrary := first.isLibrary || second.isLibrary

/-- The platform level aimed at, when it is a number. -/
def targetLevel? (g : Gradle) : Option Nat := g.targetSdk.bind fun v => Text.level? v.value

end Gradle

end AndroidLint
