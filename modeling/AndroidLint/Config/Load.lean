/-
  File:      AndroidLint/Config/Load.lean
  Subject:   Configuration files.

  The ending of a file's name tells its format; with any other ending it is read as YAML, and when
  that fails as TOML.
-/
import AndroidLint.Config.Toml
import AndroidLint.Config.Yaml
import AndroidLint.Disk

namespace AndroidLint.Config

/-- The configuration that a YAML text describes, or why there is none. -/
def ofYaml (text : String) : Except ConfigError Config :=
  match ofYaml? text.toList with
  | some c => .ok c
  | none => .error .notYaml

/-- The configuration that a TOML text describes, or why there is none. -/
def ofToml (text : String) : Except ConfigError Config :=
  match ofToml? text.toList with
  | some c => .ok c
  | none => .error .notToml

/-- The configuration that the text of a file describes. -/
def ofText (file : Path) (text : String) : Except ConfigError Config :=
  match file.extension? with
  | some "yml" | some "yaml" => ofYaml text
  | some "toml" => ofToml text
  | _ =>
    match ofYaml text with
    | .ok c => .ok c
    | .error _ => ofToml text

/-- Load the configuration in a file. -/
def load (d : Disk) (file : Path) : Except ConfigError Config :=
  match d.text file with
  | .error _ => .error (.unreadable file)
  | .ok text => do
    let c ← ofText file text
    c.validate
    pure c

/-- The names under which a configuration is looked for, in this order. -/
def defaultNames : List Path :=
  [".droidlint.yml", ".droidlint.yaml", ".droidlint.toml",
   "droidlint.yml", "droidlint.yaml", "droidlint.toml"].map Path.mk

/-- Load the configuration of a project, or the default one when it has none. -/
def loadDefault (d : Disk) (root : Path) : Except ConfigError Config :=
  match (defaultNames.map (root ++ ·)).find? d.isFile with
  | some file => load d file
  | none => .ok {}

end AndroidLint.Config
