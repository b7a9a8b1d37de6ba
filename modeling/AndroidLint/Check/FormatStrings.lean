/-
  File:      AndroidLint/Check/FormatStrings.lean
  Subject:   Format strings among the resources, and whether their translations agree.
-/
import AndroidLint.Check.Duplicates
import AndroidLint.Check.References
import AndroidLint.Format.Kind
import AndroidLint.Format.Quote

namespace AndroidLint.Check

open Format (Specifier)

/-- A string resource and what its text is to a formatter. -/
structure FormatString where
  file : File
  definition : Resource.Definition
  /-- The text without its quotes. -/
  text : String
  kind : Format.Kind
  specifiers : List Specifier

namespace FormatString

/-! ## 1. One format string -/

/-- What a string definition is to a formatter. One that is marked as not formatted never is a
    format string. -/
def ofDefinition (file : File) (d : Resource.Definition) : FormatString :=
  let text := Format.stripQuotes d.element.text
  let unformatted := (d.element.attribute? "formatted").any (·.value == "false")
  { file, definition := d, text
    kind := if unformatted then .notFormat else Format.kind text
    specifiers := Format.specifiers text }

/-- The number of arguments that the string takes. -/
def count (s : FormatString) : Nat := Format.argumentCount s.specifiers

/-- The first specifier that takes an argument. -/
def specifier? (s : FormatString) (index : Nat) : Option Specifier :=
  Format.specifierFor s.specifiers index

/-- A specifier as it is written. -/
def written (s : FormatString) (spec : Specifier) : List Char :=
  (Text.slice? s.text.toList spec.range).getD []

/-- The content of the element, or its name when the content is blank. -/
def contentLocation (s : FormatString) : Location :=
  let range := trimmedContent s.file s.definition.element
  .ofRange s.file.path s.file.contents
    (if range.isEmpty then s.definition.nameRange else range)

/-- Where a specifier stands in the file, when it stands there as in the text: it is the occurrence
    with as many others before it as in the text. -/
def rawRange? (s : FormatString) (spec : Specifier) : Option ByteRange := do
  let needle := s.written spec
  let earlier := (Text.occurrences needle (Text.before spec.range.start s.text.toList)).length
  let offset ← (Text.occurrences needle (rawContent s.file s.definition.element))[earlier]?
  let start := s.definition.element.contentRange.start + offset
  pure ⟨start, start + Text.width needle⟩

/-- Where a specifier is reported. -/
def specifierLocation (s : FormatString) (spec : Specifier) : Location :=
  match s.rawRange? spec with
  | some range => .ofRange s.file.path s.file.contents range
  | none => s.contentLocation

end FormatString

/-! ## 2. All of them -/

/-- The definitions of one string that have to do with formatting, in all languages. -/
abbrev FormatGroup := String × List FormatString

/-- The strings of a project that have to do with formatting, by field. -/
def formatGroups (p : Project) : List FormatGroup :=
  let strings := p.valuesFiles.flatMap fun (file, definitions) =>
    (Resource.strings definitions).map (FormatString.ofDefinition file)
  Grouping.groups Ord.compare (·.definition.field) (strings.filter (·.kind != .plain))

/-- The format strings of some definitions. -/
def onlyFormats (strings : List FormatString) : List FormatString := strings.filter (·.kind = .format)

/-! ## 3. Definitions of one string -/

/-- A directive that is wrong in itself. -/
def invalidDirective? (s : FormatString) : Option Incident :=
  match s.kind with
  | .invalid directive =>
    let location :=
      match s.specifiers.find? fun spec => s.written spec == directive.toList with
      | some spec => s.specifierLocation spec
      | none => s.contentLocation
    some <| .new .stringFormatInvalid location
      (s!"Incorrect formatting string `{s.definition.name}`; missing conversion character in " ++
       s!"'`{directive}`'")
  | _ => none

/-- The first definition that takes another number of arguments than the first one of all. -/
def countMismatch? (name : String) : List FormatString → Option Incident
  | [] => none
  | first :: rest =>
    (rest.find? (·.count != first.count)).map fun other =>
      (Incident.new .stringFormatCount other.contentLocation
        (s!"Inconsistent number of arguments in formatting string `{name}`; found both " ++
         s!"{other.count} here and {first.count} in {first.file.folderAndName}")).relatedTo
        (first.contentLocation.saying "Conflicting number of arguments here")

/-- A specifier of a definition. -/
abbrev PlacedSpecifier := FormatString × Specifier

/-- The first specifier of an argument among some definitions, and the first other one that clashes
    with it. -/
def clashOn? (strings : List FormatString) (index : Nat) :
    Option (PlacedSpecifier × PlacedSpecifier) :=
  match strings.filterMap fun s => (s.specifier? index).map fun spec => (s, spec) with
  | [] => none
  | first :: rest =>
    (rest.find? fun other => first.2.conversionClass.clashes other.2.conversionClass).map fun other =>
      (first, other)

/-- The first argument for which two definitions clash. -/
def typeMismatch? (name : String) (strings : List FormatString) : Option Incident :=
  (Format.argumentIndices (strings.flatMap (·.specifiers))).findSome? fun index =>
    (clashOn? strings index).map fun ((first, firstSpec), (s, spec)) =>
      (Incident.new .stringFormatInvalid (s.specifierLocation spec)
        (s!"Inconsistent formatting types for argument #{index} in format string `{name}` " ++
         s!"('{String.ofList (s.written spec)}'): Found both '`{spec.conversion}`' here and " ++
         s!"'`{firstSpec.conversion}`' in {first.file.folderAndName}")).relatedTo
        ((first.specifierLocation firstSpec).saying "Conflicting argument type here")

/-- What is wrong with the definitions of one string, taken together. -/
def definitionMismatches (strings : List FormatString) : List Incident :=
  let name := (strings.head?.map (·.definition.name)).getD ""
  strings.filterMap invalidDirective? ++ (countMismatch? name (onlyFormats strings)).toList ++
    (typeMismatch? name (onlyFormats strings)).toList

end AndroidLint.Check
