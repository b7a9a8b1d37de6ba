/-
  File:      AndroidLint/Check/Duplicates.lean
  Subject:   Resources that are defined more than once in a folder.

  Two definitions clash when they are in values files of the same folder, have the same type and
  get the same field. Ids may be defined as often as one likes.
-/
import AndroidLint.Grouping
import AndroidLint.Incident
import AndroidLint.Project

namespace AndroidLint.Check

open Resource (Definition)

/-- A definition and the file it stands in. -/
structure PlacedDefinition where
  file : File
  definition : Definition

/-- Where the name of the definition stands. -/
def PlacedDefinition.location (d : PlacedDefinition) : Location :=
  .ofRange d.file.path d.file.contents d.definition.nameRange

/-! ## 1. Definitions in a folder -/

/-- The definitions of the project's values files by folder. -/
def definitionsByFolder (p : Project) : List (Path × List PlacedDefinition) :=
  let placed := p.valuesFiles.filterMap fun (file, definitions) =>
    file.resourceFolder?.map fun folder => (folder, definitions.map (PlacedDefinition.mk file))
  (Grouping.groups Path.compare (·.1) placed).map fun (folder, files) =>
    (folder, files.flatMap (·.2))

/-- A second definition, reported at its own name with a pointer to the first one. -/
def duplicate (first second : PlacedDefinition) : Incident :=
  let name := second.definition.name
  let spelling :=
    if first.definition.name = name then "" else s!" as `{first.definition.name}`"
  (Incident.new .duplicateDefinition second.location
    (s!"`{name}` has already been defined in this folder" ++ spelling)).relatedTo
    (first.location.saying "Previously defined here")

/-- All but the first of the definitions of one resource in a folder. -/
def duplicatesIn (definitions : List PlacedDefinition) : List Incident :=
  let counted := definitions.filter (·.definition.type != "id")
  (Grouping.repeats (fun d => (d.definition.type, d.definition.field)) counted).map fun (first, d) =>
    duplicate first d

/-- The duplicate definitions of a project. -/
def duplicates (p : Project) : List Incident :=
  (definitionsByFolder p).flatMap fun (_, definitions) => duplicatesIn definitions

/-! ## 2. Attributes in a styleable -/

/-- The attributes that a styleable declares, by the attribute of the element that names them. -/
def declaredAttributes (e : Xml.Element) : List Xml.Attribute :=
  (e.childrenNamed "attr").filterMap (·.attribute? "name")

/-- All but the first declaration of an attribute in a styleable. -/
def duplicateAttributes (file : File) (d : Definition) : List Incident :=
  if d.type = "styleable" then
    let place (a : Xml.Attribute) := Location.ofRange file.path file.contents a.range
    (Grouping.repeats (fun a => Resource.fieldName a.value) (declaredAttributes d.element)).map
      fun (first, a) =>
        (Incident.new .duplicateDefinition (place a)
          s!"`{a.value}` has already been defined in this `<declare-styleable>`").relatedTo
          ((place first).saying "Previously defined here")
  else []

end AndroidLint.Check
