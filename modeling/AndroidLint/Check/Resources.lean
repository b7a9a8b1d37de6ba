/-
  File:      AndroidLint/Check/Resources.lean
  Subject:   The checks of values files.
-/
import AndroidLint.Check.Duplicates
import AndroidLint.Check.Escapes

namespace AndroidLint.Check

/-- What is wrong with one definition, taken by itself. -/
def definitionIncidents (file : File) (d : Resource.Definition) : List Incident :=
  duplicateAttributes file d ++ wrongReferences file d ++ badEscapes file d

/-- What is wrong with the values files of a project. -/
def resourceIncidents (p : Project) : List Incident :=
  duplicates p ++ p.valuesFiles.flatMap fun (file, ds) => ds.flatMap (definitionIncidents file)

end AndroidLint.Check
