/-
  File:      AndroidLint/Watch.lean
  Subject:   Which changes of files call for another run.
-/
import AndroidLint.Config
import AndroidLint.File

namespace AndroidLint.Watch

/-- The folders whose contents are generated. -/
def generatedFolders : List String := ["build", ".gradle", ".idea", "generated"]

/-- Whether a path leads through a generated folder. -/
def isGenerated (p : Path) : Bool := p.components.any fun c => generatedFolders.contains c.text

/-- Whether a change of the file at a path below the root can change the results. -/
def isRelevant (c : Config) (p : Path) : Bool :=
  !isGenerated p && !c.excludes p && FileKind.ofPath p != .other

end AndroidLint.Watch
