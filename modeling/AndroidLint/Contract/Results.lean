/-
  File:      AndroidLint/Contract/Results.lean
  Subject:   Methods whose results are to be used.
-/
import AndroidLint.Contract.Call

namespace AndroidLint.Contract

open Source

/-- The method that an annotation suggests instead. -/
def suggestion? (a : AnnotationUse) : Option String := do
  let text ← (← a.value? "suggest").text?
  let name := Text.dropFront (· == '#') text
  if name = "" then none else some name

/-- A call whose result is dropped. -/
def resultIncident? (c : ResolvedCall) : Option Incident := do
  if !c.call.resultUnused || c.method.isConstructor then none
  let a ← findAnnotation? c.method.annotations ["CheckResult"]
  let advice := match suggestion? a with
    | some name => s!"; did you mean to call `{name}`?"
    | none => ""
  pure (.new .checkResult c.location (s!"The result of `{c.method.name}` is not used" ++ advice))

end AndroidLint.Contract
