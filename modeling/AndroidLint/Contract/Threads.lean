/-
  File:      AndroidLint/Contract/Threads.lean
  Subject:   Methods that belong to a thread.
-/
import AndroidLint.Contract.Call

namespace AndroidLint.Contract

open Source

/-- The threads that annotations speak of. -/
inductive Thread where
  | ui
  | main
  | worker
  | binder
  | any
  deriving DecidableEq, Repr

namespace Thread

/-- The annotations for threads. -/
def ofName? : String → Option Thread
  | "UiThread" => some ui
  | "MainThread" => some main
  | "WorkerThread" => some worker
  | "BinderThread" => some binder
  | "AnyThread" => some any
  | _ => none

/-- The thread that annotations name. -/
def ofUses? (annotations : List AnnotationUse) : Option Thread := do
  let a ← findAnnotation? annotations
    ["UiThread", "MainThread", "WorkerThread", "BinderThread", "AnyThread"]
  ofName? a.simpleName

/-- The word for a thread. -/
def describe : Thread → String
  | ui => "UI"
  | main => "main"
  | worker => "worker"
  | binder => "binder"
  | any => "any"

/-- Whether code on one thread may call a method that belongs to another. The main thread is the
    one of the user interface. -/
def mayCall (current required : Thread) : Bool :=
  current = any || required = any || current = required ||
    (current = ui && required = main) || (current = main && required = ui)

end Thread

/-- A call from the wrong thread. -/
def threadIncident? (c : ResolvedCall) : Option Incident := do
  let caller ← c.call.caller
  let required ← (Thread.ofUses? c.method.annotations).or (Thread.ofUses? c.owner.annotations)
  let current ← (Thread.ofUses? caller.annotations).or
    (c.caller?.bind fun k => Thread.ofUses? k.annotations)
  if current.mayCall required then none
  else
    some <| .new .wrongThread c.location
      (s!"Method {c.methodName} must be called from the {required.describe} thread, currently " ++
       s!"inferred thread is {current.describe} thread")

end AndroidLint.Contract
