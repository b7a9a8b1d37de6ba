/-
  File:      AndroidLint/Contract/Call.lean
  Subject:   Calls together with the methods they mean.

  The contracts of a method are the annotations on it, on its class and on its parameters. They are
  checked where it is called, if the method belongs to the project.
-/
import AndroidLint.File
import AndroidLint.Incident
import AndroidLint.Source.Classes

namespace AndroidLint.Contract

open Source

/-- A call and the method it means. -/
structure ResolvedCall where
  sources : Sources
  /-- The source file of the call. -/
  unit : CompilationUnit
  file : File
  call : Call
  method : Method
  /-- The class that declares the method. -/
  owner : ClassDecl

/-! ## 1. Finding the method -/

/-- The class whose code a call stands in. -/
def callerClass? (s : Sources) (unit : CompilationUnit) (c : Call) : Option ClassDecl := do
  let caller ← c.caller
  s.find? caller.owner (some unit)

/-- The classes in which the method of a call is looked for, one after the other. A call without a
    receiver can mean a method of an enclosing class. -/
def candidates (s : Sources) (unit : CompilationUnit) (c : Call) : List ClassDecl :=
  match c.receiver with
  | .implicit =>
    match callerClass? s unit c with
    | some k => k :: s.enclosing k
    | none => []
  | .super => ((callerClass? s unit c).bind s.superclass?).toList
  | .type name => (s.find? name (some unit)).toList
  | .unknown => []

/-- The method that a call means and the class that declares it. -/
def resolve? (s : Sources) (unit : CompilationUnit) (c : Call) : Option (ClassDecl × Method) :=
  if c.isConstructor then
    match c.receiver with
    | .type name => do
      let k ← s.find? name (some unit)
      let m ← k.constructor? c.args.length
      pure (k, m)
    | _ => none
  else
    (candidates s unit c).findSome? fun k =>
      (s.findMethod? k c.name c.args.length).map fun m => ((s.find? m.owner none).getD k, m)

namespace ResolvedCall

/-! ## 2. Parts of a call -/

/-- A byte range of the file that holds the call. -/
def locate (c : ResolvedCall) (range : ByteRange) : Location :=
  .ofRange c.file.path c.file.contents range

/-- The whole call. -/
def location (c : ResolvedCall) : Location := c.locate c.call.range

/-- The class whose code the call stands in. -/
def caller? (c : ResolvedCall) : Option ClassDecl := callerClass? c.sources c.unit c.call

/-- The literal that an argument comes down to. -/
def constant? (c : ResolvedCall) (e : Expr) : Option Literal :=
  c.sources.constant? c.unit c.caller? e

/-- The arguments with the parameters that take them. -/
def arguments (c : ResolvedCall) : List (Expr × Parameter) :=
  c.call.args.zipIdx.filterMap fun (e, i) => (c.method.parameterFor? i).map fun p => (e, p)

/-- The name of the method; a constructor has that of its class. -/
def methodName (c : ResolvedCall) : String :=
  if c.method.isConstructor then c.owner.name else c.method.name

end ResolvedCall

end AndroidLint.Contract
