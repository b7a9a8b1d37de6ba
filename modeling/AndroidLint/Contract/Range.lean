/-
  File:      AndroidLint/Contract/Range.lean
  Subject:   Parameters whose values or sizes are limited.
-/
import AndroidLint.Contract.Call
import AndroidLint.Decimal.Shortest

namespace AndroidLint.Contract

open Source

/-! ## 1. Whole numbers -/

/-- The whole number in an argument of an annotation. -/
def intArgument? (a : AnnotationUse) (key : String) : Option Int :=
  (a.value? key).bind AnnotationValue.toInt?

/-- The number in an argument of an annotation. -/
def floatArgument? (a : AnnotationUse) (key : String) : Option Float :=
  (a.value? key).bind AnnotationValue.toFloat?

/-- The truth value in an argument of an annotation. -/
def flagArgument (a : AnnotationUse) (key : String) (default : Bool) : Bool :=
  ((a.value? key).bind AnnotationValue.toBool?).getD default

/-- What is wrong with a whole number; a character counts as its code. -/
def intFault? (range : AnnotationUse) (value : Literal) : Option String := do
  let value : Int ← match value with
    | .int v => some v
    | .char c => some c.toNat
    | _ => none
  let low := (intArgument? range "from").filter (value < ·)
  let high := (intArgument? range "to").filter (· < value)
  match low, high with
  | some low, _ => some s!"Value must be ≥ {low} (was {value})"
  | none, some high => some s!"Value must be ≤ {high} (was {value})"
  | none, none => none

/-! ## 2. Numbers with a fraction -/

/-- What is wrong with a number. -/
def floatFault? (range : AnnotationUse) (value : Literal) : Option String := do
  let value : Float ← match value with
    | .float v => some v
    | .int v => some (Float.ofInt v)
    | _ => none
  let lowIncluded := flagArgument range "fromInclusive" true
  let highIncluded := flagArgument range "toInclusive" true
  let low := (floatArgument? range "from").filter fun low =>
    if lowIncluded then value < low else value ≤ low
  let high := (floatArgument? range "to").filter fun high =>
    if highIncluded then high < value else high ≤ value
  let message (relation : String) (bound : Float) :=
    s!"Value must be {relation} {Decimal.text bound} (was {Decimal.text value})"
  match low, high with
  | some low, _ => some (message (if lowIncluded then "≥" else ">") low)
  | none, some high => some (message (if highIncluded then "≤" else "<") high)
  | none, none => none

/-! ## 3. Sizes -/

/-- What is wrong with a size; `measure` is the word for it. -/
def sizeFault? (size : AnnotationUse) (actual : Nat) (measure : String) : Option String :=
  let exact := (intArgument? size "value").filter (· != (actual : Int))
  let least := (intArgument? size "min").filter ((actual : Int) < ·)
  let most := (intArgument? size "max").filter (· < (actual : Int))
  let step := (intArgument? size "multiple").filter fun m => 0 < m && (actual : Int) % m != 0
  match exact, least, most, step with
  | some exact, _, _, _ => some s!"Expected {measure} {exact} (was {actual})"
  | none, some least, _, _ => some s!"Expected {measure} ≥ {least} (was {actual})"
  | none, none, some most, _ => some s!"Expected {measure} ≤ {most} (was {actual})"
  | none, none, none, some step =>
    let lower := (actual : Int) / step * step
    some (s!"Expected {measure} to be a multiple of {step} (was {actual} and should be either " ++
          s!"{lower} or {lower + step})")
  | none, none, none, none => none

/-- The size of an array or the length of a string, and the word for it. -/
def sizeOf? (c : ResolvedCall) (e : Expr) : Option (Nat × String) :=
  match e.kind with
  | .array _ elements => some (elements.length, "size")
  | _ =>
    match c.constant? e with
    | some (.str s) => some (s.length, "length")
    | _ => none

/-! ## 4. Arguments -/

/-- What is wrong with an argument for a parameter with such annotations. -/
def rangeFault? (c : ResolvedCall) (e : Expr) (annotations : List AnnotationUse) : Option String :=
  match findAnnotation? annotations ["IntRange"], findAnnotation? annotations ["FloatRange"],
    findAnnotation? annotations ["Size"] with
  | some range, _, _ => (c.constant? e).bind (intFault? range)
  | none, some range, _ => (c.constant? e).bind (floatFault? range)
  | none, none, some size => (sizeOf? c e).bind fun (n, measure) => sizeFault? size n measure
  | none, none, none => none

/-- The arguments of a call that are out of range. -/
def rangeIncidents (c : ResolvedCall) : List Incident :=
  c.arguments.filterMap fun (e, p) =>
    (rangeFault? c e p.annotations).map (Incident.new .range (c.locate e.range))

end AndroidLint.Contract
