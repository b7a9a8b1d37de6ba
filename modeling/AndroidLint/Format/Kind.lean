/-
  File:      AndroidLint/Format/Kind.lean
  Subject:   Whether a resource string is a format string.

  Every unescaped percent sign of a format string begins a directive with a known conversion. A
  directive with an unknown conversion is a mistake when it carries an argument number, since then a
  format string was meant; otherwise the percent sign is plain text, as in "100% sure".
-/
import AndroidLint.Format.Specifier

namespace AndroidLint.Format

open AndroidLint.Text

/-- What a resource string turns out to be. -/
inductive Kind where
  /-- There is no percent sign in it. -/
  | plain
  /-- Every percent sign begins a good directive. -/
  | format
  /-- A percent sign is plain text. -/
  | notFormat
  /-- A directive was meant and is wrong; `directive` is its text. -/
  | invalid (directive : String)
  deriving DecidableEq, Repr

/-- What one directive says of its string: nothing when the directive is good. -/
def Directive.fault (d : Directive) : Option Kind :=
  if (d.number.any fun digits => (Directive.numberValue? digits).isNone) then
    some (.invalid (String.ofList d.written))
  else if d.date.isNone && ConversionClass.ofChar d.conversion = .unknown then
    some (if d.number.isSome then .invalid (String.ofList d.written) else .notFormat)
  else if d.number.isNone && d.flags.contains ' ' then some .notFormat
  else none

/-- Walk a text directive by directive, up to the first fault. -/
def kindFrom : List Char → Kind
  | [] => .format
  | '\\' :: cs =>
    match cs with
    | [] => .format
    | _ :: cs => kindFrom cs
  | '%' :: cs =>
    match _found : Directive.read ('%' :: cs) with
    | none => .notFormat
    | some (d, rest) =>
      match d.fault with
      | some fault => fault
      | none => kindFrom rest
  | _ :: cs => kindFrom cs
termination_by cs => cs.length
decreasing_by
  · simp only [List.length_cons]; omega
  · exact Directive.read_length_lt _found
  · simp only [List.length_cons]; omega

/-- What a resource string is. -/
def kind (text : String) : Kind :=
  if text.toList.contains '%' then kindFrom text.toList else .plain

end AndroidLint.Format
