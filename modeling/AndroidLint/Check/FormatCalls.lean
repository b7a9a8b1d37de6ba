/-
  File:      AndroidLint/Check/FormatCalls.lean
  Subject:   Calls that fill in format strings.

  A call fills in a string resource when it is `String.format([locale,] getString(R.string.x), …)` or
  `getString(R.string.x, …)`.
-/
import AndroidLint.Check.FormatStrings
import AndroidLint.Source.TypeName

namespace AndroidLint.Check

open Source (Call Expr)
open Format (Specifier)

/-! ## 1. Calls -/

/-- The names of the class of strings. -/
def isStringType (name : String) : Bool := name = "String" || name = "java.lang.String"

/-- Whether a call is made on the class of strings. -/
def onStringClass (c : Call) : Bool :=
  c.receiverText.any isStringType ||
    match c.receiver with
    | .type name => isStringType name
    | _ => false

/-- Whether a type is that of locales. -/
def isLocaleType (name : String) : Bool := name = "Locale" || Text.hasTail ".Locale" name

/-- Whether an expression is a locale. -/
def isLocale (e : Expr) : Bool :=
  e.type.any isLocaleType ||
    match e.kind with
    | .name path => Text.hasHead "Locale." path || Text.hasHead "java.util.Locale." path
    | .call name _ => name = "getDefault"
    | .new type => isLocaleType type
    | _ => false

/-- The name of the string that an expression refers to. -/
def stringName? (e : Expr) : Option String := do
  let (type, name) ← e.resource?
  if type = "string" then some name else none

/-- The string that a call fills in, by the name of its field, and the index of the first argument
    that is filled in. -/
def formatCall? (c : Call) : Option (String × Nat) :=
  match c.name with
  | "format" =>
    if onStringClass c then do
      let index := if c.args.head?.any isLocale then 1 else 0
      let format ← c.args[index]?
      match format.kind with
      | .call "getString" args | .call "getText" args =>
        (stringName? (← args.head?)).map fun name => (name, index + 1)
      | _ => none
    else none
  | "getString" =>
    match c.args with
    | resource :: _ :: _ => (stringName? resource).map fun name => (name, 1)
    | _ => none
  | _ => none

/-! ## 2. Types -/

/-- The types of whole numbers. -/
def isIntegral (type : String) : Bool :=
  ["int", "long", "short", "byte", "BigInteger", "java.math.BigInteger"].contains type

/-- The types of numbers with a fraction. -/
def isFloating (type : String) : Bool :=
  ["float", "double", "BigDecimal", "java.math.BigDecimal"].contains type

/-- Whether a specifier formats values of a type. -/
def accepts (spec : Specifier) (type : String) : Bool :=
  match spec.conversionClass with
  | .boolean => type = "boolean"
  | .integer => isIntegral type
  | .float => isFloating type
  | .character => ["char", "byte", "short", "int"].contains type
  | _ => true

/-- The conversion that suits a type. -/
def suggestedConversion? (type : String) : Option Char :=
  if type = "boolean" then some 'b'
  else if type = "char" then some 'c'
  else if ["String", "java.lang.String", "CharSequence"].contains type then some 's'
  else if isIntegral type then some 'd'
  else if isFloating type then some 'f'
  else none

/-- The type of an argument, where it is known. -/
def argumentType? (e : Expr) : Option String := e.type.map fun t => Source.unbox (Source.erase t)

/-! ## 3. What is wrong with a call -/

/-- Whether the only argument is an array, which holds the values to fill in. -/
def passesArray (supplied : List Expr) : Bool :=
  match supplied with
  | [e] =>
    e.type.any (Text.hasTail "[]" ·) ||
      match e.kind with
      | .array .. => true
      | _ => false
  | _ => false

/-- The first definition that takes another number of arguments than a call supplies. -/
def wrongCount? (location : Location) (supplied : List Expr) (strings : List FormatString) :
    Option Incident :=
  (strings.find? (·.count != supplied.length)).map fun s =>
    (Incident.new .stringFormatMatches location
      (s!"Wrong argument count, format string `{s.definition.name}` requires `{s.count}` but " ++
       s!"format call supplies `{supplied.length}`")).relatedTo
      (s.contentLocation.saying s!"This definition requires {s.count} arguments")

/-- An argument of a type that its specifier does not format; `position` is its place among all
    arguments of the call. -/
def wrongType (location : Location) (s : FormatString) (index position : Nat) (spec : Specifier)
    (type : String) : Incident :=
  let message :=
    (s!"Wrong argument type for formatting argument '#{index}' in `{s.definition.name}`: conversion " ++
     s!"is '`{String.ofList (s.written spec)}`', received `{type}` (argument #{position} in method " ++
     "call)")
  let related := (s.specifierLocation spec).saying "Conflicting argument declaration here"
  match suggestedConversion? type with
  | none => (Incident.new .stringFormatMatches location message).relatedTo related
  | some c =>
    let incident := (Incident.new .stringFormatMatches location
      (message ++ s!" (Did you mean formatting character `{c}`?)")).relatedTo related
    match s.rawRange? spec with
    | none => incident
    | some range =>
      let replacement := s!"%{index}${c}"
      incident.fixedBy (.replacing s!"Replace with {replacement}" s.file.path range replacement)

/-- The argument at an offset among those filled in, when its type does not suit a definition. -/
def wrongTypeAt? (location : Location) (first : Nat) (s : FormatString) (offset : Nat) (e : Expr) :
    Option Incident := do
  let spec ← s.specifier? (offset + 1)
  let type ← argumentType? e
  if accepts spec type then none
  else some (wrongType location s (offset + 1) (first + offset + 1) spec type)

/-- The first argument whose type does not suit a definition. -/
def wrongType? (location : Location) (first : Nat) (supplied : List Expr)
    (strings : List FormatString) : Option Incident :=
  strings.findSome? fun s =>
    (supplied.zipIdx).findSome? fun (e, offset) => wrongTypeAt? location first s offset e

/-- An argument is reported for its type only if it has one. -/
theorem exists_of_wrongType? {location : Location} {first : Nat} {supplied : List Expr}
    {strings : List FormatString} {i : Incident}
    (h : wrongType? location first supplied strings = some i) :
    ∃ s ∈ strings, ∃ e ∈ supplied, ∃ type, argumentType? e = some type ∧
      ∃ spec index position, accepts spec type = false ∧
        i = wrongType location s index position spec type := by
  obtain ⟨s, hs, h⟩ := List.exists_of_findSome?_eq_some h
  obtain ⟨e, he, h⟩ := List.exists_of_findSome?_eq_some h
  obtain ⟨spec, _, h⟩ := Option.bind_eq_some_iff.mp h
  obtain ⟨type, htype, h⟩ := Option.bind_eq_some_iff.mp h
  split at h
  · cases h
  · next haccepts =>
    cases h
    exact ⟨s, hs, e.1, List.fst_mem_of_mem_zipIdx he, type, htype, spec, _, _,
      Bool.not_eq_true _ ▸ haccepts, rfl⟩

/-- What is wrong with a call that fills in a string, given the definitions of that string. -/
def callMismatch? (location : Location) (first : Nat) (supplied : List Expr)
    (strings : List FormatString) : Option Incident :=
  match onlyFormats strings, strings with
  | [], s :: _ =>
    if strings.any (·.kind = .notFormat) then
      some <| .new .stringFormatInvalid location
        (s!"Format string '`{s.definition.name}`' is not a valid format string so it should not be " ++
         "passed to `String.format`")
    else none
  | [], [] => none
  | found, _ =>
    if passesArray supplied then none
    else (wrongCount? location supplied found).or (wrongType? location first supplied found)

/-- What is wrong with a call. -/
def formatCallIncident? (groups : List FormatGroup) (file : File) (c : Call) : Option Incident := do
  let (name, first) ← formatCall? c
  let (_, strings) ← groups.find? (·.1 == name)
  callMismatch? (.ofRange file.path file.contents c.range) first (c.args.drop first) strings

/-- What is wrong with the format strings of a project and with the calls that fill them in. -/
def formatIncidents (p : Project) (sources : Source.Sources) : List Incident :=
  let groups := formatGroups p
  groups.flatMap (fun (_, strings) => definitionMismatches strings) ++
    sources.units.flatMap fun unit =>
      match p.file? unit.path with
      | some file => unit.calls.filterMap (formatCallIncident? groups file)
      | none => []

end AndroidLint.Check
