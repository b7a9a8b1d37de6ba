/-
  File:      AndroidLint/Xml/Error.lean
  Subject:   Why a text is no XML document.
-/

namespace AndroidLint.Xml

/-- The pieces of markup that the end of the text can cut short. -/
inductive Construct where
  | element | bang | comment | cdata | doctype | declaration
  deriving DecidableEq, Repr

/-- How a piece of markup is called in messages. -/
def Construct.name : Construct → String
  | .element => "Element"
  | .bang => "Bang"
  | .comment => "Comment"
  | .cdata => "CData"
  | .doctype => "DOCTYPE"
  | .declaration => "XmlDecl"

/-- What is wrong at some place of the text. -/
inductive Fault where
  /-- The text ends, or the markup closes, before the construct is complete. -/
  | cutShort (construct : Construct)
  /-- After `<!` comes none of the constructs that begin so; the byte is the one found there. -/
  | unknownBang (byte : Char)
  /-- An end tag that does not close the element that is open. -/
  | wrongEnd (expected found : List Char)
  /-- A document type declaration that declares nothing. -/
  | emptyDoctype
  /-- An attribute without `=`. -/
  | noValue (name : String)
  /-- An attribute whose value stands in no quotes. -/
  | unquoted (name : String)
  /-- An end tag where no element is open. -/
  | unexpectedEnd
  /-- An element whose end tag is missing. -/
  | unclosed (tag : String)
  deriving DecidableEq, Repr

/-- The wording of a fault. -/
def Fault.message : Fault → String
  | .cutShort construct => "Unexpected EOF during reading " ++ construct.name
  | .unknownBang byte =>
    "Only Comment (`--`), CDATA (`[CDATA[`) and DOCTYPE (`DOCTYPE`) nodes can start with a '!', "
      ++ "but symbol `" ++ byte.toString ++ "` found"
  | .wrongEnd expected found =>
    "Expecting </" ++ String.ofList expected ++ "> found </" ++ String.ofList found ++ ">"
  | .emptyDoctype => "DOCTYPE declaration must not be empty"
  | .noValue name => "attribute `" ++ name ++ "` has no value"
  | .unquoted name => "attribute `" ++ name ++ "` value is not quoted"
  | .unexpectedEnd => "unexpected end tag"
  | .unclosed tag => "unclosed element <" ++ tag ++ ">"

/-- Why a text is no document. -/
inductive Error where
  | malformed (position : Nat) (fault : Fault)
  | noRoot
  /-- A tag was looked for at an offset inside a character. This happens only after a byte order
      mark, whose bytes the offsets of events do not count. -/
  | torn
  deriving DecidableEq, Repr

/-- The wording of an error. -/
def Error.message : Error → String
  | .malformed position fault => s!"malformed XML at byte {position}: " ++ fault.message
  | .noRoot => "document has no root element"
  | .torn => "an offset lies inside a character"

end AndroidLint.Xml
