/-
  File:      AndroidLint/Text/Blank.lean
  Subject:   White space, and trimming it.

  Blank is the property White_Space of the character standard: the ASCII blanks with vertical tab
  and form feed, next line, the no-break space and the spaces of the general punctuation block.
-/

namespace AndroidLint.Text

/-- White space. -/
def isBlank (c : Char) : Bool :=
  let n := c.toNat
  (0x09 ≤ n && n ≤ 0x0D) || n == 0x20 || n == 0x85 || n == 0xA0 || n == 0x1680 ||
    (0x2000 ≤ n && n ≤ 0x200A) || n == 0x2028 || n == 0x2029 || n == 0x202F || n == 0x205F ||
    n == 0x3000

/-- The blanks inside a line of a configuration: space and tab. -/
def isInlineBlank (c : Char) : Bool := c == ' ' || c == '\t'

/-! ## Trimming a run of characters -/

/-- Drop the blanks in front. -/
def trimStart (cs : List Char) : List Char := cs.dropWhile isBlank

/-- Drop the blanks at the end. -/
def trimEnd (cs : List Char) : List Char := (cs.reverse.dropWhile isBlank).reverse

/-- Drop the blanks on both sides. -/
def trim (cs : List Char) : List Char := trimEnd (trimStart cs)

/-- Whether every character is a blank. -/
def allBlank (cs : List Char) : Bool := cs.all isBlank

/-- Leave out every blank, wherever it stands. -/
def withoutBlanks (text : String) : String := String.ofList (text.toList.filter (!isBlank ·))

end AndroidLint.Text
