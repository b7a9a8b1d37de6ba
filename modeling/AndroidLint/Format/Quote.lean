/-
  File:      AndroidLint/Format/Quote.lean
  Subject:   Double quotes in resource strings.

  A double quote in a resource string marks a quoted section and is no part of its text, unless a
  backslash escapes it.
-/

namespace AndroidLint.Format

/-- Leave out the unescaped double quotes; `escaped` says whether the next character is escaped. -/
def stripQuotesFrom (escaped : Bool) : List Char → List Char
  | [] => []
  | c :: cs =>
    if escaped then c :: stripQuotesFrom false cs
    else if c = '\\' then c :: stripQuotesFrom true cs
    else if c = '"' then stripQuotesFrom false cs
    else c :: stripQuotesFrom false cs

/-- A resource string without its unescaped double quotes. -/
def stripQuotes (text : String) : String := String.ofList (stripQuotesFrom false text.toList)

end AndroidLint.Format
