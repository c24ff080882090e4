import MarkupTidy.Text.Digit
import MarkupTidy.Utility.FontClass

/-! # Cleaning class tokens

* `stripArtifacts`: tokens without font classes and without the pair that the generator puts on
  every line of text.
* `convertTextSize`: text sizes that have a standard name.
* `needsFullWidth`: whether a growing element without a width has to be given one.
* `sectionName?`: the name in a section comment. -/

namespace MarkupTidy

open MarkupTidy.Text

/-- Text sizes with a standard name. -/
def textSizes : List (String × String) := [
  ("text-[64px]", "text-6xl"), ("text-[48px]", "text-5xl"), ("text-[36px]", "text-4xl"),
  ("text-[32px]", "text-3xl"), ("text-[24px]", "text-2xl"), ("text-[20px]", "text-xl"),
  ("text-[18px]", "text-lg"), ("text-[16px]", "text-base"), ("text-[14px]", "text-sm"),
  ("text-[12px]", "text-xs")]

/-- Tokens without the pairs `text-nowrap whitespace-pre`. -/
def dropLinePairs : List String → List String
  | [] => []
  | [t] => [t]
  | t :: u :: rest =>
    if t = "text-nowrap" && u = "whitespace-pre" then dropLinePairs rest
    else t :: dropLinePairs (u :: rest)

/-- Tokens without font classes and without line pairs. -/
def stripArtifacts (tokens : List String) : List String :=
  dropLinePairs (tokens.filter fun t => !isFontClass t)

/-- A text size by its standard name. -/
def convertTextSize (token : String) : String :=
  (textSizes.lookup token).getD token

/-- Whether a token begins with a text. -/
def tokenStarts (start token : String) : Bool :=
  startsWith start.toList token.toList

/-- Whether a token sets a width. -/
def setsWidth (token : String) : Bool :=
  tokenStarts "w-" token || (tokenStarts "min-w-" token && token ≠ "min-w-px")
    || tokenStarts "max-w-" token

/-- Whether an element grows from nothing and has no width. -/
def needsFullWidth (tokens : List String) : Bool :=
  tokens.any (tokenStarts "basis-0") && tokens.contains "grow" && !tokens.any setsWidth

/-- Whether a section mark, `=== SECTION 1:` with any number, stands at the front of a text. -/
def isSectionMark (cs : List Char) : Bool :=
  match (afterText? "===".toList cs).bind fun rest =>
      afterText? "SECTION".toList (trimLeft rest) with
  | none => false
  | some rest =>
    let number := trimLeft rest
    let digits := number.takeWhile isDecimalDigit
    number.length < rest.length && !digits.isEmpty
      && startsWith [':'] (number.dropWhile isDecimalDigit)

/-- Whether a section mark stands anywhere in a text. -/
def hasSectionMark : List Char → Bool
  | [] => false
  | c :: rest => isSectionMark (c :: rest) || hasSectionMark rest

/-- The name in a section comment: the text without comment signs and equals signs. -/
def sectionName? (cs : List Char) : Option String :=
  if hasSectionMark cs then
    let plain := replaceText ['*', '/'] [] (replaceText ['/', '*'] [] cs)
    some (String.ofList (trim (plain.filter (· ≠ '='))))
  else none

end MarkupTidy
