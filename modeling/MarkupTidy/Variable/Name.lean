import MarkupTidy.Text.Blank
import MarkupTidy.Text.LetterCase
import MarkupTidy.Text.Search

/-! # Variable names

A design variable has a hierarchical name such as `Colors/White`; a stylesheet declares it as a
custom property, `--colors-white`, and class tokens refer to it by that name with escapes,
`--colors\/white`.

* `customProperty`: the property that declares a variable.
* `cleanReference`: the bare name that a reference to a property stands for. -/

namespace MarkupTidy.Variable

open MarkupTidy.Text

/-- Slashes without the blanks around them.  `pending` holds blanks that may yet turn out to stand
before a slash, last first. -/
def tightenFrom (pending : List Char) (afterSlash : Bool) : List Char → List Char
  | [] => pending.reverse
  | c :: rest =>
    if c = '/' then '/' :: tightenFrom [] true rest
    else if isBlank c then
      if afterSlash then tightenFrom [] true rest else tightenFrom (c :: pending) false rest
    else pending.reverse ++ c :: tightenFrom [] false rest

/-- A text in which no blank stands next to a slash. -/
def tightenSlashes (cs : List Char) : List Char :=
  tightenFrom [] false cs

/-- Every run of blanks as one hyphen. -/
def hyphenateFrom (afterBlank : Bool) : List Char → List Char
  | [] => []
  | c :: rest =>
    if isBlank c then
      if afterBlank then hyphenateFrom true rest else '-' :: hyphenateFrom true rest
    else c :: hyphenateFrom false rest

/-- A text with every run of blanks as one hyphen. -/
def hyphenate (cs : List Char) : List Char :=
  hyphenateFrom false cs

/-- How a character of a name is written in a custom property. -/
def propertyChar (c : Char) : List Char :=
  if c = '/' then ['-'] else if c = '.' then ['d', 'o', 't'] else [c]

/-- The custom property that declares a variable. -/
def customProperty (name : List Char) : List Char :=
  '-' :: '-' :: (hyphenate (lowercase (tightenSlashes (trim name)))).flatMap propertyChar

/-- How a character of a reference is written in a bare name: escapes and closing parentheses
vanish. -/
def referenceChar (c : Char) : List Char :=
  if c = '\\' || c = ')' then []
  else if c = '(' then ['_']
  else propertyChar c

/-- The bare name that a reference stands for; it may begin with two hyphens. -/
def cleanReference (reference : List Char) : List Char :=
  let name := trim reference
  let bare := (afterText? ['-', '-'] name).getD name
  lowercase (hyphenate (trim (bare.flatMap referenceChar)))

end MarkupTidy.Variable
