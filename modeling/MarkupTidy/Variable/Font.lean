import MarkupTidy.Number.Reader
import MarkupTidy.Text.Search
import MarkupTidy.Text.WordChar

/-! # Typography variables

The value of a typography variable is a descriptor such as
`Font(family: "Inter", style: Bold, size: 16, weight: 700, …)`.

* `FontDescriptor.findReading`: the first descriptor in a text, with the text of its size.
* `FontDescriptor.read`: the descriptor with its size read, which fails if the size is no
  number. -/

namespace MarkupTidy

open MarkupTidy.Text

/-- A typeface: its family, named style, size and weight. -/
structure FontDescriptor where
  family : String
  style : String
  size : Binary64
  weight : Nat
deriving DecidableEq, Repr

namespace FontDescriptor

/-- A descriptor whose size has not been read. -/
structure Reading where
  family : List Char
  style : List Char
  size : List Char
  weight : Nat

/-- A label, a colon, and blanks. -/
def afterLabel? (label : String) (cs : List Char) : Option (List Char) :=
  (afterText? (label.toList ++ [':']) cs).map trimLeft

/-- Blanks and a comma. -/
def afterComma? (cs : List Char) : Option (List Char) :=
  match trimLeft cs with
  | ',' :: rest => some rest
  | _ => none

/-- A family name in double quotes. -/
def readFamily? : List Char → Option (List Char × List Char)
  | '"' :: rest =>
    match rest.dropWhile (· ≠ '"') with
    | _ :: after =>
      let family := rest.takeWhile (· ≠ '"')
      if family.isEmpty then none else some (family, after)
    | [] => none
  | _ => none

/-- A character of a style name. -/
def isStyleChar (c : Char) : Bool :=
  isWordChar c || c == ' '

/-- A style name up to a comma: word characters and spaces, without the spaces at its end.  A name
may be empty if a space stands where it would be. -/
def readStyle? (cs : List Char) : Option (List Char × List Char) :=
  let start := trimLeft cs
  match start with
  | ',' :: rest => if (cs.takeWhile isBlank).contains ' ' then some ([], rest) else none
  | _ =>
    let name := trimRight (start.takeWhile isStyleChar)
    if name.isEmpty then none
    else (afterComma? (start.dropWhile isStyleChar)).map fun rest => (name, rest)

/-- A character of a size. -/
def isSizeChar (c : Char) : Bool :=
  isDecimalDigit c || c == '.'

/-- The value of the digits at the front of a text; at least one is needed. -/
def readWeight? (cs : List Char) : Option Nat :=
  let digits := cs.takeWhile isDecimalDigit
  if digits.isEmpty then none else some (Number.readDigits digits).1.value

/-- The descriptor at the front of a text. -/
def readingAt? (cs : List Char) : Option Reading := do
  let rest ← afterText? "Font(".toList cs
  let rest ← afterLabel? "family" (trimLeft rest)
  let (family, rest) ← readFamily? rest
  let rest ← afterComma? rest
  let rest ← afterText? "style:".toList (trimLeft rest)
  let (style, rest) ← readStyle? rest
  let rest ← afterLabel? "size" (trimLeft rest)
  let size := rest.takeWhile isSizeChar
  if size.isEmpty then none
  else
    let rest ← afterComma? (rest.dropWhile isSizeChar)
    let rest ← afterLabel? "weight" (trimLeft rest)
    let weight ← readWeight? rest
    some ⟨family, style, size, weight⟩

/-- The first descriptor in a text. -/
def findReading : List Char → Option Reading
  | [] => none
  | c :: rest =>
    match readingAt? (c :: rest) with
    | some r => some r
    | none => findReading rest

/-- A size that is no number, such as `1.2.3`. -/
structure BadSize where
  size : String
deriving DecidableEq, Repr

/-- The first descriptor in a text, if there is one. -/
def read (cs : List Char) : Except BadSize (Option FontDescriptor) :=
  match findReading cs with
  | none => .ok none
  | some r =>
    match Binary64.read? r.size with
    | some size => .ok (some ⟨String.ofList r.family, String.ofList r.style, size, r.weight⟩)
    | none => .error ⟨String.ofList r.size⟩

end FontDescriptor

end MarkupTidy
