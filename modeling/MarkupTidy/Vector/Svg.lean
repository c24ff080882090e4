import MarkupTidy.OrderedMap
import MarkupTidy.Text.Blank
import MarkupTidy.Text.LetterCase
import MarkupTidy.Text.Search
import MarkupTidy.Text.WordChar

/-! # Vector graphics

The parts of an SVG file that are needed to write it into a component: the size of its first
`svg` element and the attributes of all its paths that have data.

* `VectorImage.read`: the parts of a file.
* `componentName`: an attribute name as a component writes it.
* `plainValue`: an attribute value without the variable that a fallback is given for. -/

namespace MarkupTidy

open MarkupTidy.Text

/-- The parts of an SVG file that are needed to write it into a component. -/
structure VectorImage where
  viewBox? : Option String
  width? : Option String
  height? : Option String
  /-- The attributes of each path that has data. -/
  paths : List (OrderedMap String String)

namespace VectorImage

/-- A character of an attribute name. -/
def isAttributeChar (c : Char) : Bool :=
  isWordChar c || c == ':' || c == '-'

/-- An attribute with a value in double quotes, and what follows it. -/
def readAttribute? (cs : List Char) : Option ((String × String) × List Char) := do
  let rest ← afterText? ['='] (trimLeft (cs.dropWhile isAttributeChar))
  let value ← afterText? ['"'] (trimLeft rest)
  let (value, after) ← cutAt? '"' value
  let name := cs.takeWhile isAttributeChar
  if name.isEmpty then none else some ((String.ofList name, String.ofList value), after)

/-- The attributes in the text of a tag; of two with one name the later value counts. -/
def readAttributes (cs : List Char) : OrderedMap String String :=
  OrderedMap.ofEntries (findAll readAttribute? cs)

/-- The text of a tag of a given name, and what follows the tag. -/
def readTag? (name : List Char) (cs : List Char) : Option (List Char × List Char) := do
  let rest ← afterText? ('<' :: name) cs
  if rest.head?.any isWordChar then none
  else
    match rest.dropWhile (· ≠ '>') with
    | _ :: after => some (rest.takeWhile (· ≠ '>'), after)
    | [] => none

/-- The text of a tag without the slash that closes it. -/
def withoutSlash (cs : List Char) : List Char :=
  if cs.getLast? = some '/' then cs.dropLast else cs

/-- Whether a path has data. -/
def hasData (path : OrderedMap String String) : Bool :=
  (path.get? "d").any (· ≠ "")

/-- The parts of a file. -/
def read (content : List Char) : VectorImage :=
  let root := readAttributes ((findAll (readTag? "svg".toList) content).head?.getD [])
  { viewBox? := root.get? "viewBox"
    width? := root.get? "width"
    height? := root.get? "height"
    paths := ((findAll (readTag? "path".toList) content).map fun tag =>
      readAttributes (withoutSlash tag)).filter hasData }

/-- An attribute name as a component writes it: hyphens give way to capitals, names with a colon
stay. -/
def componentName (name : String) : String :=
  let cs := name.toList
  if cs.contains ':' then name
  else
    match splitOn '-' cs with
    | [] => name
    | head :: rest => String.ofList (head ++ rest.flatMap capitalize)

/-- The name of a variable after its hyphens, and what follows it. -/
def readVariable? (cs : List Char) : Option (List Char) := do
  let rest ← afterText? ['-', '-'] cs
  let isChar (c : Char) : Bool := isWordChar c || c == '-'
  if (rest.takeWhile isChar).isEmpty then none else some (rest.dropWhile isChar)

/-- The fallback of a value that is a reference to a variable. -/
def fallback? (value : List Char) : Option (List Char) := do
  let rest ← afterText? "var(".toList (trim value)
  let rest ← readVariable? (trimLeft rest)
  match trimLeft rest with
  | ',' :: source =>
    let body := source.dropLast
    if source.getLast? = some ')' && !body.isEmpty && !body.contains ')' then some (trim body)
    else none
  | _ => none

/-- An attribute value, or the fallback if it is a reference to a variable. -/
def plainValue (value : String) : String :=
  match fallback? value.toList with
  | some fallback => String.ofList fallback
  | none => value

end VectorImage

end MarkupTidy
