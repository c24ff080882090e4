import MarkupTidy.Json.Quoted
import MarkupTidy.Markup.Identifier
import MarkupTidy.Markup.Node
import MarkupTidy.Number.DecimalText
import MarkupTidy.Text.Search

/-! # Writing markup

Code is written as it stands.  An element without children closes itself.  An element whose
children include a text keeps their layout, since white space between them is displayed.  A
single child that is no element stays on the line of its element; all other children take a line
each, two spaces further in.

An inline style is written as an object literal on one line.  Texts are quoted, whole numbers have no
fractional part, and a property name is quoted unless it is an identifier.

* `Style.print`: an inline style.
* `Element.print`: an element whose first line is not indented and whose other lines stand under
  the given indentation.
* `Document.print`: a whole module. -/

namespace MarkupTidy

open MarkupTidy.Text

/-! ### Inline styles -/

/-- The source text of a style value. -/
def StyleValue.print : StyleValue → List Char
  | .text value => Json.quoted false value.toList
  | .int value => (toString value).toList
  | .float value => value.wholeOr Binary64.shortest
  | .truth value => if value then "true".toList else "false".toList
  | .raw source => source.toList

namespace Style

/-- A property name as written.  An identifier may end in a line feed. -/
def printKey (key : String) : List Char :=
  if Markup.isIdentifier (Markup.dropFinalNewline key.toList) then key.toList
  else Json.quoted true key.toList

/-- One property of a style. -/
def printEntry (entry : String × StyleValue) : List Char :=
  printKey entry.1 ++ ':' :: ' ' :: entry.2.print

/-- The object literal that a style is written as. -/
def print (s : Style) : List Char :=
  if s.entries.isEmpty then ['\x7b', '\x7d']
  else
    '\x7b' :: ' ' :: (List.intercalate [',', ' '] (s.entries.map printEntry) ++ [' ', '\x7d'])

end Style

/-! ### Elements -/

/-- The indentation of one level. -/
def indentStep : List Char := [' ', ' ']

/-- A text in braces. -/
def braced (source : List Char) : List Char :=
  '\x7b' :: (source ++ ['\x7d'])

/-- A quoted attribute value; single quotes where the value holds a double one. -/
def quotedValue (value : List Char) : List Char :=
  let quote := if value.contains '"' then '\'' else '"'
  quote :: (value ++ [quote])

/-- An attribute as written. -/
def Attribute.print (a : Attribute) : List Char :=
  match a.value with
  | .flag => a.name.toList
  | .text value => a.name.toList ++ '=' :: quotedValue value.toList
  | .style s => a.name.toList ++ '=' :: braced s.print
  | .expression source =>
    if a.name = "" then braced source.toList else a.name.toList ++ '=' :: braced source.toList

/-- The opening tag of an element, or its only tag. -/
def openTag (tag : String) (attributes : Attributes) (selfClosing : Bool) : List Char :=
  if tag = "" then ['<', '>']
  else
    '<' :: (List.intercalate [' '] (tag.toList :: attributes.map Attribute.print)
      ++ (if selfClosing then [' ', '/', '>'] else ['>']))

/-- The closing tag of an element. -/
def closeTag (tag : String) : List Char :=
  if tag = "" then ['<', '/', '>'] else '<' :: '/' :: (tag.toList ++ ['>'])

/-- The indentation of the line that a text ends in, given that of the line it starts in. -/
def indentAfter (text indent : List Char) : List Char :=
  let lines := breakLines text
  if lines.length = 1 then indent else (lines.getLast?.getD []).takeWhile isBlank

mutual
/-- An element as written, with its lines after the first under an indentation. -/
def Element.print : Element → List Char → List Char
  | ⟨tag, attributes, children⟩, indent =>
    if children.isEmpty && tag ≠ "" then openTag tag attributes true
    else if children.any Node.isText then
      openTag tag attributes false ++ Node.printInline children indent ++ closeTag tag
    else
      match children with
      | [.expression source] =>
        openTag tag attributes false ++ braced source.toList ++ closeTag tag
      | _ =>
        openTag tag attributes false ++ Node.printLines children (indent ++ indentStep)
          ++ '\n' :: (indent ++ closeTag tag)

/-- Children as they were laid out in the source. -/
def Node.printInline : List Node → List Char → List Char
  | [], _ => []
  | .text value :: rest, indent =>
    value.toList ++ Node.printInline rest (indentAfter value.toList indent)
  | .expression source :: rest, indent => braced source.toList ++ Node.printInline rest indent
  | .element e :: rest, indent => e.print indent ++ Node.printInline rest indent

/-- Children on a line each. -/
def Node.printLines : List Node → List Char → List Char
  | [], _ => []
  | .text value :: rest, indent => '\n' :: (indent ++ value.toList) ++ Node.printLines rest indent
  | .expression source :: rest, indent =>
    '\n' :: (indent ++ braced source.toList) ++ Node.printLines rest indent
  | .element e :: rest, indent => '\n' :: (indent ++ e.print indent) ++ Node.printLines rest indent
end

/-- The indentation that an element inherits from the code before it: the line it continues, if
that line is blank. -/
def trailingIndent (code : List Char) : List Char :=
  let line := afterLast '\n' code
  if line.all isBlank then line else []

namespace Document

/-- Segments as written, given the code just before them. -/
def printFrom (before : List Char) : List Segment → List Char
  | [] => []
  | .code source :: rest => source.toList ++ printFrom source.toList rest
  | .markup root :: rest => root.print (trailingIndent before) ++ printFrom [] rest

/-- A document as written. -/
def print (d : Document) : List Char :=
  printFrom [] d.segments

end Document

end MarkupTidy
