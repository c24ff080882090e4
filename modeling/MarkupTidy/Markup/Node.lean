import MarkupTidy.Markup.Style
import MarkupTidy.Text.Blank

/-! # Markup trees

A component module is a sequence of segments: code that is carried through as it stands, and
element trees.  An element has a tag, attributes in order, and children; a fragment is the
element with the empty tag, a spread the attribute with the empty name.

* `Attributes`: reading and changing attributes by name, class tokens, the inline style.
* `Node.isBlank`, `renderedText`: what a text child displays.
* `Document.elements`: all elements, each before its children. -/

namespace MarkupTidy

/-- The value of an attribute: none for a bare name, a quoted text, the source between braces,
or an inline style. -/
inductive AttributeValue where
  | flag
  | text (value : String)
  | expression (source : String)
  | style (value : Style)
deriving DecidableEq, Repr

/-- An attribute; a spread has the empty name. -/
structure Attribute where
  name : String
  value : AttributeValue
deriving DecidableEq, Repr

/-- Attributes in the order in which they were written. -/
abbrev Attributes := List Attribute

/-- The name of the attribute that holds class tokens. -/
def classAttribute : String := "className"

/-- Tokens as one text, with a space between two; empty tokens are left out. -/
def joinTokens (tokens : List String) : String :=
  " ".intercalate (tokens.filter (· ≠ ""))

/-- The class tokens that a text holds. -/
def classTokens (value : String) : List String :=
  (Text.words value.toList).map String.ofList

namespace Attributes

/-- The first attribute of a name. -/
def find? (as : Attributes) (name : String) : Option Attribute :=
  List.find? (·.name == name) as

/-- The value of the first attribute of a name. -/
def value? (as : Attributes) (name : String) : Option AttributeValue :=
  (as.find? name).map Attribute.value

/-- The text of the first attribute of a name, if it holds one. -/
def text? (as : Attributes) (name : String) : Option String :=
  match as.value? name with
  | some (.text value) => some value
  | _ => none

/-- Whether there is an attribute of a name. -/
def has (as : Attributes) (name : String) : Bool :=
  (as.find? name).isSome

/-- Gives the first attribute of a name a value, or adds one at the end. -/
def set : Attributes → String → AttributeValue → Attributes
  | [], name, value => [⟨name, value⟩]
  | a :: rest, name, value =>
    if a.name = name then ⟨name, value⟩ :: rest else a :: set rest name value

/-- Takes away the first attribute of a name. -/
def remove : Attributes → String → Attributes
  | [], _ => []
  | a :: rest, name => if a.name = name then rest else a :: remove rest name

/-- The class tokens, none if they are computed or absent. -/
def classes (as : Attributes) : List String :=
  match as.text? classAttribute with
  | some value => classTokens value
  | none => []

/-- Whether the class attribute holds a text. -/
def hasStaticClasses (as : Attributes) : Bool :=
  (as.text? classAttribute).isSome

/-- Replaces the class tokens. -/
def setClasses (as : Attributes) (tokens : List String) : Attributes :=
  as.set classAttribute (.text (joinTokens tokens))

/-- The inline style, if it could be read as one. -/
def style? (as : Attributes) : Option Style :=
  match as.value? "style" with
  | some (.style s) => some s
  | _ => none

/-- The inline style to add properties to: an empty one where there is no `style` attribute, and
none where the attribute is no readable style. -/
def styleOrNew? (as : Attributes) : Option Style :=
  match as.value? "style" with
  | none => some Style.empty
  | some (.style s) => some s
  | some _ => none

/-- Replaces the inline style. -/
def setStyle (as : Attributes) (s : Style) : Attributes :=
  as.set "style" (.style s)

theorem value?_set_self (as : Attributes) (name : String) (value : AttributeValue) :
    (as.set name value).value? name = some value := by
  induction as with
  | nil => simp [set, value?, find?]
  | cons a rest ih =>
    by_cases h : a.name = name
    · simp [set, value?, find?, h]
    · simp only [value?, find?] at ih
      simp [set, value?, find?, h, ih]

theorem value?_set_ne (as : Attributes) {name other : String} (value : AttributeValue)
    (hne : name ≠ other) : (as.set name value).value? other = as.value? other := by
  induction as with
  | nil => simp [set, value?, find?, hne]
  | cons a rest ih =>
    simp only [value?, find?] at ih
    by_cases h : a.name = name
    · simp [set, value?, find?, h, hne]
    · by_cases ho : a.name = other
      · have hne' : ¬other = name := fun he => hne he.symm
        simp [set, value?, find?, ho, hne']
      · simp [set, value?, find?, h, ho, ih]

end Attributes

mutual
/-- An element; a fragment has the empty tag. -/
structure Element where
  tag : String
  attributes : Attributes
  children : List Node

/-- A child of an element. -/
inductive Node where
  | element (e : Element)
  | text (value : String)
  /-- Source code between braces. -/
  | expression (source : String)
end

/-- A part of a component module. -/
inductive Segment where
  | code (source : String)
  | markup (root : Element)

/-- A component module: code and element trees, in order. -/
structure Document where
  segments : List Segment

/-! ### Texts -/

/-- A text cut at its line breaks; a carriage return with a line feed is one break. -/
def breakLines : List Char → List (List Char)
  | [] => [[]]
  | '\r' :: '\n' :: rest => [] :: breakLines rest
  | c :: rest =>
    if c = '\r' || c = '\n' then [] :: breakLines rest
    else
      match breakLines rest with
      | [] => [[c]]
      | line :: lines => (c :: line) :: lines

/-- A space or a tab. -/
def isLayout (c : Char) : Bool :=
  c == ' ' || c == '\t'

/-- A line without the layout at its end. -/
def trimLayoutRight (cs : List Char) : List Char :=
  (cs.reverse.dropWhile isLayout).reverse

/-- Lines after the first: layout is dropped at each side where a line meets a break. -/
def trimLaterLines : List (List Char) → List (List Char)
  | [] => []
  | [last] => [last.dropWhile isLayout]
  | line :: rest => trimLayoutRight (line.dropWhile isLayout) :: trimLaterLines rest

/-- Lines without the layout that surrounds the breaks between them. -/
def trimLines : List (List Char) → List (List Char)
  | [] => []
  | [only] => [only]
  | first :: rest => trimLayoutRight first :: trimLaterLines rest

/-- What a text child displays: its lines without the layout at their breaks, empty lines left
out, with a space between two. -/
def renderedText (cs : List Char) : List Char :=
  List.intercalate [' '] ((trimLines (breakLines cs)).filter fun line => !line.isEmpty)

/-- Whether a text child displays nothing. -/
def isBlankText (value : String) : Bool :=
  (renderedText value.toList).isEmpty

/-! ### Elements -/

namespace Node

/-- The element that a node is. -/
def element? : Node → Option Element
  | .element e => some e
  | _ => none

/-- Whether a node is a text. -/
def isText : Node → Bool
  | .text _ => true
  | _ => false

/-- Whether a node is a text that displays nothing. -/
def isBlank : Node → Bool
  | .text value => isBlankText value
  | _ => false

end Node

namespace Element

/-- Whether an element is a fragment. -/
def isFragment (e : Element) : Bool :=
  e.tag = ""

/-- The children that are elements. -/
def elements (e : Element) : List Element :=
  e.children.filterMap Node.element?

/-- The children that display something. -/
def content (e : Element) : List Node :=
  e.children.filter fun n => !n.isBlank

/-- The element with its attributes changed. -/
def mapAttributes (e : Element) (f : Attributes → Attributes) : Element :=
  { e with attributes := f e.attributes }

end Element

/-! ### Pre-order -/

mutual
/-- An element and all elements below it, each before those below it. -/
def Element.preorder : Element → List Element
  | ⟨tag, attributes, children⟩ => ⟨tag, attributes, children⟩ :: Node.preorderAll children

/-- All elements among and below nodes. -/
def Node.preorderAll : List Node → List Element
  | [] => []
  | .element e :: rest => e.preorder ++ Node.preorderAll rest
  | .text _ :: rest => Node.preorderAll rest
  | .expression _ :: rest => Node.preorderAll rest
end

namespace Document

/-- The root elements. -/
def roots (d : Document) : List Element :=
  d.segments.filterMap fun
    | .markup root => some root
    | .code _ => none

/-- The code segments. -/
def code (d : Document) : List String :=
  d.segments.filterMap fun
    | .code source => some source
    | .markup _ => none

/-- All elements of a document, each before those below it. -/
def elements (d : Document) : List Element :=
  d.roots.flatMap Element.preorder

end Document

end MarkupTidy
