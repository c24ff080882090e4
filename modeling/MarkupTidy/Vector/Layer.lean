import MarkupTidy.Markup.Identifier
import MarkupTidy.Markup.Node
import MarkupTidy.Utility.Cleanup

/-! # Image layers

A decomposed vector graphic is a container with several absolutely positioned images, each direct
or wrapped in a `div` of its own. -/

namespace MarkupTidy

open MarkupTidy.Text MarkupTidy.Markup

/-- The image that is the only content among children. -/
def singleImage? (children : List Node) : Option Element :=
  match children.filter fun n => !n.isBlank with
  | [.element e] => if e.tag = "img" then some e else none
  | _ => none

/-- A layer: its image, and the class tokens that position it. -/
structure Layer where
  image : Element
  positioning : List String

namespace Layer

/-- The layer that a child is. -/
def ofNode? : Node → Option Layer
  | .element e =>
    if e.tag = "img" then some ⟨e, e.attributes.classes⟩
    else if e.tag = "div" then
      (singleImage? e.children).map fun image => ⟨image, e.attributes.classes⟩
    else none
  | _ => none

/-- What the tokens that place an element begin with. -/
def placeTokens : List String := ["top-", "bottom-", "left-", "right-", "inset-"]

/-- Whether a layer is absolutely positioned. -/
def isPositioned (l : Layer) : Bool :=
  l.positioning.contains "absolute"
    && l.positioning.any fun t => placeTokens.any fun start => tokenStarts start t

/-- The name under which a module refers to the image of a layer. -/
def binding? (l : Layer) : Option String :=
  match l.image.attributes.value? "src" with
  | some (.expression source) =>
    let name := trim source.toList
    if isIdentifier name then some (String.ofList name) else none
  | _ => none

/-- The least number of layers of a graphic. -/
def leastCount : Nat := 3

/-- The layers of a container, if all its content is positioned layers and there are enough. -/
def ofContainer? (e : Element) : Option (List Layer) :=
  if e.tag = "div" && leastCount ≤ e.content.length then
    e.content.mapM fun child =>
      match ofNode? child with
      | some layer => if layer.isPositioned then some layer else none
      | none => none
  else none

end Layer

end MarkupTidy
