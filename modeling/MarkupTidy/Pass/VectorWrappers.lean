import MarkupTidy.Pass.Basic
import MarkupTidy.Vector.Layer

/-! # Flattening image wrappers

An absolutely positioned `div` without a size of its own around a single image gives way to the
image, which takes over its class tokens and its names. -/

namespace MarkupTidy.VectorWrappers

/-- What the tokens that size an element begin with. -/
def sizeTokens : List String := ["w-", "h-", "size-", "min-w-", "max-w-", "min-h-", "max-h-"]

/-- Whether a token clips what overflows. -/
def isClipping (token : String) : Bool :=
  token = "overflow-hidden" || token = "overflow-clip" || tokenStarts "overflow-x-" token
    || tokenStarts "overflow-y-" token

/-- Whether a token keeps an element from being given up. -/
def isHolding (token : String) : Bool :=
  isClipping token || sizeTokens.any fun start => tokenStarts start token

/-- The names that an image takes over. -/
def carriedNames : List String := ["data-name", "data-node-id"]

/-- Whether an element is a wrapper around a single image that can take over its tokens. -/
def isWrapper (e : Element) : Bool :=
  e.tag = "div" && e.attributes.hasStaticClasses && e.attributes.classes.contains "absolute"
    && !e.attributes.classes.any isHolding
    && (singleImage? e.children).any fun image =>
      !image.attributes.has classAttribute || image.attributes.hasStaticClasses

/-- The attributes of an image that takes over those of its wrapper. -/
def takeOver (wrapper image : Attributes) : Attributes :=
  carriedNames.foldl (fun attributes name =>
    match wrapper.text? name with
    | some value => attributes.set name (.text value)
    | none => attributes)
    (image.setClasses (wrapper.classes ++ image.classes))

mutual
/-- Flattens the wrappers in an element and counts them. -/
def flattenElement (count : Nat) : Element → Element × Nat
  | ⟨tag, attributes, children⟩ =>
    if isWrapper ⟨tag, attributes, children⟩ then
      flattenImage (count + 1) attributes children
    else
      let (children, count) := flattenNodes count children
      (⟨tag, attributes, children⟩, count)

/-- The first element among nodes with the attributes of a wrapper, and flattened below. -/
def flattenImage (count : Nat) (wrapper : Attributes) : List Node → Element × Nat
  | [] => (⟨"img", takeOver wrapper [], []⟩, count)
  | .element ⟨tag, attributes, children⟩ :: _ =>
    let (children, count) := flattenNodes count children
    (⟨tag, takeOver wrapper attributes, children⟩, count)
  | .text _ :: rest => flattenImage count wrapper rest
  | .expression _ :: rest => flattenImage count wrapper rest

/-- Flattens the wrappers among and below nodes and counts them. -/
def flattenNodes (count : Nat) : List Node → List Node × Nat
  | [] => ([], count)
  | .element e :: rest =>
    let (e, count) := flattenElement count e
    let (rest, count) := flattenNodes count rest
    (.element e :: rest, count)
  | .text value :: rest =>
    let (rest, count) := flattenNodes count rest
    (.text value :: rest, count)
  | .expression source :: rest =>
    let (rest, count) := flattenNodes count rest
    (.expression source :: rest, count)
end

/-- Flattens the wrappers in segments and counts them. -/
def flattenSegments (count : Nat) : List Segment → List Segment × Nat
  | [] => ([], count)
  | .code source :: rest =>
    let (rest, count) := flattenSegments count rest
    (.code source :: rest, count)
  | .markup root :: rest =>
    let (root, count) := flattenElement count root
    let (rest, count) := flattenSegments count rest
    (.markup root :: rest, count)

/-- The pass that flattens image wrappers. -/
def pass : Pass where
  name := "svg-wrappers"
  priority := 20
  mustPrecede := []
  run d c :=
    let (segments, count) := flattenSegments 0 d.segments
    { document := ⟨segments⟩
      context := c
      result := .ok (if count = 0 then [] else [("wrappersFlattened", count)])
      notices := [] }

end MarkupTidy.VectorWrappers
