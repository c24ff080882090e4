import MarkupTidy.Pass.Basic
import MarkupTidy.Utility.Gradient
import MarkupTidy.Utility.Shape

/-! # Visual corrections

Gradients that utilities cannot express become CSS values, shapes get the geometry that their name
promises, and blend modes are checked.  What is not fully understood is counted and left alone.

* `BlendMode.read?`: the mode that a `mix-blend-…` token names; `BlendMode.known`: the known ones.
* `PostFixes.visit`: what is done to an element; `PostFixes.pass`: the pass over a document. -/

namespace MarkupTidy.BlendMode

/-- The known blend modes. -/
def known : List String := [
  "normal", "multiply", "screen", "overlay", "darken", "lighten", "color-dodge", "color-burn",
  "hard-light", "soft-light", "difference", "exclusion", "hue", "saturation", "color",
  "luminosity", "plus-darker", "plus-lighter"]

/-- The mode that a token names, known or not. -/
def read? (token : String) : Option String :=
  (Text.afterText? "mix-blend-".toList token.toList).map String.ofList

end MarkupTidy.BlendMode

namespace MarkupTidy.PostFixes

/-- Writes the gradient of an element as its background. -/
def fixGradient (attributes : Attributes) : Verdict × Attributes :=
  let tokens := attributes.classes
  match Gradient.classify tokens with
  | .absent => (.skipped, attributes)
  | .unclear => (.unrecognized, attributes)
  | .found value used =>
    match attributes.styleOrNew? with
    | none => (.unrecognized, attributes)
    | some s =>
      if s.has "background" then (.unrecognized, attributes)
      else
        (.applied, (attributes.setStyle (s.set "background" (.text value))).setClasses
          (tokens.filter fun t => !used.contains t))

/-- The class of an image that keeps its proportions. -/
def containClass : String := "object-contain"

/-- Whether a child is an image that could be made to keep its proportions. -/
def isLooseImage (tag : String) (attributes : Attributes) : Bool :=
  tag = "img" && (!attributes.has classAttribute || attributes.hasStaticClasses)
    && !attributes.classes.contains containClass

/-- Makes an image keep its proportions. -/
def containImage : AttributeChange := fun tag attributes =>
  if isLooseImage tag attributes then
    attributes.setClasses (attributes.classes ++ [containClass])
  else attributes

/-- The outcome of a shape correction. -/
structure ShapeFix where
  verdict : Verdict
  attributes : Attributes
  forChildren : AttributeChange

/-- Leaves an element as it is. -/
def ShapeFix.none (verdict : Verdict) (attributes : Attributes) : ShapeFix :=
  ⟨verdict, attributes, .none⟩

/-- Keeps the height of a line visible. -/
def fixLine (attributes : Attributes) : ShapeFix :=
  let tokens := attributes.classes
  let fixed := tokens.map fun t => if t = "h-0" || t = "h-[0px]" then "h-px" else t
  if fixed = tokens then .none .skipped attributes
  else .none .applied (attributes.setClasses fixed)

/-- Marks a star or a polygon, and makes its images keep their proportions. -/
def fixPointed (name : String) (attributes : Attributes) (children : List Element) : ShapeFix :=
  let unmarked := attributes.text? "data-shape" ≠ some name
  let loose := children.any fun child => isLooseImage child.tag child.attributes
  { verdict := if unmarked || loose then .applied else .skipped
    attributes := if unmarked then attributes.set "data-shape" (.text name) else attributes
    forChildren := containImage }

/-- Gives a round shape its corner radius. -/
def fixRound (isCircle : Bool) (attributes : Attributes) : ShapeFix :=
  let tokens := attributes.classes
  match dimensions tokens with
  | ⟨some width, some height⟩ =>
    let radius := cornerRadius isCircle width height
    if (width.same height && tokens.contains "rounded-full")
        || (tokens.contains radius && (tokens.filter isRounded).length = 1) then
      .none .skipped attributes
    else .none .applied (attributes.setClasses (withRadius tokens radius))
  | _ => .none .unrecognized attributes

/-- The shape that an element is named for. -/
def shapeOf? (attributes : Attributes) : Option String :=
  (attributes.text? "data-name").bind fun name => shapeName? name.toList

/-- Gives a shape the geometry that its name promises. -/
def fixShape (attributes : Attributes) (children : List Element) : ShapeFix :=
  match shapeOf? attributes with
  | none => .none .skipped attributes
  | some name =>
    match ShapeForm.ofName name with
    | .line => fixLine attributes
    | .pointed => fixPointed name attributes children
    | .round isCircle => fixRound isCircle attributes

/-- Counts the blend modes of an element. -/
def countBlendModes (counters : Counters) (tokens : List String) : Counters :=
  (tokens.filterMap BlendMode.read?).foldl (fun counters mode =>
    counters.count
      (if BlendMode.known.contains mode then "blendModesVerified" else "blendModesUnrecognized"))
    counters

/-- Corrects an element. -/
def visit (counters : Counters) (e : Element) : Visit Counters :=
  if e.attributes.hasStaticClasses then
    let (gradient, attributes) := fixGradient e.attributes
    let counters := gradient.tally counters "gradientsFixed" "gradientsUnrecognized"
    let shape := fixShape attributes e.elements
    let counters := shape.verdict.tally counters "shapesFixed" "shapesUnrecognized"
    { state := countBlendModes counters shape.attributes.classes
      attributes := shape.attributes
      forChildren := shape.forChildren
      fault? := none }
  else .keep counters e

/-- The pass of visual corrections. -/
def pass : Pass where
  name := "post-fixes"
  priority := 25
  mustPrecede := ["css-vars"]
  run d c :=
    let (document, w) := d.walk visit []
    { document, context := c, result := w.result id, notices := [] }

end MarkupTidy.PostFixes
