import MarkupTidy.Pass.Basic
import MarkupTidy.Vector.Binding
import MarkupTidy.Vector.Layer

/-! # Inlining decomposed graphics

A container of positioned image layers becomes one inline `svg` element that holds the paths of all
layers, if the container has a size and the graphics behind the layers can be read. -/

namespace MarkupTidy.VectorComposites

/-- What the pass looks references up in. -/
structure Source where
  bindings : OrderedMap String String
  assets? : Option AssetFolder

/-- The state of the walk. -/
structure State where
  counters : Counters
  notices : List Notice

/-- Reads the graphics behind layers, in order; layers without one are passed over. -/
def readLayers (source : Source) (folder : AssetFolder) (notices : List Notice) :
    List Layer → List Notice × Except PassFault (List VectorImage)
  | [] => (notices, .ok [])
  | layer :: rest =>
    match layer.binding?.bind source.bindings.get? with
    | none => readLayers source folder notices rest
    | some reference =>
      match folder.read reference with
      | .error fault => (notices, .error (.reference fault))
      | .ok reading =>
        let (notices, images) := readLayers source folder (notices ++ reading.notices) rest
        (notices, images.map (reading.image?.toList ++ ·))

/-- Whether a container is given a width and a height. -/
def isSized (tokens : List String) : Bool :=
  tokens.any (tokenStarts "w-") && tokens.any (tokenStarts "h-")

/-- The view box of a graphic: its own, or that of its size. -/
def viewBox (image : VectorImage) : String :=
  match image.viewBox? with
  | some box => box
  | none =>
    let width := image.width?.getD ""
    let height := image.height?.getD ""
    if width = "" || height = "" then "" else "0 0 " ++ width ++ " " ++ height

/-- The element of a path. -/
def pathElement (path : OrderedMap String String) : Element :=
  ⟨"path", path.map fun (name, value) =>
    ⟨VectorImage.componentName name, .text (VectorImage.plainValue value)⟩, []⟩

/-- A text attribute that is carried over from a container. -/
def carried (attributes : Attributes) (name : String) : Attributes :=
  match attributes.text? name with
  | some value => [⟨name, .text value⟩]
  | none => []

/-- The graphic that takes the place of a container. -/
def composite (container : Attributes) (first : VectorImage) (images : List VectorImage) :
    Element :=
  let box := viewBox first
  { tag := "svg"
    attributes :=
      [⟨classAttribute, .text (" ".intercalate container.classes)⟩]
        ++ (if box = "" then [] else [⟨"viewBox", .text box⟩])
        ++ [⟨"fill", .text "none"⟩] ++ carried container "data-name"
        ++ carried container "data-node-id"
    children := (images.flatMap VectorImage.paths).map fun path => .element (pathElement path) }

/-- The graphic for a container with layers, if there is one. -/
def inline (source : Source) (notices : List Notice) (container : Attributes)
    (layers : List Layer) : List Notice × Except PassFault (Option Element) :=
  match source.assets? with
  | none => (notices, .ok none)
  | some folder =>
    if isSized container.classes then
      let (notices, images) := readLayers source folder notices layers
      (notices, images.map fun
        | [] => none
        | first :: rest =>
          if ((first :: rest).flatMap VectorImage.paths).isEmpty then none
          else some (composite container first (first :: rest)))
    else (notices, .ok none)

/-- Examines an element: a graphic to put in its place, and how the walk goes on. -/
def examine (source : Source) (w : Walk State) (e : Element) : Option Element × Walk State :=
  match Layer.ofContainer? e with
  | none => (none, w)
  | some layers =>
    let (notices, found) := inline source w.state.notices e.attributes layers
    match found with
    | .error fault => (none, ⟨{ w.state with notices }, some fault⟩)
    | .ok none =>
      (none, { w with state := ⟨w.state.counters.count "compositesUnrecognized", notices⟩ })
    | .ok (some graphic) =>
      (some graphic, { w with state := ⟨w.state.counters.count "compositesInlined", notices⟩ })

section
variable (source : Source)

mutual
/-- Inlines the graphics in an element. -/
def inlineElement (w : Walk State) : Element → Element × Walk State
  | ⟨tag, attributes, children⟩ =>
    if w.fault?.isSome then (⟨tag, attributes, children⟩, w)
    else
      match examine source w ⟨tag, attributes, children⟩ with
      | (some graphic, w) => (graphic, w)
      | (none, w) =>
        let (children, w) := inlineNodes w children
        (⟨tag, attributes, children⟩, w)

/-- Inlines the graphics among and below nodes. -/
def inlineNodes (w : Walk State) : List Node → List Node × Walk State
  | [] => ([], w)
  | .element e :: rest =>
    let (e, w) := inlineElement w e
    let (rest, w) := inlineNodes w rest
    (.element e :: rest, w)
  | .text value :: rest =>
    let (rest, w) := inlineNodes w rest
    (.text value :: rest, w)
  | .expression code :: rest =>
    let (rest, w) := inlineNodes w rest
    (.expression code :: rest, w)
end

/-- Inlines the graphics in segments. -/
def inlineSegments (w : Walk State) : List Segment → List Segment × Walk State
  | [] => ([], w)
  | .code code :: rest =>
    let (rest, w) := inlineSegments w rest
    (.code code :: rest, w)
  | .markup root :: rest =>
    let (root, w) := inlineElement source w root
    let (rest, w) := inlineSegments w rest
    (.markup root :: rest, w)

end

/-- The pass that inlines decomposed graphics. -/
def pass : Pass where
  name := "svg-composites"
  priority := 15
  mustPrecede := ["svg-wrappers"]
  run d c :=
    let (segments, w) := inlineSegments ⟨d.assetBindings, c.assets?⟩ ⟨⟨[], []⟩, none⟩ d.segments
    { document := ⟨segments⟩
      context := c
      result := w.result State.counters
      notices := w.state.notices }

end MarkupTidy.VectorComposites
