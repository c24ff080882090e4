import MarkupTidy.Markup.Node
import MarkupTidy.Vector.Asset

/-! # Walks over attributes

A walk visits all elements of a document, each before those below it, and may change their
attributes; the shape of the tree stays.  A visit may also leave a change for the children of its
element, which they get before their own visit.  A fault ends the walk: what has been changed stays
changed, and the rest stays as it was. -/

namespace MarkupTidy

/-- Why a pass has stopped. -/
inductive PassFault where
  /-- The style of an element is neither readable nor an expression. -/
  | styleWithoutSource
  /-- A reference to an asset is malformed. -/
  | reference (fault : ReferenceFault)
  /-- A pass gives its own reason. -/
  | stated (message : String)
deriving DecidableEq, Repr

/-- The wording of a fault. -/
def PassFault.message : PassFault → String
  | styleWithoutSource => ""
  | reference fault => fault.message
  | stated message => message

/-- A change to the attributes of an element, by its tag. -/
abbrev AttributeChange := String → Attributes → Attributes

/-- The change that changes nothing. -/
def AttributeChange.none : AttributeChange := fun _ attributes => attributes

/-- The outcome of a visit. -/
structure Visit (σ : Type) where
  state : σ
  attributes : Attributes
  forChildren : AttributeChange
  fault? : Option PassFault

namespace Visit

variable {σ : Type}

/-- A visit that changes the attributes of its element. -/
def change (state : σ) (attributes : Attributes) : Visit σ :=
  ⟨state, attributes, .none, none⟩

/-- A visit that changes nothing. -/
def keep (state : σ) (e : Element) : Visit σ :=
  change state e.attributes

/-- A visit that ends the walk. -/
def fail (state : σ) (e : Element) (fault : PassFault) : Visit σ :=
  ⟨state, e.attributes, .none, some fault⟩

end Visit

/-- Where a walk stands: its state, and the fault that has ended it. -/
structure Walk (σ : Type) where
  state : σ
  fault? : Option PassFault

section
variable {σ : Type} (visit : σ → Element → Visit σ)

mutual
/-- Walks over an element that has been left a change. -/
def Element.walk (w : Walk σ) (change : AttributeChange) : Element → Element × Walk σ
  | ⟨tag, attributes, children⟩ =>
    let attributes := change tag attributes
    if w.fault?.isSome then (⟨tag, attributes, children⟩, w)
    else
      let v := visit w.state ⟨tag, attributes, children⟩
      let (children, w) := Node.walkAll ⟨v.state, v.fault?⟩ v.forChildren children
      (⟨tag, v.attributes, children⟩, w)

/-- Walks over the children of an element, which has left them a change. -/
def Node.walkAll (w : Walk σ) (change : AttributeChange) : List Node → List Node × Walk σ
  | [] => ([], w)
  | .element e :: rest =>
    let (e, w) := Element.walk w change e
    let (rest, w) := Node.walkAll w change rest
    (.element e :: rest, w)
  | .text value :: rest =>
    let (rest, w) := Node.walkAll w change rest
    (.text value :: rest, w)
  | .expression source :: rest =>
    let (rest, w) := Node.walkAll w change rest
    (.expression source :: rest, w)
end

/-- Walks over the segments of a document. -/
def Segment.walkAll (w : Walk σ) : List Segment → List Segment × Walk σ
  | [] => ([], w)
  | .code source :: rest =>
    let (rest, w) := Segment.walkAll w rest
    (.code source :: rest, w)
  | .markup root :: rest =>
    let (root, w) := Element.walk visit w .none root
    let (rest, w) := Segment.walkAll w rest
    (.markup root :: rest, w)

/-- Walks over a document from a starting state. -/
def Document.walk (state : σ) (d : Document) : Document × Walk σ :=
  let (segments, w) := Segment.walkAll visit ⟨state, none⟩ d.segments
  (⟨segments⟩, w)

end

end MarkupTidy
