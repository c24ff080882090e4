import MarkupTidy.Markup.Node

/-! # Editing by position

Elements are addressed by their position in pre-order.

* `Document.edit`: a document with one element changed or replaced.
* `Document.replaceRoot`: a document with one root replaced, also by code.
* `Document.parents`: the position of the parent of every element. -/

namespace MarkupTidy

section
variable (change : Element → Node)

mutual
/-- Changes the element at a position among the elements below another one; the second part is what
the position comes to after them, if it lies further on. -/
def Element.editBelow (position : Nat) : Element → Element × Option Nat
  | ⟨tag, attributes, children⟩ =>
    let (children, remaining?) := Node.editAll position children
    (⟨tag, attributes, children⟩, remaining?)

/-- Changes the element at a position among and below nodes. -/
def Node.editAll (position : Nat) : List Node → List Node × Option Nat
  | [] => ([], some position)
  | .element e :: rest =>
    match position with
    | 0 => (change e :: rest, none)
    | position + 1 =>
      match e.editBelow position with
      | (e, none) => (.element e :: rest, none)
      | (e, some position) =>
        let (rest, remaining?) := Node.editAll position rest
        (.element e :: rest, remaining?)
  | .text value :: rest =>
    let (rest, remaining?) := Node.editAll position rest
    (.text value :: rest, remaining?)
  | .expression source :: rest =>
    let (rest, remaining?) := Node.editAll position rest
    (.expression source :: rest, remaining?)
end

/-- Changes the element at a position in segments; a root can only become another element. -/
def Segment.editAll (position : Nat) : List Segment → List Segment
  | [] => []
  | .code source :: rest => .code source :: Segment.editAll position rest
  | .markup root :: rest =>
    match position with
    | 0 => .markup ((change root).element?.getD root) :: rest
    | position + 1 =>
      match root.editBelow change position with
      | (root, none) => .markup root :: rest
      | (root, some position) => .markup root :: Segment.editAll position rest

/-- A document with the element at a position changed. -/
def Document.edit (position : Nat) (d : Document) : Document :=
  ⟨Segment.editAll change position d.segments⟩

end

/-- Segments with another one in place of a root, counted from zero. -/
def Segment.replaceRoot (new : Segment) : Nat → List Segment → List Segment
  | _, [] => []
  | root, .code source :: rest => .code source :: Segment.replaceRoot new root rest
  | 0, .markup _ :: rest => new :: rest
  | root + 1, .markup e :: rest => .markup e :: Segment.replaceRoot new root rest

/-- A document with another segment in place of a root, counted from zero. -/
def Document.replaceRoot (d : Document) (root : Nat) (new : Segment) : Document :=
  ⟨Segment.replaceRoot new root d.segments⟩

/-- A document with other attributes for the element at a position. -/
def Document.editAttributes (position : Nat) (attributes : Attributes) (d : Document) : Document :=
  d.edit (fun e => .element { e with attributes }) position

mutual
/-- The positions of the parents of all elements below one that has a given position. -/
def Element.parentsBelow (position : Nat) : Element → List (Option Nat)
  | ⟨_, _, children⟩ => Node.parentsAll (some position) (position + 1) children

/-- The positions of the parents of all elements among and below nodes, the first of which has a
given position. -/
def Node.parentsAll (parent? : Option Nat) (position : Nat) : List Node → List (Option Nat)
  | [] => []
  | .element e :: rest =>
    let below := e.parentsBelow position
    parent? :: below ++ Node.parentsAll parent? (position + 1 + below.length) rest
  | .text _ :: rest => Node.parentsAll parent? position rest
  | .expression _ :: rest => Node.parentsAll parent? position rest
end

/-- The positions of the parents of all elements; a root has none. -/
def Document.parents (d : Document) : List (Option Nat) :=
  Node.parentsAll none 0 (d.roots.map .element)

end MarkupTidy
