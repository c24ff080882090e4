import MarkupTidy.Markup.Node

/-! # Iterations

An iteration hands out the elements of a document one after the other.  It goes by a stack of places:
what it keeps is where an element stands, and not what the element has been.  Whoever receives an
element may give attributes to that one and to any other; the children of an element are put on the
stack when the iteration goes on.

* `Place`, `Document.element?`, `Document.setAttributes`: elements by the places where they stand.
* `Document.iterate`: an iteration, with what is done with the elements that it hands out.
* `Document.iterated`: the elements in the order of an iteration in which nothing is done. -/

namespace MarkupTidy

/-! ### Places -/

/-- Where an element stands: the number of its root among the segments, and from there the number of
each child on the way. -/
structure Place where
  root : Nat
  way : List Nat
deriving DecidableEq, Repr

/-- The place of a child. -/
def Place.child (place : Place) (index : Nat) : Place :=
  { place with way := place.way ++ [index] }

/-- The root that a segment is. -/
def Segment.root? : Segment → Option Element
  | .markup root => some root
  | .code _ => none

/-- A segment with its root changed. -/
def Segment.mapRoot (f : Element → Element) : Segment → Segment
  | .markup root => .markup (f root)
  | .code source => .code source

/-- A node with its element changed. -/
def Node.mapElement (f : Element → Element) : Node → Node
  | .element e => .element (f e)
  | .text value => .text value
  | .expression source => .expression source

/-- The element at the end of a way through children. -/
def Element.follow? : List Nat → Element → Option Element
  | [], e => some e
  | index :: way, e => (e.children[index]?.bind Node.element?).bind (follow? way)

/-- An element with other attributes at the end of a way through children. -/
def Element.setAttributesAt (attributes : Attributes) : List Nat → Element → Element
  | [], e => { e with attributes }
  | index :: way, e =>
    { e with children := e.children.modify index (Node.mapElement (setAttributesAt attributes way)) }

/-- The places of the elements among the children of an element; the first child has a number. -/
def Node.childPlaces (parent : Place) : Nat → List Node → List Place
  | _, [] => []
  | index, .element _ :: rest => parent.child index :: Node.childPlaces parent (index + 1) rest
  | index, .text _ :: rest => Node.childPlaces parent (index + 1) rest
  | index, .expression _ :: rest => Node.childPlaces parent (index + 1) rest

/-- The places of the roots among segments; the first segment has a number. -/
def Segment.rootPlaces : Nat → List Segment → List Place
  | _, [] => []
  | index, .markup _ :: rest => ⟨index, []⟩ :: Segment.rootPlaces (index + 1) rest
  | index, .code _ :: rest => Segment.rootPlaces (index + 1) rest

namespace Document

/-- The element at a place. -/
def element? (d : Document) (place : Place) : Option Element :=
  (d.segments[place.root]?.bind Segment.root?).bind (Element.follow? place.way)

/-- A document with other attributes for the element at a place. -/
def setAttributes (d : Document) (place : Place) (attributes : Attributes) : Document :=
  ⟨d.segments.modify place.root (Segment.mapRoot (Element.setAttributesAt attributes place.way))⟩

/-- A document with other attributes for elements, one after the other. -/
def setAll (d : Document) (changes : List (Place × Attributes)) : Document :=
  changes.foldl (fun d change => d.setAttributes change.1 change.2) d

/-- The places of the roots. -/
def rootPlaces (d : Document) : List Place :=
  Segment.rootPlaces 0 d.segments

/-- The places of the children, that are elements, of the element at a place. -/
def childPlaces (d : Document) (place : Place) : List Place :=
  match d.element? place with
  | some e => Node.childPlaces place 0 e.children
  | none => []

end Document

/-! ### Elements at places -/

theorem Element.follow?_append (way way' : List Nat) (e : Element) :
    e.follow? (way ++ way') = (e.follow? way).bind (follow? way') := by
  induction way generalizing e with
  | nil => rfl
  | cons index way ih =>
    rw [List.cons_append, follow?, follow?]
    cases e.children[index]?.bind Node.element? with
    | none => rfl
    | some child => exact ih child

theorem Document.element?_child (d : Document) (place : Place) (index : Nat) :
    d.element? (place.child index) = (d.element? place).bind (Element.follow? [index]) := by
  unfold element? Place.child
  cases d.segments[place.root]?.bind Segment.root? with
  | none => rfl
  | some root => exact Element.follow?_append place.way [index] root

theorem getElem?_append_cons {α : Type} (before after : List α) (x : α) :
    (before ++ x :: after)[before.length]? = some x := by
  rw [List.getElem?_append_right (Nat.le_refl _), Nat.sub_self]
  rfl

/-- The child of an element stands where its number says. -/
theorem Document.element?_child_of_split {d : Document} {place : Place} {e child : Element}
    {before after : List Node} (h : d.element? place = some e)
    (hsplit : e.children = before ++ .element child :: after) :
    d.element? (place.child before.length) = some child := by
  rw [element?_child, h, Option.bind_some, Element.follow?, hsplit, getElem?_append_cons]
  rfl

/-! ### Sizes

An iteration comes to its end because attributes have no part in how many elements there are. -/

theorem Node.length_preorderAll_modify {f : Element → Element}
    (hf : ∀ e, (f e).preorder.length = e.preorder.length) (index : Nat) (ns : List Node) :
    (Node.preorderAll (ns.modify index (mapElement f))).length = (Node.preorderAll ns).length := by
  induction ns generalizing index with
  | nil => rw [List.modify_nil]
  | cons n rest ih =>
    cases index with
    | zero => cases n <;> simp [mapElement, preorderAll, hf]
    | succ index => cases n <;> simp [preorderAll, ih]

theorem Element.length_preorder_setAttributesAt (attributes : Attributes) (way : List Nat)
    (e : Element) : (e.setAttributesAt attributes way).preorder.length = e.preorder.length := by
  induction way generalizing e with
  | nil =>
    obtain ⟨tag, old, children⟩ := e
    rfl
  | cons index way ih =>
    obtain ⟨tag, old, children⟩ := e
    exact congrArg (· + 1) (Node.length_preorderAll_modify ih index children)

theorem Element.length_follow?_setAttributesAt (attributes : Attributes) (way way' : List Nat)
    (e : Element) :
    ((e.setAttributesAt attributes way).follow? way').map (fun x => x.preorder.length)
      = (e.follow? way').map fun x => x.preorder.length := by
  induction way' generalizing way e with
  | nil => exact congrArg some (length_preorder_setAttributesAt attributes way e)
  | cons index' way' ih =>
    cases way with
    | nil => rfl
    | cons index way =>
      rw [setAttributesAt, follow?, follow?, List.getElem?_modify]
      cases e.children[index']? with
      | none => rfl
      | some n =>
        by_cases hindex : index = index'
        · cases n with
          | element child => simpa [hindex, Node.mapElement, Node.element?] using ih way child
          | text _ => simp [hindex, Node.mapElement, Node.element?]
          | expression _ => simp [hindex, Node.mapElement, Node.element?]
        · simp [hindex]

namespace Document

/-- How many elements there are at and below a place, but at least one. -/
def sizeAt (d : Document) (place : Place) : Nat :=
  ((d.element? place).map fun e => e.preorder.length).getD 1

/-- How many elements there are at and below places, but at least one for each. -/
def sizeOn (d : Document) : List Place → Nat
  | [] => 0
  | place :: rest => d.sizeAt place + d.sizeOn rest

theorem sizeOn_append (d : Document) (places places' : List Place) :
    d.sizeOn (places ++ places') = d.sizeOn places + d.sizeOn places' := by
  induction places with
  | nil => exact (Nat.zero_add _).symm
  | cons place rest ih => rw [List.cons_append, sizeOn, sizeOn, ih, Nat.add_assoc]

theorem sizeAt_setAttributes (d : Document) (place other : Place) (attributes : Attributes) :
    (d.setAttributes place attributes).sizeAt other = d.sizeAt other := by
  unfold sizeAt element? setAttributes
  rw [List.getElem?_modify]
  cases d.segments[other.root]? with
  | none => rfl
  | some segment =>
    by_cases hroot : place.root = other.root
    · cases segment with
      | markup root =>
        simpa [hroot, Segment.mapRoot, Segment.root?] using
          congrArg (Option.getD · 1) (Element.length_follow?_setAttributesAt attributes _ _ root)
      | code _ => simp [hroot, Segment.mapRoot, Segment.root?]
    · simp [hroot]

theorem sizeAt_setAll (d : Document) (changes : List (Place × Attributes)) (place : Place) :
    (d.setAll changes).sizeAt place = d.sizeAt place := by
  induction changes generalizing d with
  | nil => rfl
  | cons change changes ih => exact (ih _).trans (sizeAt_setAttributes ..)

theorem sizeOn_setAll (d : Document) (changes : List (Place × Attributes)) (places : List Place) :
    (d.setAll changes).sizeOn places = d.sizeOn places := by
  induction places with
  | nil => rfl
  | cons place rest ih => rw [sizeOn, sizeOn, sizeAt_setAll, ih]

theorem sizeOn_nodes {d : Document} {place : Place} {e : Element} (h : d.element? place = some e)
    {before ns : List Node} (hsplit : e.children = before ++ ns) :
    d.sizeOn (Node.childPlaces place before.length ns) = (Node.preorderAll ns).length := by
  induction ns generalizing before with
  | nil => rfl
  | cons n rest ih =>
    have hrest := @ih (before ++ [n]) (hsplit.trans (List.append_cons ..))
    rw [List.length_append, List.length_singleton] at hrest
    cases n with
    | element child =>
      have hchild : d.sizeAt (place.child before.length) = child.preorder.length := by
        rw [sizeAt, element?_child_of_split h hsplit]
        rfl
      rw [Node.childPlaces, sizeOn, hchild, hrest, Node.preorderAll, List.length_append]
    | text _ => exact hrest
    | expression _ => exact hrest

/-- Below an element there is one element less than at it. -/
theorem sizeOn_childPlaces_lt (d : Document) (place : Place) :
    d.sizeOn (d.childPlaces place) < d.sizeAt place := by
  unfold childPlaces sizeAt
  cases h : d.element? place with
  | none => exact Nat.one_pos
  | some e =>
    obtain ⟨tag, attributes, children⟩ := e
    have hsize := @sizeOn_nodes d place _ h [] children rfl
    exact Nat.lt_succ_of_le (Nat.le_of_eq hsize)

end Document

/-! ### Iterations -/

/-- Places put on a stack, one after the other; the last one is on top then. -/
def pushAll (stack places : List Place) : List Place :=
  places.foldl (fun stack place => place :: stack) stack

theorem pushAll_reverse (stack places : List Place) :
    pushAll stack places.reverse = places ++ stack := by
  rw [pushAll, List.foldl_reverse]
  exact List.foldr_cons_eq_append'

/-- What is done with an element that has been handed out: a new state, and attributes for elements
anywhere in the document. -/
abbrev Receiver (σ : Type) := σ → Document → Place → Element → σ × List (Place × Attributes)

/-- An iteration that has come to its end: the last state, the document, and the elements that have
been handed out, with their places and as they were then. -/
structure Iteration (σ : Type) where
  state : σ
  document : Document
  handed : List (Place × Element)

/-- An iteration that has handed out another element before. -/
def Iteration.after {σ : Type} (i : Iteration σ) (place : Place) (e : Element) : Iteration σ :=
  { i with handed := (place, e) :: i.handed }

namespace Document

/-- Goes on with an iteration from a stack of places: the element at the place on top is handed out,
then its children, as they are after that, are put on the stack, the last one first. -/
def iterateFrom {σ : Type} (receive : Receiver σ) (st : σ) (d : Document) :
    List Place → Iteration σ
  | [] => ⟨st, d, []⟩
  | place :: stack =>
    match d.element? place with
    | none => iterateFrom receive st d stack
    | some e =>
      let received := receive st d place e
      let d' := d.setAll received.2
      (iterateFrom receive received.1 d' (pushAll stack (d'.childPlaces place).reverse)).after place e
termination_by stack => d.sizeOn stack
decreasing_by
  · have hpos := sizeOn_childPlaces_lt d place
    rw [sizeOn]
    omega
  · have hbelow := sizeOn_childPlaces_lt d' place
    have hat : d'.sizeAt place = d.sizeAt place := sizeAt_setAll d received.2 place
    have hstack : d'.sizeOn stack = d.sizeOn stack := sizeOn_setAll d received.2 stack
    change d'.sizeOn (pushAll stack (d'.childPlaces place).reverse) < _
    rw [pushAll_reverse, sizeOn_append, sizeOn]
    omega

theorem iterateFrom_nil {σ : Type} (receive : Receiver σ) (st : σ) (d : Document) :
    d.iterateFrom receive st [] = ⟨st, d, []⟩ := by
  rw [iterateFrom]

theorem iterateFrom_cons_of_some {σ : Type} (receive : Receiver σ) (st : σ) {d d' : Document}
    {place : Place} {e : Element} (h : d.element? place = some e)
    (hd : d.setAll (receive st d place e).2 = d') (stack : List Place) :
    d.iterateFrom receive st (place :: stack)
      = (d'.iterateFrom receive (receive st d place e).1 (d'.childPlaces place ++ stack)).after
          place e := by
  rw [iterateFrom, h, ← hd]
  dsimp only
  rw [pushAll_reverse]

/-- Iterates over a document. -/
def iterate {σ : Type} (receive : Receiver σ) (st : σ) (d : Document) : Iteration σ :=
  d.iterateFrom receive st (pushAll [] d.rootPlaces.reverse)

/-- The elements of a document in the order in which an iteration hands them out. -/
def iterated (d : Document) : List Element :=
  (d.iterate (fun _ _ _ _ => ((), [])) ()).handed.map Prod.snd

end Document

end MarkupTidy
