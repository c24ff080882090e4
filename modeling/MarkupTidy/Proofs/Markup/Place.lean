import Mathlib.Data.List.Nodup
import MarkupTidy.Markup.Iteration

/-! # Places of elements

The places of the elements of a document, by the recursion that goes over the elements themselves:
the place of an element, then those of what is below each of its children in turn.

* `Document.places`: the places, each before those below it.
* `Document.map_element?_places`: what stands there are the elements, in their order.
* `Document.nodup_places`, `Document.mem_places_iff`: every place that an element stands at is there
  once.
* `Document.placesAt`: the places at and below one; `Document.placesAt_eq_cons` and
  `Document.flatMap_placesAt_rootPlaces` take it apart as an iteration does. -/

namespace MarkupTidy

mutual
/-- The places of an element and of all elements below it, each before those below it. -/
def Element.places (place : Place) : Element → List Place
  | ⟨_, _, children⟩ => place :: Node.placesAll place 0 children

/-- The places of all elements among and below children of an element; the first child has a
number. -/
def Node.placesAll (parent : Place) : Nat → List Node → List Place
  | _, [] => []
  | index, .element e :: rest =>
    e.places (parent.child index) ++ Node.placesAll parent (index + 1) rest
  | index, .text _ :: rest => Node.placesAll parent (index + 1) rest
  | index, .expression _ :: rest => Node.placesAll parent (index + 1) rest
end

/-- The places of all elements of segments; the first segment has a number. -/
def Segment.placesAll : Nat → List Segment → List Place
  | _, [] => []
  | index, .markup root :: rest => root.places ⟨index, []⟩ ++ Segment.placesAll (index + 1) rest
  | index, .code _ :: rest => Segment.placesAll (index + 1) rest

/-- The places of all elements of a document, each before those below it. -/
def Document.places (d : Document) : List Place :=
  Segment.placesAll 0 d.segments

/-- A place further down. -/
def Place.down (place : Place) (way : List Nat) : Place :=
  { place with way := place.way ++ way }

theorem Place.down_nil (place : Place) : place.down [] = place :=
  congrArg (Place.mk place.root) (List.append_nil place.way)

theorem Place.down_cons (place : Place) (index : Nat) (way : List Nat) :
    place.down (index :: way) = (place.child index).down way :=
  congrArg (Place.mk place.root) (List.append_cons place.way index way)

theorem Place.down_injective (place : Place) : Function.Injective place.down := fun _ _ h =>
  List.append_cancel_left (congrArg Place.way h)

theorem Node.element?_eq_some_iff {n : Node} {e : Element} :
    n.element? = some e ↔ n = .element e := by
  cases n <;> simp [Node.element?]

theorem Segment.root?_eq_some_iff {segment : Segment} {root : Element} :
    segment.root? = some root ↔ segment = .markup root := by
  cases segment <;> simp [Segment.root?]

/-! ### What stands at the places -/

section
variable {d : Document}

theorem Document.element?_root_of_split {root : Element} {before after : List Segment}
    (hsplit : d.segments = before ++ .markup root :: after) :
    d.element? ⟨before.length, []⟩ = some root := by
  rw [element?, hsplit, getElem?_append_cons]
  rfl

mutual
theorem Element.map_element?_places {place : Place} :
    ∀ e : Element, d.element? place = some e → (e.places place).map d.element? = e.preorder.map some
  | ⟨tag, attributes, children⟩ => by
    intro h
    rw [Element.places, Element.preorder, List.map_cons, List.map_cons, h]
    exact congrArg _ (Node.map_element?_placesAll h children [] rfl)

theorem Node.map_element?_placesAll {place : Place} {e : Element} (h : d.element? place = some e) :
    ∀ (ns before : List Node), e.children = before ++ ns →
      (Node.placesAll place before.length ns).map d.element? = (Node.preorderAll ns).map some
  | [], _, _ => rfl
  | .element child :: rest, before, hsplit => by
    have hchild := Document.element?_child_of_split h hsplit
    have hrest := Node.map_element?_placesAll h rest (before ++ [.element child])
      (hsplit.trans (List.append_cons ..))
    rw [List.length_append, List.length_singleton] at hrest
    rw [Node.placesAll, Node.preorderAll, List.map_append, List.map_append,
      Element.map_element?_places child hchild, hrest]
  | .text value :: rest, before, hsplit => by
    have hrest := Node.map_element?_placesAll h rest (before ++ [.text value])
      (hsplit.trans (List.append_cons ..))
    rwa [List.length_append, List.length_singleton] at hrest
  | .expression source :: rest, before, hsplit => by
    have hrest := Node.map_element?_placesAll h rest (before ++ [.expression source])
      (hsplit.trans (List.append_cons ..))
    rwa [List.length_append, List.length_singleton] at hrest
end

theorem Segment.map_element?_placesAll {segments before : List Segment}
    (hsplit : d.segments = before ++ segments) :
    (Segment.placesAll before.length segments).map d.element?
      = (Document.elements ⟨segments⟩).map some := by
  induction segments generalizing before with
  | nil => rfl
  | cons segment rest ih =>
    have hrest := @ih (before ++ [segment]) (hsplit.trans (List.append_cons ..))
    rw [List.length_append, List.length_singleton] at hrest
    cases segment with
    | code source => exact hrest
    | markup root =>
      have hroot := Document.element?_root_of_split hsplit
      rw [Segment.placesAll, List.map_append, Element.map_element?_places root hroot, hrest,
        ← List.map_append]
      rfl

/-- At the places of a document stand its elements, in their order. -/
theorem Document.map_element?_places (d : Document) :
    d.places.map d.element? = d.elements.map some :=
  @Segment.map_element?_placesAll d d.segments [] rfl

end

/-! ### Each place once -/

mutual
theorem Element.exists_down_of_mem_places {place other : Place} :
    ∀ e : Element, other ∈ e.places place → ∃ way, other = place.down way
  | ⟨_, _, children⟩ => by
    intro h
    rw [Element.places] at h
    obtain rfl | h := List.mem_cons.1 h
    · exact ⟨[], other.down_nil.symm⟩
    · obtain ⟨index, way, -, rfl⟩ := Node.exists_down_of_mem_placesAll 0 children h
      exact ⟨index :: way, rfl⟩

theorem Node.exists_down_of_mem_placesAll {parent other : Place} :
    ∀ (first : Nat) (ns : List Node), other ∈ Node.placesAll parent first ns →
      ∃ index way, first ≤ index ∧ other = parent.down (index :: way)
  | _, [] => fun h => absurd h List.not_mem_nil
  | first, .element e :: rest => by
    intro h
    rw [Node.placesAll, List.mem_append] at h
    obtain h | h := h
    · obtain ⟨way, rfl⟩ := Element.exists_down_of_mem_places e h
      exact ⟨first, way, Nat.le_refl first, (parent.down_cons first way).symm⟩
    · obtain ⟨index, way, hle, rfl⟩ := Node.exists_down_of_mem_placesAll (first + 1) rest h
      exact ⟨index, way, Nat.le_of_succ_le hle, rfl⟩
  | first, .text _ :: rest => fun h =>
    let ⟨index, way, hle, heq⟩ := Node.exists_down_of_mem_placesAll (first + 1) rest h
    ⟨index, way, Nat.le_of_succ_le hle, heq⟩
  | first, .expression _ :: rest => fun h =>
    let ⟨index, way, hle, heq⟩ := Node.exists_down_of_mem_placesAll (first + 1) rest h
    ⟨index, way, Nat.le_of_succ_le hle, heq⟩
end

mutual
theorem Element.nodup_places (place : Place) : ∀ e : Element, (e.places place).Nodup
  | ⟨_, _, children⟩ => by
    rw [Element.places, List.nodup_cons]
    refine ⟨fun h => ?_, Node.nodup_placesAll place 0 children⟩
    obtain ⟨index, way, -, heq⟩ := Node.exists_down_of_mem_placesAll 0 children h
    have hway := place.down_injective (place.down_nil.trans heq)
    exact absurd hway.symm (List.cons_ne_nil index way)

theorem Node.nodup_placesAll (parent : Place) :
    ∀ (first : Nat) (ns : List Node), (Node.placesAll parent first ns).Nodup
  | _, [] => List.nodup_nil
  | first, .element e :: rest => by
    rw [Node.placesAll, List.nodup_append]
    refine ⟨Element.nodup_places _ e, Node.nodup_placesAll parent (first + 1) rest, ?_⟩
    -- what is below one child and below a later one differs in the number of the child
    rintro place hfirst other hrest rfl
    obtain ⟨way, heq⟩ := Element.exists_down_of_mem_places e hfirst
    obtain ⟨index, way', hle, heq'⟩ := Node.exists_down_of_mem_placesAll (first + 1) rest hrest
    rw [heq, ← Place.down_cons] at heq'
    have hindex := (List.cons.inj (parent.down_injective heq')).1
    omega
  | first, .text _ :: rest => Node.nodup_placesAll parent (first + 1) rest
  | first, .expression _ :: rest => Node.nodup_placesAll parent (first + 1) rest
end

theorem Segment.le_root_of_mem_placesAll {first : Nat} {segments : List Segment} {place : Place}
    (h : place ∈ Segment.placesAll first segments) : first ≤ place.root := by
  induction segments generalizing first with
  | nil => exact absurd h List.not_mem_nil
  | cons segment rest ih =>
    cases segment with
    | code _ => exact Nat.le_of_succ_le (ih h)
    | markup root =>
      rw [Segment.placesAll, List.mem_append] at h
      obtain h | h := h
      · obtain ⟨way, rfl⟩ := Element.exists_down_of_mem_places root h
        exact Nat.le_refl first
      · exact Nat.le_of_succ_le (ih h)

theorem Segment.nodup_placesAll (first : Nat) (segments : List Segment) :
    (Segment.placesAll first segments).Nodup := by
  induction segments generalizing first with
  | nil => exact List.nodup_nil
  | cons segment rest ih =>
    cases segment with
    | code _ => exact ih (first + 1)
    | markup root =>
      rw [Segment.placesAll, List.nodup_append]
      refine ⟨Element.nodup_places _ root, ih (first + 1), ?_⟩
      rintro place hfirst other hrest rfl
      obtain ⟨way, heq⟩ := Element.exists_down_of_mem_places root hfirst
      have hroot : place.root = first := congrArg Place.root heq
      have hle := Segment.le_root_of_mem_placesAll hrest
      omega

/-- No place comes twice. -/
theorem Document.nodup_places (d : Document) : d.places.Nodup :=
  Segment.nodup_placesAll 0 d.segments

/-! ### All places -/

theorem Node.places_subset_placesAll {parent : Place} {e : Element} {first index : Nat}
    {ns : List Node} (h : ns[index]? = some (.element e)) :
    e.places (parent.child (first + index)) ⊆ Node.placesAll parent first ns := by
  induction ns generalizing first index with
  | nil => exact absurd h (by simp)
  | cons n rest ih =>
    cases index with
    | zero =>
      obtain rfl : n = .element e := by simpa using h
      exact List.subset_append_left ..
    | succ index =>
      have hrest := @ih (first + 1) index (by simpa using h)
      rw [Nat.add_assoc, Nat.add_comm 1 index] at hrest
      cases n with
      | element child => exact List.Subset.trans hrest (List.subset_append_right ..)
      | text _ => exact hrest
      | expression _ => exact hrest

theorem Element.down_mem_places {e found : Element} {way : List Nat} (place : Place)
    (h : e.follow? way = some found) : place.down way ∈ e.places place := by
  induction way generalizing e place with
  | nil =>
    obtain ⟨tag, attributes, children⟩ := e
    rw [place.down_nil]
    exact List.mem_cons_self
  | cons index way ih =>
    obtain ⟨tag, attributes, children⟩ := e
    rw [Element.follow?, Option.bind_eq_some_iff] at h
    obtain ⟨child, hchild, hfound⟩ := h
    obtain ⟨n, hn, helement⟩ := Option.bind_eq_some_iff.1 hchild
    obtain rfl := Node.element?_eq_some_iff.1 helement
    have hsubset := @Node.places_subset_placesAll place child 0 index children hn
    rw [Nat.zero_add] at hsubset
    rw [Place.down_cons]
    exact List.mem_cons_of_mem _ (hsubset (ih (place.child index) hfound))

theorem Segment.places_subset_placesAll {root : Element} {first index : Nat}
    {segments : List Segment} (h : segments[index]? = some (.markup root)) :
    root.places ⟨first + index, []⟩ ⊆ Segment.placesAll first segments := by
  induction segments generalizing first index with
  | nil => exact absurd h (by simp)
  | cons segment rest ih =>
    cases index with
    | zero =>
      obtain rfl : segment = .markup root := by simpa using h
      exact List.subset_append_left ..
    | succ index =>
      have hrest := @ih (first + 1) index (by simpa using h)
      rw [Nat.add_assoc, Nat.add_comm 1 index] at hrest
      cases segment with
      | markup other => exact List.Subset.trans hrest (List.subset_append_right ..)
      | code _ => exact hrest

/-- The places of a document are those at which an element stands. -/
theorem Document.mem_places_iff {d : Document} {place : Place} :
    place ∈ d.places ↔ (d.element? place).isSome := by
  constructor
  · intro h
    have hmem : d.element? place ∈ d.elements.map some :=
      d.map_element?_places ▸ List.mem_map_of_mem h
    obtain ⟨e, -, heq⟩ := List.mem_map.1 hmem
    rw [← heq]
    rfl
  · intro h
    obtain ⟨e, he⟩ := Option.isSome_iff_exists.1 h
    obtain ⟨root, hroot, hfound⟩ := Option.bind_eq_some_iff.1 he
    obtain ⟨segment, hsegment, hmarkup⟩ := Option.bind_eq_some_iff.1 hroot
    obtain rfl := Segment.root?_eq_some_iff.1 hmarkup
    have hsubset := @Segment.places_subset_placesAll root 0 place.root d.segments hsegment
    rw [Nat.zero_add] at hsubset
    exact hsubset (Element.down_mem_places ⟨place.root, []⟩ hfound)

/-! ### The places at and below one -/

namespace Document

variable {d : Document}

/-- The places at and below one, none if no element stands there. -/
def placesAt (d : Document) (place : Place) : List Place :=
  match d.element? place with
  | some e => e.places place
  | none => []

theorem flatMap_placesAt_nodes {place : Place} {e : Element} (h : d.element? place = some e)
    {ns before : List Node} (hsplit : e.children = before ++ ns) :
    (Node.childPlaces place before.length ns).flatMap d.placesAt
      = Node.placesAll place before.length ns := by
  induction ns generalizing before with
  | nil => rfl
  | cons n rest ih =>
    have hrest := @ih (before ++ [n]) (hsplit.trans (List.append_cons ..))
    rw [List.length_append, List.length_singleton] at hrest
    cases n with
    | element child =>
      have hchild : d.placesAt (place.child before.length) = child.places (place.child before.length) := by
        rw [placesAt, element?_child_of_split h hsplit]
      rw [Node.childPlaces, List.flatMap_cons, hchild, hrest, Node.placesAll]
    | text _ => exact hrest
    | expression _ => exact hrest

/-- Where an element stands comes first, then the places at and below its children in turn. -/
theorem placesAt_eq_cons {place : Place} {e : Element} (h : d.element? place = some e) :
    d.placesAt place = place :: (d.childPlaces place).flatMap d.placesAt := by
  obtain ⟨tag, attributes, children⟩ := e
  have hbelow := @flatMap_placesAt_nodes d place _ h children [] rfl
  rw [placesAt, childPlaces, h]
  exact congrArg _ hbelow.symm

theorem flatMap_placesAt_segments {segments before : List Segment}
    (hsplit : d.segments = before ++ segments) :
    (Segment.rootPlaces before.length segments).flatMap d.placesAt
      = Segment.placesAll before.length segments := by
  induction segments generalizing before with
  | nil => rfl
  | cons segment rest ih =>
    have hrest := @ih (before ++ [segment]) (hsplit.trans (List.append_cons ..))
    rw [List.length_append, List.length_singleton] at hrest
    cases segment with
    | code _ => exact hrest
    | markup root =>
      have hroot : d.placesAt ⟨before.length, []⟩ = root.places ⟨before.length, []⟩ := by
        rw [placesAt, element?_root_of_split hsplit]
      rw [Segment.rootPlaces, List.flatMap_cons, hroot, hrest, Segment.placesAll]

/-- The places of a document are those at and below its roots in turn. -/
theorem flatMap_placesAt_rootPlaces (d : Document) :
    d.rootPlaces.flatMap d.placesAt = d.places :=
  @flatMap_placesAt_segments d d.segments [] rfl

end Document

end MarkupTidy
