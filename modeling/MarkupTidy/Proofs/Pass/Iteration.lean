import MarkupTidy.Proofs.Markup.Place
import MarkupTidy.Proofs.Pass.Frame

/-! # Iterations and walks

An iteration keeps a stack of places, a recursion keeps none; both come to the elements in the same
order, whatever attributes are given to them on the way.  What is still on the stack says what is
still to come: the places at and below each of its places in turn.

* `Document.Matches.element?`: documents that differ in attributes have their elements at the same
  places; `Document.matches_setAll`: giving attributes makes no other difference.
* `Document.map_fst_handed_iterateFrom`: an iteration from a stack hands out what is at and below it;
  `Document.matches_of_mem_handed`: with the attributes of the moment, and all else as it was.
* `Document.iterated_eq_elements`: where nothing is done, the elements come out as they are.
* `IsContext`: a document with an element taken out of it; `visited`, `Iteration.outcome`: walks by
  iterations; `Document.outcome_iterate_visited`: a walk is an iteration that visits.
* `Document.iterates_in_preorder`: all of this for an iteration from the roots. -/

namespace MarkupTidy

/-! ### Documents that differ in attributes -/

/-- Any attributes stand for any others. -/
def Attributes.Any (_ _ : Attributes) : Prop :=
  True

instance : IsPreorder Attributes Attributes.Any where
  refl _ := trivial
  trans _ _ _ _ _ := trivial

section
variable {α β γ δ : Type} {r : α → β → Prop} {s : γ → δ → Prop}

theorem rel_bind {x : Option α} {y : Option β} {f : α → Option γ} {g : β → Option δ}
    (h : Option.Rel r x y) (hfg : ∀ {a b}, r a b → Option.Rel s (f a) (g b)) :
    Option.Rel s (x.bind f) (y.bind g) := by
  cases h with
  | none => exact .none
  | some hab => exact hfg hab

theorem exists_of_rel_some_left {a : α} {y : Option β} :
    Option.Rel r (some a) y → ∃ b, y = some b ∧ r a b
  | .some hab => ⟨_, rfl, hab⟩

theorem exists_of_rel_some_right {x : Option α} {b : β} :
    Option.Rel r x (some b) → ∃ a, x = some a ∧ r a b
  | .some hab => ⟨_, rfl, hab⟩

end

section
variable {R : Attributes → Attributes → Prop}

mutual
theorem Element.Matches.places_eq {e e' : Element} (place : Place) :
    Element.Matches R e e' → e.places place = e'.places place
  | .mk tag _ hns => by rw [Element.places, Element.places, hns.placesAll_eq place 0]

theorem Node.MatchAll.placesAll_eq {ns ns' : List Node} (parent : Place) (first : Nat) :
    Node.MatchAll R ns ns' → Node.placesAll parent first ns = Node.placesAll parent first ns'
  | .nil => rfl
  | .element he hrest => by
    rw [Node.placesAll, Node.placesAll, he.places_eq, hrest.placesAll_eq parent (first + 1)]
  | .text _ hrest => hrest.placesAll_eq parent (first + 1)
  | .expression _ hrest => hrest.placesAll_eq parent (first + 1)
end

theorem Node.MatchAll.element? {ns ns' : List Node} (h : Node.MatchAll R ns ns') (index : Nat) :
    Option.Rel (Element.Matches R) (ns[index]?.bind Node.element?) (ns'[index]?.bind Node.element?) := by
  induction index generalizing ns ns' with
  | zero =>
    cases h with
    | nil => exact .none
    | element he _ => exact .some he
    | text _ _ => exact .none
    | expression _ _ => exact .none
  | succ index ih =>
    cases h with
    | nil => exact .none
    | element _ hrest => exact ih hrest
    | text _ hrest => exact ih hrest
    | expression _ hrest => exact ih hrest

theorem Element.Matches.follow? {e e' : Element} (h : e.Matches R e') (way : List Nat) :
    Option.Rel (Element.Matches R) (e.follow? way) (e'.follow? way) := by
  induction way generalizing e e' with
  | nil => exact .some h
  | cons index way ih =>
    obtain ⟨tag, -, hchildren⟩ := h
    exact rel_bind (hchildren.element? index) ih

/-- Where an element stands in one document, one that matches it stands in the other. -/
theorem Document.Matches.element? {d d' : Document} (h : d.Matches R d') (place : Place) :
    Option.Rel (Element.Matches R) (d.element? place) (d'.element? place) := by
  have hroot : Option.Rel (Element.Matches R) (d.segments[place.root]?.bind Segment.root?)
      (d'.segments[place.root]?.bind Segment.root?) := by
    obtain ⟨segments⟩ := d
    obtain ⟨segments'⟩ := d'
    unfold Document.Matches at h
    dsimp only at h ⊢
    generalize place.root = index
    induction h generalizing index with
    | nil => exact .none
    | cons hs _ ih =>
      cases index with
      | succ index => exact ih index
      | zero =>
        cases hs with
        | code _ => exact .none
        | markup hroot => exact .some hroot
  exact rel_bind hroot fun h => h.follow? place.way

theorem Document.Matches.exists_after {d d' : Document} (h : d.Matches R d') {place : Place}
    {e : Element} (he : d.element? place = some e) :
    ∃ e', d'.element? place = some e' ∧ e.Matches R e' :=
  exists_of_rel_some_left (he ▸ h.element? place)

theorem Document.Matches.exists_before {d d' : Document} (h : d.Matches R d') {place : Place}
    {e' : Element} (he : d'.element? place = some e') :
    ∃ e, d.element? place = some e ∧ e.Matches R e' :=
  exists_of_rel_some_right (he ▸ h.element? place)

theorem Document.Matches.placesAt_eq {d d' : Document} (h : d.Matches R d') :
    d.placesAt = d'.placesAt := by
  funext place
  have hplace := h.element? place
  unfold Document.placesAt
  generalize d.element? place = x, d'.element? place = y at hplace
  cases hplace with
  | none => rfl
  | some he => exact he.places_eq place

end

theorem Node.matchAll_modify {f : Element → Element} (hf : ∀ e, Element.Matches Attributes.Any e (f e))
    (index : Nat) (ns : List Node) :
    Node.MatchAll Attributes.Any ns (ns.modify index (Node.mapElement f)) := by
  induction ns generalizing index with
  | nil =>
    rw [List.modify_nil]
    exact .nil
  | cons n rest ih =>
    cases index with
    | zero =>
      have hrest : Node.MatchAll Attributes.Any rest rest := Node.matchAll_refl rest
      cases n with
      | element e => exact .element (hf e) hrest
      | text value => exact .text value hrest
      | expression source => exact .expression source hrest
    | succ index =>
      cases n with
      | element e => exact .element (Element.matches_refl e) (ih index)
      | text value => exact .text value (ih index)
      | expression source => exact .expression source (ih index)

theorem Element.matches_setAttributesAt (attributes : Attributes) (way : List Nat) (e : Element) :
    Element.Matches Attributes.Any e (e.setAttributesAt attributes way) := by
  induction way generalizing e with
  | nil =>
    obtain ⟨tag, old, children⟩ := e
    exact .mk tag trivial (Node.matchAll_refl children)
  | cons index way ih =>
    obtain ⟨tag, old, children⟩ := e
    exact .mk tag trivial (Node.matchAll_modify ih index children)

theorem Document.matches_setAttributes (d : Document) (place : Place) (attributes : Attributes) :
    d.Matches Attributes.Any (d.setAttributes place attributes) := by
  unfold Document.Matches Document.setAttributes
  dsimp only
  generalize place.root = index
  generalize d.segments = segments
  induction segments generalizing index with
  | nil =>
    rw [List.modify_nil]
    exact .nil
  | cons segment rest ih =>
    cases index with
    | succ index => exact .cons (Segment.matches_refl segment) (ih index)
    | zero =>
      refine .cons ?_ (List.forall₂_same.2 fun s _ => Segment.matches_refl s)
      cases segment with
      | code source => exact .code source
      | markup root => exact .markup (Element.matches_setAttributesAt attributes place.way root)

theorem Document.matches_setAll (d : Document) (changes : List (Place × Attributes)) :
    d.Matches Attributes.Any (d.setAll changes) := by
  induction changes generalizing d with
  | nil => exact Document.matches_refl d
  | cons change changes ih => exact (d.matches_setAttributes change.1 change.2).trans (ih _)

/-! ### What is handed out -/

namespace Document

section
variable {σ : Type} (receive : Receiver σ)

/-- From a stack, the places at and below each of its places are handed out in turn. -/
theorem map_fst_handed_iterateFrom (st : σ) (d : Document) (stack : List Place) :
    (d.iterateFrom receive st stack).handed.map Prod.fst = stack.flatMap d.placesAt := by
  fun_induction Document.iterateFrom receive st d stack with
  | case1 st d => rfl
  | case2 st d place stack hnone ih =>
    have hplace : d.placesAt place = [] := by rw [placesAt, hnone]
    rw [ih, List.flatMap_cons, hplace, List.nil_append]
  | case3 st d place stack e he received d' ih =>
    -- the children are looked up in the document after the changes, which has them where they were
    have hsame : d.Matches Attributes.Any d' := d.matches_setAll received.2
    obtain ⟨e', he', -⟩ := hsame.exists_after he
    have hbelow := placesAt_eq_cons he'
    rw [← hsame.placesAt_eq] at ih hbelow
    rw [Iteration.after, List.map_cons, ih, pushAll_reverse, List.flatMap_append, List.flatMap_cons,
      hbelow]
    rfl

/-- What is handed out is what stood at its place, but for attributes. -/
theorem matches_of_mem_handed (st : σ) (d : Document) (stack : List Place) :
    ∀ x ∈ (d.iterateFrom receive st stack).handed,
      ∃ e, d.element? x.1 = some e ∧ e.Matches Attributes.Any x.2 := by
  fun_induction Document.iterateFrom receive st d stack with
  | case1 st d => exact List.forall_mem_nil _
  | case2 st d place stack hnone ih => exact ih
  | case3 st d place stack e he received d' ih =>
    have hsame : d.Matches Attributes.Any d' := d.matches_setAll received.2
    refine List.forall_mem_cons.2 ⟨⟨e, he, Element.matches_refl e⟩, fun x hx => ?_⟩
    obtain ⟨e', he', hmatch'⟩ := ih x hx
    obtain ⟨e₀, he₀, hmatch⟩ := hsame.exists_before he'
    exact ⟨e₀, he₀, (hmatch.comp hmatch').mono fun _ _ _ => trivial⟩

end

/-- Where nothing is changed, what is handed out stands at its place. -/
theorem element?_of_mem_handed {σ : Type} {receive : Receiver σ}
    (hkeep : ∀ st d place e, (receive st d place e).2 = []) (st : σ) (d : Document)
    (stack : List Place) :
    ∀ x ∈ (d.iterateFrom receive st stack).handed, d.element? x.1 = some x.2 := by
  fun_induction Document.iterateFrom receive st d stack with
  | case1 st d => exact List.forall_mem_nil _
  | case2 st d place stack hnone ih => exact ih
  | case3 st d place stack e he received d' ih =>
    have hsame : d' = d := by
      rw [show d' = d.setAll received.2 from rfl, hkeep]
      rfl
    refine List.forall_mem_cons.2 ⟨he, fun x hx => ?_⟩
    have hx := ih x hx
    rwa [hsame] at hx

/-- From the roots, the places of the document are handed out. -/
theorem map_fst_handed_iterate {σ : Type} (receive : Receiver σ) (st : σ) (d : Document) :
    (d.iterate receive st).handed.map Prod.fst = d.places := by
  rw [iterate, map_fst_handed_iterateFrom, pushAll_reverse, List.append_nil,
    flatMap_placesAt_rootPlaces]

/-- What stands where an iteration has been are the elements, in their order. -/
theorem map_element?_handed_iterate {σ : Type} (receive : Receiver σ) (st : σ) (d : Document) :
    (d.iterate receive st).handed.map (fun x => d.element? x.1) = d.elements.map some := by
  rw [← d.map_element?_places, ← map_fst_handed_iterate receive st d, List.map_map]
  rfl

/-- Where nothing is done, the elements are handed out as they are. -/
theorem iterated_eq_elements (d : Document) : d.iterated = d.elements := by
  let receive : Receiver Unit := fun _ _ _ _ => ((), [])
  have hhanded : (d.iterate receive ()).handed.map (fun x => d.element? x.1)
      = (d.iterate receive ()).handed.map (fun x => some x.2) :=
    List.map_congr_left (element?_of_mem_handed (fun _ _ _ _ => rfl) () d _)
  rw [map_element?_handed_iterate] at hhanded
  refine List.map_injective_iff.2 (Option.some_injective _) ?_
  rw [hhanded, iterated, List.map_map]
  rfl

example : (Document.mk [.code "", .markup ⟨"a", [], [.text "", .element ⟨"b", [], []⟩, .element ⟨"c", [],
    []⟩]⟩, .markup ⟨"d", [], []⟩]).iterated.map Element.tag = ["a", "b", "c", "d"] := by
  decide +kernel

end Document

/-! ### Elements in their surroundings -/

/-- A document with an element taken out of it, and the place where it stands. -/
structure IsContext (around : Element → Document) (place : Place) : Prop where
  element? : ∀ way e, (around e).element? (place.down way) = e.follow? way
  setAttributes : ∀ way attributes e,
    (around e).setAttributes (place.down way) attributes = around (e.setAttributesAt attributes way)

theorem modify_append_cons {α : Type} (f : α → α) (before after : List α) (x : α) :
    (before ++ x :: after).modify before.length f = before ++ f x :: after := by
  induction before with
  | nil => rfl
  | cons y before ih => exact congrArg (y :: ·) ih

/-- A root in a document. -/
theorem isContext_root (before after : List Segment) :
    IsContext (fun root => ⟨before ++ .markup root :: after⟩) ⟨before.length, []⟩ where
  element? way e := by
    unfold Document.element? Place.down
    dsimp only
    rw [getElem?_append_cons]
    rfl
  setAttributes way attributes e := by
    unfold Document.setAttributes Place.down
    dsimp only
    rw [modify_append_cons]
    rfl

namespace IsContext

variable {around : Element → Document} {place : Place}

/-- A child of an element. -/
theorem child (h : IsContext around place) (tag : String) (attributes : Attributes)
    (before after : List Node) :
    IsContext (fun child => around ⟨tag, attributes, before ++ .element child :: after⟩)
      (place.child before.length) where
  element? way e := by
    rw [← Place.down_cons, h.element?, Element.follow?]
    dsimp only
    rw [getElem?_append_cons]
    rfl
  setAttributes way attributes' e := by
    rw [← Place.down_cons, h.setAttributes, Element.setAttributesAt]
    dsimp only
    rw [modify_append_cons]
    rfl

theorem element?_self (h : IsContext around place) (e : Element) :
    (around e).element? place = some e := by
  have hself := h.element? [] e
  rwa [Place.down_nil] at hself

theorem setAttributes_self (h : IsContext around place) (attributes : Attributes) (e : Element) :
    (around e).setAttributes place attributes = around { e with attributes } := by
  have hself := h.setAttributes [] attributes e
  rwa [Place.down_nil] at hself

end IsContext

/-! ### Walks -/

/-- The last state of an iteration, and the document. -/
def Iteration.outcome {σ : Type} (i : Iteration σ) : Document × σ :=
  (i.document, i.state)

/-- The changes to children that have been left one. -/
def Node.childChanges (change : AttributeChange) (parent : Place) :
    Nat → List Node → List (Place × Attributes)
  | _, [] => []
  | index, .element e :: rest =>
    (parent.child index, change e.tag e.attributes)
      :: Node.childChanges change parent (index + 1) rest
  | index, .text _ :: rest => Node.childChanges change parent (index + 1) rest
  | index, .expression _ :: rest => Node.childChanges change parent (index + 1) rest

/-- A node with a change that has been left for it. -/
def Node.changed (change : AttributeChange) : Node → Node :=
  Node.mapElement fun e => e.mapAttributes (change e.tag)

/-- What a walk does with an element: it visits it, unless a fault has ended the walk before, and gives
it and its children the attributes that the visit has for them. -/
def visited {σ : Type} (visit : σ → Element → Visit σ) : Receiver (Walk σ) := fun w _ place e =>
  if w.fault?.isSome then (w, [])
  else
    let v := visit w.state e
    (v.walk, (place, v.attributes) :: Node.childChanges v.forChildren place 0 e.children)

theorem Node.childPlaces_map_changed (change : AttributeChange) (parent : Place) (first : Nat)
    (ns : List Node) :
    Node.childPlaces parent first (ns.map (Node.changed change))
      = Node.childPlaces parent first ns := by
  induction ns generalizing first with
  | nil => rfl
  | cons n rest ih =>
    cases n with
    | element e => exact congrArg (parent.child first :: ·) (ih (first + 1))
    | text _ => exact ih (first + 1)
    | expression _ => exact ih (first + 1)

section
variable {around : Element → Document} {place : Place}

theorem IsContext.setAll_childChanges (h : IsContext around place) (change : AttributeChange)
    (tag : String) (attributes : Attributes) (ns before : List Node) :
    (around ⟨tag, attributes, before ++ ns⟩).setAll
        (Node.childChanges change place before.length ns)
      = around ⟨tag, attributes, before ++ ns.map (Node.changed change)⟩ := by
  induction ns generalizing before with
  | nil => rfl
  | cons n rest ih =>
    have hrest := ih (before ++ [n.changed change])
    rw [List.length_append, List.length_singleton, ← List.append_cons, ← List.append_cons] at hrest
    cases n with
    | element e =>
      have hset := (h.child tag attributes before rest).setAttributes_self
        (change e.tag e.attributes) e
      rw [Node.childChanges, Document.setAll, List.foldl_cons, hset]
      exact hrest
    | text value => exact hrest
    | expression source => exact hrest

variable {σ : Type} {visit : σ → Element → Visit σ}

/-- After a fault an iteration has no more visits to make. -/
theorem Document.outcome_iterateFrom_of_fault {w : Walk σ} (hw : w.fault?.isSome) (d : Document)
    (stack : List Place) : (d.iterateFrom (visited visit) w stack).outcome = (d, w) := by
  fun_induction Document.iterateFrom (visited visit) w d stack with
  | case1 w d => rfl
  | case2 w d place stack hnone ih => exact ih hw
  | case3 w d place stack e he received d' ih =>
    have hreceived : received = (w, []) := if_pos hw
    have hd : d' = d := by
      rw [show d' = d.setAll received.2 from rfl, hreceived]
      rfl
    calc ((d'.iterateFrom (visited visit) received.1
          (pushAll stack (d'.childPlaces place).reverse)).after place e).outcome
        = (d', received.1) := ih (by rwa [hreceived])
      _ = (d, w) := by rw [hd, hreceived]

/-- The first step of an iteration that visits. -/
theorem IsContext.outcome_iterateFrom_cons (h : IsContext around place) {w : Walk σ}
    (hw : ¬w.fault?.isSome) (stack : List Place) (tag : String) (attributes : Attributes)
    (children : List Node) :
    let v := visit w.state ⟨tag, attributes, children⟩
    ((around ⟨tag, attributes, children⟩).iterateFrom (visited visit) w (place :: stack)).outcome
      = ((around ⟨tag, v.attributes, children.map (Node.changed v.forChildren)⟩).iterateFrom
          (visited visit) v.walk (Node.childPlaces place 0 children ++ stack)).outcome := by
  intro v
  have hvisited : visited visit w (around ⟨tag, attributes, children⟩) place ⟨tag, attributes, children⟩
      = (v.walk, (place, v.attributes) :: Node.childChanges v.forChildren place 0 children) := if_neg hw
  have hd : (around ⟨tag, attributes, children⟩).setAll
        ((place, v.attributes) :: Node.childChanges v.forChildren place 0 children)
      = around ⟨tag, v.attributes, children.map (Node.changed v.forChildren)⟩ := by
    rw [Document.setAll, List.foldl_cons, h.setAttributes_self]
    exact h.setAll_childChanges v.forChildren tag v.attributes children []
  have hbelow : (around ⟨tag, v.attributes, children.map (Node.changed v.forChildren)⟩).childPlaces
      place = Node.childPlaces place 0 children := by
    rw [Document.childPlaces, h.element?_self]
    exact Node.childPlaces_map_changed ..
  rw [Document.iterateFrom_cons_of_some _ _ (h.element?_self _) (by rw [hvisited, hd]), hvisited, hbelow]
  rfl

mutual
/-- An iteration that comes to an element leaves it as a walk does, and goes on from there. -/
theorem Element.outcome_iterateFrom (w : Walk σ) (change : AttributeChange) (stack : List Place) :
    ∀ (e : Element) {around : Element → Document} {place : Place}, IsContext around place →
      ((around (e.mapAttributes (change e.tag))).iterateFrom (visited visit) w
          (place :: stack)).outcome
        = ((around (Element.walk visit w change e).1).iterateFrom (visited visit)
          (Element.walk visit w change e).2 stack).outcome
  | ⟨tag, attributes, children⟩, around, place, h => by
    rw [Element.walk]
    dsimp only [Element.mapAttributes]
    by_cases hw : w.fault?.isSome
    · rw [if_pos hw, Document.outcome_iterateFrom_of_fault hw, Document.outcome_iterateFrom_of_fault hw]
    · rw [if_neg hw, h.outcome_iterateFrom_cons hw]
      exact Node.outcome_iterateFrom _ _ stack children [] tag _ h

theorem Node.outcome_iterateFrom (w : Walk σ) (change : AttributeChange) (stack : List Place) :
    ∀ (ns before : List Node) {around : Element → Document} {place : Place} (tag : String)
      (attributes : Attributes), IsContext around place →
      ((around ⟨tag, attributes, before ++ ns.map (Node.changed change)⟩).iterateFrom (visited visit) w
          (Node.childPlaces place before.length ns ++ stack)).outcome
        = ((around ⟨tag, attributes, before ++ (Node.walkAll visit w change ns).1⟩).iterateFrom
          (visited visit) (Node.walkAll visit w change ns).2 stack).outcome
  | [], _, _, _, _, _, _ => rfl
  | .element e :: rest, before, around, place, tag, attributes, h => by
    have hfirst := Element.outcome_iterateFrom w change
      (Node.childPlaces place (before.length + 1) rest ++ stack) e
      (h.child tag attributes before (rest.map (Node.changed change)))
    have hrest := Node.outcome_iterateFrom (Element.walk visit w change e).2 change stack rest
      (before ++ [.element (Element.walk visit w change e).1]) tag attributes h
    rw [List.length_append, List.length_singleton, ← List.append_cons, ← List.append_cons] at hrest
    exact hfirst.trans hrest
  | .text value :: rest, before, around, place, tag, attributes, h => by
    have hrest := Node.outcome_iterateFrom w change stack rest (before ++ [.text value]) tag attributes h
    rw [List.length_append, List.length_singleton, ← List.append_cons, ← List.append_cons] at hrest
    exact hrest
  | .expression source :: rest, before, around, place, tag, attributes, h => by
    have hrest := Node.outcome_iterateFrom w change stack rest (before ++ [.expression source]) tag
      attributes h
    rw [List.length_append, List.length_singleton, ← List.append_cons, ← List.append_cons] at hrest
    exact hrest
end

theorem Segment.outcome_iterateFrom (w : Walk σ) (segments before : List Segment) :
    ((Document.mk (before ++ segments)).iterateFrom (visited visit) w
        (Segment.rootPlaces before.length segments)).outcome
      = (⟨before ++ (Segment.walkAll visit w segments).1⟩, (Segment.walkAll visit w segments).2) := by
  induction segments generalizing w before with
  | nil =>
    rw [Segment.rootPlaces, Document.iterateFrom_nil]
    rfl
  | cons segment rest ih =>
    cases segment with
    | code source =>
      have hrest := ih w (before ++ [.code source])
      rw [List.length_append, List.length_singleton, ← List.append_cons, ← List.append_cons] at hrest
      exact hrest
    | markup root =>
      have hkeep : root.mapAttributes (AttributeChange.none root.tag) = root := by
        obtain ⟨tag, attributes, children⟩ := root
        rfl
      have hroot := @Element.outcome_iterateFrom σ visit w .none
        (Segment.rootPlaces (before.length + 1) rest) root _ _ (isContext_root before rest)
      have hrest := ih (Element.walk visit w .none root).2
        (before ++ [.markup (Element.walk visit w .none root).1])
      rw [hkeep] at hroot
      rw [List.length_append, List.length_singleton, ← List.append_cons, ← List.append_cons] at hrest
      exact hroot.trans hrest

end

/-- A walk is an iteration that visits. -/
theorem Document.outcome_iterate_visited {σ : Type} (visit : σ → Element → Visit σ) (st : σ)
    (d : Document) : (d.iterate (visited visit) ⟨st, none⟩).outcome = d.walk visit st := by
  rw [iterate, pushAll_reverse, List.append_nil]
  exact Segment.outcome_iterateFrom ⟨st, none⟩ d.segments []

/-! ### The order of elements -/

theorem Node.preorderAll_eq_flatMap (ns : List Node) :
    Node.preorderAll ns = (ns.filterMap Node.element?).flatMap Element.preorder := by
  induction ns with
  | nil => rfl
  | cons n rest ih =>
    cases n with
    | element e => exact congrArg (e.preorder ++ ·) ih
    | text _ => exact ih
    | expression _ => exact ih

/-- An element comes before its children, and these come in turn, each with all below it. -/
theorem Element.preorder_eq_cons (e : Element) :
    e.preorder = e :: e.elements.flatMap Element.preorder := by
  obtain ⟨tag, attributes, children⟩ := e
  exact congrArg _ (Node.preorderAll_eq_flatMap children)

/-- Whatever attributes are given to elements on the way, an iteration hands out the elements that a
recursion from the roots comes to, in the order in which it does, and each of them once; it is what
passes do that walk over a document. -/
theorem Document.iterates_in_preorder {σ : Type} (receive : Receiver σ) (st : σ) (d : Document) :
    (d.iterate receive st).handed.map (fun x => d.element? x.1)
        = (d.roots.flatMap Element.preorder).map some
      ∧ (∀ e : Element, e.preorder = e :: e.elements.flatMap Element.preorder)
      ∧ ((d.iterate receive st).handed.map Prod.fst).Nodup
      ∧ (∀ place,
        place ∈ (d.iterate receive st).handed.map Prod.fst ↔ (d.element? place).isSome)
      ∧ (∀ x ∈ (d.iterate receive st).handed,
        ∃ e, d.element? x.1 = some e ∧ e.Matches Attributes.Any x.2)
      ∧ d.iterated = d.roots.flatMap Element.preorder
      ∧ ∀ (τ : Type) (visit : τ → Element → Visit τ) (start : τ),
        (d.iterate (visited visit) ⟨start, none⟩).outcome = d.walk visit start := by
  have hplaces := map_fst_handed_iterate receive st d
  refine ⟨map_element?_handed_iterate receive st d, Element.preorder_eq_cons, ?nodup, ?mem,
    matches_of_mem_handed receive st d _, iterated_eq_elements d, fun τ visit start => ?walk⟩
  case nodup => exact hplaces ▸ d.nodup_places
  case mem => exact fun place => hplaces ▸ mem_places_iff
  case walk => exact outcome_iterate_visited visit start d

end MarkupTidy
