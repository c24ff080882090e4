import MarkupTidy.Pass.Basic
import MarkupTidy.Proofs.Run.Counters

/-! # Walks that have nothing to do

A visit is steady if it stays idle on the elements that are settled, and on no others, and leaves
those as they are.  A walk of steady visits stays idle exactly if all elements are settled, each in
the state in which it is met; then the document is what it was.

* `IsSteady`: what is asked of a visit; `AreSettled`: elements that are settled one after the other.
* `Document.isQuiet_walk_iff`, `Document.walk_of_areSettled`: what this says of a whole walk.
* `Document.walk_invariant`: what every visit keeps, a walk keeps.
* `Pass.IsIdleOn`: a pass that completes and counts nothing but what it has seen;
  `Pass.CountsUp`: a pass whose counters have all counted something.
* `Pass.IsWalk`: a pass that is a walk; `Pass.IsWalk.isIdleOn_iff` says where it is idle.
* `SeesTo`: visits that see to a property of their elements; `Pass.IsWalk.seen`: so does the pass. -/

namespace MarkupTidy

variable {σ : Type}

/-- A walk that no fault has ended and whose state is idle. -/
def Walk.IsQuiet (idle : σ → Prop) (w : Walk σ) : Prop :=
  w.fault? = none ∧ idle w.state

/-- A pass completes on a document and counts nothing but what it has seen. -/
def Pass.IsIdleOn (p : Pass) (d : Document) (c : Context) : Prop :=
  ∃ counters, (p.run d c).result = .ok counters ∧ counters.IsIdle

/-- What a pass that completes hands over has all been counted. -/
def Pass.CountsUp (p : Pass) : Prop :=
  ∀ d c counters, (p.run d c).result = .ok counters → counters.ArePositive

theorem Walk.arePositive_of_result {w : Walk σ} {f : σ → Counters} {counters : Counters}
    (h : w.result f = .ok counters) (hw : (f w.state).ArePositive) : counters.ArePositive := by
  unfold result at h
  split at h
  · exact absurd h (by simp)
  · exact Except.ok.inj h ▸ hw

theorem Walk.exists_result_iff {w : Walk σ} {f : σ → Counters} :
    (∃ counters, w.result f = .ok counters) ↔ w.fault? = none := by
  unfold result
  cases w.fault? <;> simp

theorem Walk.isQuiet_iff_result {w : Walk σ} {counters : σ → Counters} :
    w.IsQuiet (fun st => (counters st).IsIdle) ↔
      ∃ cs, w.result counters = .ok cs ∧ cs.IsIdle := by
  unfold IsQuiet result
  cases w.fault? with
  | none => simp
  | some fault => simp

/-- How a walk stands after a visit. -/
def Visit.walk (v : Visit σ) : Walk σ :=
  ⟨v.state, v.fault?⟩

/-- A visit that stays idle exactly on settled elements, and leaves these as they are. -/
structure IsSteady (visit : σ → Element → Visit σ) (idle : σ → Prop)
    (settled : σ → Element → Prop) : Prop where
  isQuiet_iff : ∀ {st e}, (visit st e).walk.IsQuiet idle ↔ idle st ∧ settled st e
  attributes_eq : ∀ {st e}, settled st e → (visit st e).attributes = e.attributes
  forChildren_eq : ∀ {st e}, settled st e → ∀ child ∈ e.elements,
    (visit st e).forChildren child.tag child.attributes = child.attributes

section
variable (visit : σ → Element → Visit σ) (settled : σ → Element → Prop)

/-- The state after visits to elements in turn. -/
def endState (st : σ) (es : List Element) : σ :=
  es.foldl (fun st e => (visit st e).state) st

/-- Elements that are settled, each in the state that the visits before it leave. -/
def AreSettled : σ → List Element → Prop
  | _, [] => True
  | st, e :: rest => settled st e ∧ AreSettled (visit st e).state rest

variable {visit settled}

theorem endState_cons (st : σ) (e : Element) (es : List Element) :
    endState visit st (e :: es) = endState visit (visit st e).state es := rfl

theorem endState_append (st : σ) (es es' : List Element) :
    endState visit st (es ++ es') = endState visit (endState visit st es) es' :=
  List.foldl_append ..

theorem endState_eq_self {st : σ} {es : List Element}
    (h : ∀ e ∈ es, (visit st e).state = st) : endState visit st es = st := by
  induction es with
  | nil => rfl
  | cons e es ih =>
    rw [List.forall_mem_cons] at h
    rw [endState_cons, h.1]
    exact ih h.2

theorem areSettled_append {st : σ} {es es' : List Element} :
    AreSettled visit settled st (es ++ es') ↔
      AreSettled visit settled st es ∧ AreSettled visit settled (endState visit st es) es' := by
  induction es generalizing st with
  | nil => simp [AreSettled, endState]
  | cons e es ih =>
    rw [List.cons_append, AreSettled, AreSettled, endState_cons, ih, and_assoc]

/-- Where the state does not matter, elements are settled one by one. -/
theorem areSettled_iff_forall {p : Element → Prop} {st : σ} {es : List Element} :
    AreSettled visit (fun _ => p) st es ↔ ∀ e ∈ es, p e := by
  induction es generalizing st with
  | nil => simp [AreSettled]
  | cons e es ih => rw [AreSettled, ih, List.forall_mem_cons]

end

/-! ### What visits keep -/

section
variable {visit : σ → Element → Visit σ} {invariant : Walk σ → Prop}

mutual
theorem Element.walk_invariant (hv : ∀ st e, invariant ⟨st, none⟩ → invariant (visit st e).walk)
    {w : Walk σ} {change : AttributeChange} (hw : invariant w) :
    ∀ e : Element, invariant (Element.walk visit w change e).2
  | ⟨tag, attributes, children⟩ => by
    rw [Element.walk]
    dsimp only
    split
    · exact hw
    · rename_i hfault
      have hquiet : w = ⟨w.state, none⟩ := congrArg (Walk.mk _) (by simpa using hfault)
      rw [hquiet] at hw
      exact Node.walkAll_invariant hv (hv _ _ hw) children

theorem Node.walkAll_invariant (hv : ∀ st e, invariant ⟨st, none⟩ → invariant (visit st e).walk)
    {w : Walk σ} {change : AttributeChange} (hw : invariant w) :
    ∀ ns : List Node, invariant (Node.walkAll visit w change ns).2
  | [] => hw
  | .element e :: rest => Node.walkAll_invariant hv (Element.walk_invariant hv hw e) rest
  | .text _ :: rest => Node.walkAll_invariant hv hw rest
  | .expression _ :: rest => Node.walkAll_invariant hv hw rest
end

theorem Segment.walkAll_invariant (hv : ∀ st e, invariant ⟨st, none⟩ → invariant (visit st e).walk)
    {w : Walk σ} (hw : invariant w) (segments : List Segment) :
    invariant (Segment.walkAll visit w segments).2 := by
  induction segments generalizing w with
  | nil => exact hw
  | cons segment rest ih =>
    cases segment with
    | code source => exact ih hw
    | markup root => exact ih (Element.walk_invariant hv hw root)

/-- What every visit keeps of where the walk stands, a walk keeps. -/
theorem Document.walk_invariant (hv : ∀ st e, invariant ⟨st, none⟩ → invariant (visit st e).walk)
    {st : σ} (hst : invariant ⟨st, none⟩) (d : Document) : invariant (d.walk visit st).2 :=
  Segment.walkAll_invariant hv hst d.segments

end

/-! ### Steady walks -/

section
variable {visit : σ → Element → Visit σ} {idle : σ → Prop} {settled : σ → Element → Prop}

/-- Where a walk has become unquiet, no visit makes it quiet again. -/
theorem IsSteady.not_isQuiet_visit (hv : IsSteady visit idle settled) (st : σ) (e : Element)
    (h : ¬Walk.IsQuiet idle ⟨st, none⟩) : ¬(visit st e).walk.IsQuiet idle :=
  fun hquiet => h ⟨rfl, (hv.isQuiet_iff.1 hquiet).1⟩

theorem Element.isQuiet_of_walk (hv : IsSteady visit idle settled) {w : Walk σ}
    {change : AttributeChange} (e : Element)
    (h : (Element.walk visit w change e).2.IsQuiet idle) : w.IsQuiet idle := by
  by_contra hw
  exact @Element.walk_invariant _ visit (fun w => ¬w.IsQuiet idle) hv.not_isQuiet_visit w change hw
    e h

theorem Node.isQuiet_of_walkAll (hv : IsSteady visit idle settled) {w : Walk σ}
    {change : AttributeChange} (ns : List Node)
    (h : (Node.walkAll visit w change ns).2.IsQuiet idle) : w.IsQuiet idle := by
  by_contra hw
  exact @Node.walkAll_invariant _ visit (fun w => ¬w.IsQuiet idle) hv.not_isQuiet_visit w change hw
    ns h

theorem Segment.isQuiet_of_walkAll (hv : IsSteady visit idle settled) {w : Walk σ}
    {segments : List Segment} (h : (Segment.walkAll visit w segments).2.IsQuiet idle) :
    w.IsQuiet idle := by
  by_contra hw
  exact @Segment.walkAll_invariant _ visit (fun w => ¬w.IsQuiet idle) hv.not_isQuiet_visit w hw
    segments h

theorem IsSteady.idle_endState (hv : IsSteady visit idle settled) {st : σ} {es : List Element}
    (hst : idle st) (hs : AreSettled visit settled st es) : idle (endState visit st es) := by
  induction es generalizing st with
  | nil => exact hst
  | cons e es ih => exact ih (hv.isQuiet_iff.2 ⟨hst, hs.1⟩).2 hs.2

theorem Element.walk_eq (st : σ) {change : AttributeChange} {e : Element}
    (hchange : change e.tag e.attributes = e.attributes) :
    Element.walk visit ⟨st, none⟩ change e =
      (⟨e.tag, (visit st e).attributes,
        (Node.walkAll visit (visit st e).walk (visit st e).forChildren e.children).1⟩,
        (Node.walkAll visit (visit st e).walk (visit st e).forChildren e.children).2) := by
  obtain ⟨tag, attributes, children⟩ := e
  rw [Element.walk, hchange]
  rfl

mutual
/-- A walk over settled elements changes nothing. -/
theorem Element.walk_of_areSettled (hv : IsSteady visit idle settled) {st : σ} (hst : idle st)
    {change : AttributeChange} :
    ∀ e : Element, change e.tag e.attributes = e.attributes →
      AreSettled visit settled st e.preorder →
      Element.walk visit ⟨st, none⟩ change e = (e, ⟨endState visit st e.preorder, none⟩)
  | ⟨tag, attributes, children⟩ => by
    intro hchange hs
    rw [Element.preorder] at hs ⊢
    obtain ⟨hroot, hbelow⟩ := hs
    have hquiet := hv.isQuiet_iff.2 ⟨hst, hroot⟩
    have hchildren := Node.walkAll_of_areSettled hv hquiet.2 children
      (fun child hchild => hv.forChildren_eq hroot child
        (List.mem_filterMap.2 ⟨.element child, hchild, rfl⟩)) hbelow
    have hwalk : (visit st ⟨tag, attributes, children⟩).walk
        = ⟨(visit st ⟨tag, attributes, children⟩).walk.state, none⟩ :=
      congrArg (Walk.mk _) hquiet.1
    rw [Element.walk_eq st hchange, hwalk, hchildren, hv.attributes_eq hroot]
    rfl

theorem Node.walkAll_of_areSettled (hv : IsSteady visit idle settled) {st : σ} (hst : idle st)
    {change : AttributeChange} :
    ∀ ns : List Node, (∀ e, .element e ∈ ns → change e.tag e.attributes = e.attributes) →
      AreSettled visit settled st (Node.preorderAll ns) →
      Node.walkAll visit ⟨st, none⟩ change ns
        = (ns, ⟨endState visit st (Node.preorderAll ns), none⟩)
  | [] => fun _ _ => rfl
  | .element e :: rest => by
    intro hchange hs
    rw [Node.preorderAll, areSettled_append] at hs
    rw [Node.walkAll, Element.walk_of_areSettled hv hst e (hchange e List.mem_cons_self) hs.1]
    dsimp only
    rw [Node.walkAll_of_areSettled hv (hv.idle_endState hst hs.1) rest
        (fun child hchild => hchange child (List.mem_cons_of_mem _ hchild)) hs.2,
      Node.preorderAll, endState_append]
  | .text _ :: rest => by
    intro hchange hs
    rw [Node.walkAll, Node.walkAll_of_areSettled hv hst rest
      (fun child hchild => hchange child (List.mem_cons_of_mem _ hchild)) hs]
    rfl
  | .expression _ :: rest => by
    intro hchange hs
    rw [Node.walkAll, Node.walkAll_of_areSettled hv hst rest
      (fun child hchild => hchange child (List.mem_cons_of_mem _ hchild)) hs]
    rfl
end

mutual
/-- The elements of a walk that stays idle are settled. -/
theorem Element.areSettled_of_walk (hv : IsSteady visit idle settled) {st : σ}
    {change : AttributeChange} :
    ∀ e : Element, change e.tag e.attributes = e.attributes →
      (Element.walk visit ⟨st, none⟩ change e).2.IsQuiet idle →
      AreSettled visit settled st e.preorder
  | ⟨tag, attributes, children⟩ => by
    intro hchange h
    rw [Element.walk_eq st hchange] at h
    have hquiet := Node.isQuiet_of_walkAll hv children h
    have hroot := (hv.isQuiet_iff.1 hquiet).2
    have hwalk : (visit st ⟨tag, attributes, children⟩).walk
        = ⟨(visit st ⟨tag, attributes, children⟩).walk.state, none⟩ :=
      congrArg (Walk.mk _) hquiet.1
    rw [hwalk] at h
    exact ⟨hroot, Node.areSettled_of_walkAll hv children
      (fun child hchild => hv.forChildren_eq hroot child
        (List.mem_filterMap.2 ⟨.element child, hchild, rfl⟩)) h⟩

theorem Node.areSettled_of_walkAll (hv : IsSteady visit idle settled) {st : σ}
    {change : AttributeChange} :
    ∀ ns : List Node, (∀ e, .element e ∈ ns → change e.tag e.attributes = e.attributes) →
      (Node.walkAll visit ⟨st, none⟩ change ns).2.IsQuiet idle →
      AreSettled visit settled st (Node.preorderAll ns)
  | [] => fun _ _ => trivial
  | .element e :: rest => by
    intro hchange h
    have hself := hchange e List.mem_cons_self
    have hquiet := Node.isQuiet_of_walkAll hv rest h
    have hst := (Element.isQuiet_of_walk hv e hquiet).2
    have hfirst := Element.areSettled_of_walk hv e hself hquiet
    rw [Node.walkAll, Element.walk_of_areSettled hv hst e hself hfirst] at h
    rw [Node.preorderAll]
    exact areSettled_append.2 ⟨hfirst,
      Node.areSettled_of_walkAll hv rest
        (fun child hchild => hchange child (List.mem_cons_of_mem _ hchild)) h⟩
  | .text _ :: rest => fun hchange h =>
    Node.areSettled_of_walkAll hv rest
      (fun child hchild => hchange child (List.mem_cons_of_mem _ hchild)) h
  | .expression _ :: rest => fun hchange h =>
    Node.areSettled_of_walkAll hv rest
      (fun child hchild => hchange child (List.mem_cons_of_mem _ hchild)) h
end

/-! ### Documents -/

/-- The elements of segments, each before those below it. -/
theorem Document.elements_code (source : String) (segments : List Segment) :
    Document.elements ⟨.code source :: segments⟩ = Document.elements ⟨segments⟩ := rfl

theorem Document.elements_markup (root : Element) (segments : List Segment) :
    Document.elements ⟨.markup root :: segments⟩
      = root.preorder ++ Document.elements ⟨segments⟩ := rfl

theorem Segment.walkAll_of_areSettled (hv : IsSteady visit idle settled) {st : σ} (hst : idle st)
    {segments : List Segment} (hs : AreSettled visit settled st (Document.elements ⟨segments⟩)) :
    Segment.walkAll visit ⟨st, none⟩ segments
      = (segments, ⟨endState visit st (Document.elements ⟨segments⟩), none⟩) := by
  induction segments generalizing st with
  | nil => rfl
  | cons segment rest ih =>
    cases segment with
    | code source =>
      rw [Document.elements_code] at hs ⊢
      rw [Segment.walkAll, ih hst hs]
    | markup root =>
      rw [Document.elements_markup, areSettled_append] at hs
      rw [Document.elements_markup, Segment.walkAll,
        Element.walk_of_areSettled hv hst root rfl hs.1, endState_append]
      dsimp only
      rw [ih (hv.idle_endState hst hs.1) hs.2]

theorem Segment.areSettled_of_walkAll (hv : IsSteady visit idle settled) {st : σ}
    {segments : List Segment}
    (h : (Segment.walkAll visit ⟨st, none⟩ segments).2.IsQuiet idle) :
    AreSettled visit settled st (Document.elements ⟨segments⟩) := by
  induction segments generalizing st with
  | nil => exact trivial
  | cons segment rest ih =>
    cases segment with
    | code source => exact ih h
    | markup root =>
      rw [Segment.walkAll] at h
      have hquiet : (Element.walk visit ⟨st, none⟩ .none root).2.IsQuiet idle :=
        Segment.isQuiet_of_walkAll hv h
      have hst := (Element.isQuiet_of_walk hv root hquiet).2
      have hroot := Element.areSettled_of_walk hv root rfl hquiet
      rw [Element.walk_of_areSettled hv hst root rfl hroot] at h
      rw [Document.elements_markup]
      exact areSettled_append.2 ⟨hroot, ih h⟩

/-- A walk over a document whose elements are settled changes nothing. -/
theorem Document.walk_of_areSettled (hv : IsSteady visit idle settled) (st : σ) (hst : idle st)
    {d : Document} (hs : AreSettled visit settled st d.elements) :
    d.walk visit st = (d, ⟨endState visit st d.elements, none⟩) := by
  rw [Document.walk, Segment.walkAll_of_areSettled hv hst hs]

/-- A walk stays idle exactly if all elements are settled. -/
theorem Document.isQuiet_walk_iff (hv : IsSteady visit idle settled) (st : σ) (d : Document) :
    (d.walk visit st).2.IsQuiet idle ↔ idle st ∧ AreSettled visit settled st d.elements := by
  constructor
  · intro h
    exact ⟨(Segment.isQuiet_of_walkAll hv h).2, Segment.areSettled_of_walkAll hv h⟩
  · rintro ⟨hst, hs⟩
    rw [Document.walk_of_areSettled hv st hst hs]
    exact ⟨rfl, hv.idle_endState hst hs⟩

end

/-! ### Passes that walk -/

/-- A pass that is a walk, from a state that depends on the context and has counted nothing. -/
structure Pass.IsWalk (p : Pass) (visit : Context → σ → Element → Visit σ) (start : Context → σ)
    (counters : σ → Counters) : Prop where
  document_eq : ∀ d c, (p.run d c).document = (d.walk (visit c) (start c)).1
  result_eq : ∀ d c, (p.run d c).result = (d.walk (visit c) (start c)).2.result counters
  counters_start : ∀ c, counters (start c) = []

namespace Pass.IsWalk

variable {p : Pass} {visit : Context → σ → Element → Visit σ} {start : Context → σ}
  {counters : σ → Counters} {settled : σ → Element → Prop}

theorem isIdle_start (h : p.IsWalk visit start counters) (c : Context) :
    (counters (start c)).IsIdle := by
  rw [h.counters_start c]
  exact Counters.isIdle_nil

/-- The pass has nothing to do exactly where all elements are settled. -/
theorem isIdleOn_iff (h : p.IsWalk visit start counters) {c : Context}
    (hv : IsSteady (visit c) (fun st => (counters st).IsIdle) settled) (d : Document) :
    p.IsIdleOn d c ↔ AreSettled (visit c) settled (start c) d.elements := by
  unfold Pass.IsIdleOn
  rw [h.result_eq, ← Walk.isQuiet_iff_result, Document.isQuiet_walk_iff hv]
  exact and_iff_right (h.isIdle_start c)

/-- Where the pass has nothing to do, it changes nothing. -/
theorem document_of_isIdleOn (h : p.IsWalk visit start counters) {c : Context}
    (hv : IsSteady (visit c) (fun st => (counters st).IsIdle) settled) {d : Document}
    (hd : p.IsIdleOn d c) : (p.run d c).document = d := by
  have hs := (h.isIdleOn_iff hv d).1 hd
  rw [h.document_eq, Document.walk_of_areSettled hv (start c) (h.isIdle_start c) hs]

theorem countsUp (h : p.IsWalk visit start counters)
    (hv : ∀ c st e, (counters st).ArePositive → (counters (visit c st e).state).ArePositive) :
    p.CountsUp := by
  intro d c cs hcs
  rw [h.result_eq] at hcs
  have hstart : (counters (start c)).ArePositive := by
    rw [h.counters_start c]
    exact Counters.arePositive_nil
  have hwalk : (counters (d.walk (visit c) (start c)).2.state).ArePositive :=
    @Document.walk_invariant _ (visit c) (fun w => (counters w.state).ArePositive) (hv c) _ hstart d
  exact Walk.arePositive_of_result hcs hwalk

end Pass.IsWalk

/-! ### What a walk leaves -/

section
variable {visit : σ → Element → Visit σ} {p : Element → Prop}

/-- An element as a walk leaves it: visited, after the change that has been left for it. -/
def Element.IsLeft (visit : σ → Element → Visit σ) (change : AttributeChange) (e : Element) : Prop :=
  ∃ st as children, e.attributes = (visit st ⟨e.tag, change e.tag as, children⟩).attributes

/-- Visits that never end the walk, and that see to a property of their element, whatever the walk
leaves of its children. -/
structure SeesTo (visit : σ → Element → Visit σ) (p : Element → Prop) : Prop where
  noFault : ∀ st e, (visit st e).fault? = none
  seen : ∀ st e children,
    (∀ child ∈ children.filterMap Node.element?, child.IsLeft visit (visit st e).forChildren) →
      p ⟨e.tag, (visit st e).attributes, children⟩

mutual
/-- A walk sees to a property of all elements if its visits do. -/
theorem Element.seen_walk (hv : SeesTo visit p) {w : Walk σ} (hw : w.fault? = none)
    (change : AttributeChange) : ∀ e : Element,
      (Element.walk visit w change e).1.IsLeft visit change ∧
        (∀ x ∈ (Element.walk visit w change e).1.preorder, p x) ∧
        (Element.walk visit w change e).2.fault? = none
  | ⟨tag, attributes, children⟩ => by
    let v := visit w.state ⟨tag, change tag attributes, children⟩
    have hfault : (⟨v.state, v.fault?⟩ : Walk σ).fault? = none := hv.noFault _ _
    obtain ⟨hleft, hbelow, hend⟩ := Node.seen_walkAll hv hfault v.forChildren children
    rw [Element.walk]
    dsimp only
    rw [hw, Option.isSome_none, if_neg Bool.false_ne_true]
    refine ⟨⟨w.state, attributes, children, rfl⟩, ?_, hend⟩
    rw [Element.preorder, List.forall_mem_cons]
    exact ⟨hv.seen w.state ⟨tag, change tag attributes, children⟩ _ hleft, hbelow⟩

theorem Node.seen_walkAll (hv : SeesTo visit p) {w : Walk σ} (hw : w.fault? = none)
    (change : AttributeChange) : ∀ ns : List Node,
      (∀ child ∈ (Node.walkAll visit w change ns).1.filterMap Node.element?,
        child.IsLeft visit change) ∧
        (∀ x ∈ Node.preorderAll (Node.walkAll visit w change ns).1, p x) ∧
        (Node.walkAll visit w change ns).2.fault? = none
  | [] => ⟨List.forall_mem_nil _, List.forall_mem_nil _, hw⟩
  | .element e :: rest => by
    obtain ⟨hfirst, hpre, hmid⟩ := Element.seen_walk hv hw change e
    obtain ⟨hleft, hbelow, hend⟩ := Node.seen_walkAll hv hmid change rest
    refine ⟨?_, ?_, hend⟩
    · exact List.forall_mem_cons.2 ⟨hfirst, hleft⟩
    · rw [Node.walkAll, Node.preorderAll, List.forall_mem_append]
      exact ⟨hpre, hbelow⟩
  | .text _ :: rest => Node.seen_walkAll hv hw change rest
  | .expression _ :: rest => Node.seen_walkAll hv hw change rest
end

theorem Segment.seen_walkAll (hv : SeesTo visit p) {w : Walk σ} (hw : w.fault? = none)
    (segments : List Segment) :
    (∀ x ∈ Document.elements ⟨(Segment.walkAll visit w segments).1⟩, p x) ∧
      (Segment.walkAll visit w segments).2.fault? = none := by
  induction segments generalizing w with
  | nil => exact ⟨List.forall_mem_nil _, hw⟩
  | cons segment rest ih =>
    cases segment with
    | code source => exact ih hw
    | markup root =>
      obtain ⟨-, hroot, hmid⟩ := Element.seen_walk hv hw .none root
      obtain ⟨hrest, hend⟩ := ih hmid
      refine ⟨?_, hend⟩
      rw [Segment.walkAll, Document.elements_markup, List.forall_mem_append]
      exact ⟨hroot, hrest⟩

/-- A pass that walks completes, and sees to a property of all elements, if its visits do. -/
theorem Pass.IsWalk.seen {q : Pass} {visit : Context → σ → Element → Visit σ} {start : Context → σ}
    {counters : σ → Counters} (h : q.IsWalk visit start counters) {c : Context}
    (hv : SeesTo (visit c) p) (d : Document) :
    (∃ counters, (q.run d c).result = .ok counters) ∧ ∀ e ∈ (q.run d c).document.elements, p e := by
  have hstart : (⟨start c, none⟩ : Walk σ).fault? = none := rfl
  obtain ⟨hall, hend⟩ := Segment.seen_walkAll hv hstart d.segments
  rw [h.result_eq, Walk.exists_result_iff, h.document_eq]
  exact ⟨hend, hall⟩

end

end MarkupTidy
