import Mathlib.Data.List.Forall2
import Mathlib.Logic.Relation
import MarkupTidy.Pass.Basic
import MarkupTidy.Proofs.Pass.Walk

/-! # What a walk leaves as it was

A walk changes attributes and nothing else, whether it comes to its end or not: the document after
it has the segments, the tags, the texts and the expressions of the document before it, each in its
place.

* `Element.Matches`, `Document.Matches`: trees that differ in attributes alone, and in these no more
  than a relation allows.
* `Document.Matches.forall_elements_iff`: what is told from the elements of one tree about another.
* `IsWithin`: visits whose changes a relation allows; `Pass.IsWalk.matches`: then the walk has no
  others.
* `ChangesEach`: visits that change every element, and each for itself; `Pass.IsWalk.changesEach`:
  so does the walk.
* `Pass.IsWalk.matches_of_completed`: what a walk that comes to its end has done to every element.
* `Segment.code?`: the code that a segment is; documents that match have the same.
* `Element.Rewrites`, `Document.Rewrites`: trees in which elements have given way to others. -/

namespace MarkupTidy

/-! ### Trees that match -/

section
variable (R : Attributes → Attributes → Prop)

mutual
/-- Elements with one tag, related attributes, and children that match. -/
inductive Element.Matches : Element → Element → Prop where
  | mk (tag : String) {before after : Attributes} {children children' : List Node} :
    R before after → Node.MatchAll children children' →
      Element.Matches ⟨tag, before, children⟩ ⟨tag, after, children'⟩

/-- Nodes that match one by one: elements match, texts and expressions are the same. -/
inductive Node.MatchAll : List Node → List Node → Prop where
  | nil : Node.MatchAll [] []
  | element {e e' : Element} {rest rest' : List Node} :
    Element.Matches e e' → Node.MatchAll rest rest' →
      Node.MatchAll (.element e :: rest) (.element e' :: rest')
  | text (value : String) {rest rest' : List Node} :
    Node.MatchAll rest rest' → Node.MatchAll (.text value :: rest) (.text value :: rest')
  | expression (source : String) {rest rest' : List Node} :
    Node.MatchAll rest rest' →
      Node.MatchAll (.expression source :: rest) (.expression source :: rest')
end

/-- Segments that match: roots match, code is the same. -/
inductive Segment.Matches : Segment → Segment → Prop where
  | code (source : String) : Segment.Matches (.code source) (.code source)
  | markup {root root' : Element} :
    Element.Matches R root root' → Segment.Matches (.markup root) (.markup root')

/-- Documents whose segments match one by one. -/
def Document.Matches (d d' : Document) : Prop :=
  List.Forall₂ (Segment.Matches R) d.segments d'.segments

end

section
variable {R S : Attributes → Attributes → Prop}

mutual
theorem Element.matches_refl [Std.Refl R] : ∀ e : Element, Element.Matches R e e
  | ⟨tag, attributes, children⟩ => .mk tag (refl_of R attributes) (Node.matchAll_refl children)

theorem Node.matchAll_refl [Std.Refl R] : ∀ ns : List Node, Node.MatchAll R ns ns
  | [] => .nil
  | .element e :: rest => .element (Element.matches_refl e) (Node.matchAll_refl rest)
  | .text value :: rest => .text value (Node.matchAll_refl rest)
  | .expression source :: rest => .expression source (Node.matchAll_refl rest)
end

mutual
theorem Element.Matches.mono (h : ∀ before after, R before after → S before after) {e e' : Element} :
    Element.Matches R e e' → Element.Matches S e e'
  | .mk tag has hns => .mk tag (h _ _ has) (Node.MatchAll.mono h hns)

theorem Node.MatchAll.mono (h : ∀ before after, R before after → S before after)
    {ns ns' : List Node} : Node.MatchAll R ns ns' → Node.MatchAll S ns ns'
  | .nil => .nil
  | .element he hrest => .element (he.mono h) (hrest.mono h)
  | .text value hrest => .text value (hrest.mono h)
  | .expression source hrest => .expression source (hrest.mono h)
end

mutual
theorem Element.Matches.comp {e e' e'' : Element} :
    Element.Matches R e e' → Element.Matches S e' e'' → Element.Matches (Relation.Comp R S) e e''
  | .mk tag has hns, .mk _ has' hns' => .mk tag ⟨_, has, has'⟩ (hns.comp hns')

theorem Node.MatchAll.comp {ns ns' ns'' : List Node} :
    Node.MatchAll R ns ns' → Node.MatchAll S ns' ns'' → Node.MatchAll (Relation.Comp R S) ns ns''
  | .nil, .nil => .nil
  | .element he hrest, .element he' hrest' => .element (he.comp he') (hrest.comp hrest')
  | .text value hrest, .text _ hrest' => .text value (hrest.comp hrest')
  | .expression source hrest, .expression _ hrest' => .expression source (hrest.comp hrest')
end

theorem Segment.matches_refl [Std.Refl R] : ∀ s : Segment, Segment.Matches R s s
  | .code source => .code source
  | .markup root => .markup (Element.matches_refl root)

theorem Segment.Matches.mono (h : ∀ before after, R before after → S before after) {s s' : Segment} :
    Segment.Matches R s s' → Segment.Matches S s s'
  | .code source => .code source
  | .markup hroot => .markup (hroot.mono h)

theorem Segment.Matches.comp {s s' s'' : Segment} :
    Segment.Matches R s s' → Segment.Matches S s' s'' → Segment.Matches (Relation.Comp R S) s s''
  | .code source, .code _ => .code source
  | .markup hroot, .markup hroot' => .markup (hroot.comp hroot')

namespace Document.Matches

variable {d d' d'' : Document}

theorem mono (h : ∀ before after, R before after → S before after) (hd : d.Matches R d') :
    d.Matches S d' :=
  List.Forall₂.imp (fun _ _ hs => hs.mono h) hd

/-- Documents that match one after the other match in what the two relations come to. -/
theorem comp (h : d.Matches R d') (h' : d'.Matches S d'') :
    d.Matches (Relation.Comp R S) d'' := by
  obtain ⟨segments⟩ := d
  obtain ⟨segments'⟩ := d'
  obtain ⟨segments''⟩ := d''
  unfold Document.Matches at h h' ⊢
  dsimp only at h h' ⊢
  induction h generalizing segments'' with
  | nil =>
    cases h'
    exact .nil
  | cons hs _ ih =>
    obtain _ | ⟨hs', hrest'⟩ := h'
    exact .cons (hs.comp hs') (ih _ hrest')

theorem trans [IsTrans Attributes R] (h : d.Matches R d') (h' : d'.Matches R d'') :
    d.Matches R d'' :=
  (h.comp h').mono fun _ _ ⟨_, hR, hR'⟩ => trans_of R hR hR'

end Document.Matches

theorem Document.matches_refl [Std.Refl R] (d : Document) : d.Matches R d :=
  List.forall₂_same.2 fun s _ => Segment.matches_refl s

end

/-! ### Elements that match -/

section
variable {R : Attributes → Attributes → Prop} {p q : Attributes → Prop}

mutual
theorem Element.Matches.forall_preorder_iff (hpq : ∀ as bs, R as bs → (p as ↔ q bs))
    {e e' : Element} : Element.Matches R e e' →
      ((∀ x ∈ e.preorder, p x.attributes) ↔ ∀ x ∈ e'.preorder, q x.attributes)
  | .mk tag has hns => by
    rw [Element.preorder, Element.preorder, List.forall_mem_cons, List.forall_mem_cons,
      hns.forall_preorderAll_iff hpq]
    exact and_congr_left' (hpq _ _ has)

theorem Node.MatchAll.forall_preorderAll_iff (hpq : ∀ as bs, R as bs → (p as ↔ q bs))
    {ns ns' : List Node} : Node.MatchAll R ns ns' →
      ((∀ x ∈ Node.preorderAll ns, p x.attributes) ↔ ∀ x ∈ Node.preorderAll ns', q x.attributes)
  | .nil => by simp [Node.preorderAll]
  | .element he hrest => by
    rw [Node.preorderAll, Node.preorderAll, List.forall_mem_append, List.forall_mem_append,
      he.forall_preorder_iff hpq, hrest.forall_preorderAll_iff hpq]
  | .text _ hrest => hrest.forall_preorderAll_iff hpq
  | .expression _ hrest => hrest.forall_preorderAll_iff hpq
end

/-- Where documents match, what holds of all elements before is told from all elements after. -/
theorem Document.Matches.forall_elements_iff (hpq : ∀ as bs, R as bs → (p as ↔ q bs))
    {d d' : Document} (h : d.Matches R d') :
    (∀ e ∈ d.elements, p e.attributes) ↔ ∀ e ∈ d'.elements, q e.attributes := by
  obtain ⟨segments⟩ := d
  obtain ⟨segments'⟩ := d'
  unfold Document.Matches at h
  dsimp only at h
  induction h with
  | nil => simp [Document.elements, Document.roots]
  | cons hs _ ih =>
    cases hs with
    | code source => exact ih
    | markup hroot =>
      rw [Document.elements_markup, Document.elements_markup, List.forall_mem_append,
        List.forall_mem_append, hroot.forall_preorder_iff hpq, ih]

end

/-! ### Code -/

/-- The code that a segment is. -/
def Segment.code? : Segment → Option String
  | .code source => some source
  | .markup _ => none

/-- Documents that match have the same code in the same places. -/
theorem Document.Matches.code_eq {R : Attributes → Attributes → Prop} {d d' : Document}
    (h : d.Matches R d') : d'.segments.map Segment.code? = d.segments.map Segment.code? := by
  obtain ⟨segments⟩ := d
  obtain ⟨segments'⟩ := d'
  unfold Document.Matches at h
  dsimp only at h ⊢
  induction h with
  | nil => rfl
  | cons hs _ ih =>
    rw [List.map_cons, List.map_cons, ih]
    cases hs <;> rfl

/-! ### Walks -/

/-- Visits whose changes are allowed, those to their element and those to its children. -/
structure IsWithin {σ : Type} (R : Attributes → Attributes → Prop)
    (visit : σ → Element → Visit σ) : Prop where
  attributes : ∀ st e, R e.attributes (visit st e).attributes
  forChildren : ∀ st e tag as, R as ((visit st e).forChildren tag as)

/-- Visits that have no change for children. -/
theorem IsWithin.of_forChildren_none {σ : Type} {R : Attributes → Attributes → Prop} [Std.Refl R]
    {visit : σ → Element → Visit σ} (h : ∀ st e, R e.attributes (visit st e).attributes)
    (hnone : ∀ st e, (visit st e).forChildren = .none) : IsWithin R visit :=
  ⟨h, fun st e _ as => by rw [hnone st e]; exact refl_of R as⟩

section
variable {σ : Type} {visit : σ → Element → Visit σ} {R : Attributes → Attributes → Prop}

mutual
/-- A walk has no changes but those that are allowed; a change that the parent has left is made also
after a fault. -/
theorem Element.matches_walk [IsPreorder Attributes R] (hv : IsWithin R visit) (w : Walk σ)
    {change : AttributeChange} (hchange : ∀ tag as, R as (change tag as)) :
    ∀ e : Element, Element.Matches R e (Element.walk visit w change e).1
  | ⟨tag, attributes, children⟩ => by
    have hleft := hchange tag attributes
    rw [Element.walk]
    dsimp only
    split
    · exact .mk tag hleft (Node.matchAll_refl children)
    · have hvisit := hv.attributes w.state ⟨tag, change tag attributes, children⟩
      exact .mk tag (trans_of R hleft hvisit)
        (Node.matchAll_walkAll hv _ (hv.forChildren _ _) children)

theorem Node.matchAll_walkAll [IsPreorder Attributes R] (hv : IsWithin R visit) (w : Walk σ)
    {change : AttributeChange} (hchange : ∀ tag as, R as (change tag as)) :
    ∀ ns : List Node, Node.MatchAll R ns (Node.walkAll visit w change ns).1
  | [] => .nil
  | .element e :: rest =>
    .element (Element.matches_walk hv w hchange e) (Node.matchAll_walkAll hv _ hchange rest)
  | .text value :: rest => .text value (Node.matchAll_walkAll hv w hchange rest)
  | .expression source :: rest => .expression source (Node.matchAll_walkAll hv w hchange rest)
end

theorem Segment.matches_walkAll [IsPreorder Attributes R] (hv : IsWithin R visit) (w : Walk σ)
    (segments : List Segment) :
    List.Forall₂ (Segment.Matches R) segments (Segment.walkAll visit w segments).1 := by
  have hnone : ∀ tag as, R as (AttributeChange.none tag as) := fun _ as => refl_of R as
  induction segments generalizing w with
  | nil => exact .nil
  | cons segment rest ih =>
    cases segment with
    | code source => exact .cons (.code source) (ih w)
    | markup root => exact .cons (.markup (Element.matches_walk hv w hnone root)) (ih _)

/-- A pass that walks has no changes but those of its visits, however it ends. -/
theorem Pass.IsWalk.matches [IsPreorder Attributes R] {p : Pass}
    {visit : Context → σ → Element → Visit σ} {start : Context → σ} {counters : σ → Counters}
    (h : p.IsWalk visit start counters)
    (hv : ∀ c, IsWithin R (visit c)) (d : Document) (c : Context) :
    d.Matches R (p.run d c).document := by
  rw [h.document_eq]
  exact Segment.matches_walkAll (hv c) _ d.segments

end

/-! ### Walks that change every element -/

/-- Visits that never end the walk and leave nothing for children, and what they do to the
attributes of their element. -/
structure ChangesEach {σ : Type} (R : Attributes → Attributes → Prop)
    (visit : σ → Element → Visit σ) : Prop where
  attributes : ∀ st e, R e.attributes (visit st e).attributes
  forChildren : ∀ st e, (visit st e).forChildren = .none
  noFault : ∀ st e, (visit st e).fault? = none

section
variable {σ : Type} {visit : σ → Element → Visit σ} {R : Attributes → Attributes → Prop}

mutual
theorem Element.changesEach_walk (hv : ChangesEach R visit) {w : Walk σ} (hw : w.fault? = none) :
    ∀ e : Element, Element.Matches R e (Element.walk visit w .none e).1 ∧
      (Element.walk visit w .none e).2.fault? = none
  | ⟨tag, attributes, children⟩ => by
    let v := visit w.state ⟨tag, attributes, children⟩
    have hvisit := hv.attributes w.state ⟨tag, attributes, children⟩
    have hchildren := Node.changesEach_walkAll hv (w := ⟨v.state, v.fault?⟩) (hv.noFault _ _) children
    rw [Element.walk, AttributeChange.none]
    dsimp only
    rw [hw, Option.isSome_none, if_neg Bool.false_ne_true, hv.forChildren]
    exact ⟨.mk tag hvisit hchildren.1, hchildren.2⟩

theorem Node.changesEach_walkAll (hv : ChangesEach R visit) {w : Walk σ} (hw : w.fault? = none) :
    ∀ ns : List Node, Node.MatchAll R ns (Node.walkAll visit w .none ns).1 ∧
      (Node.walkAll visit w .none ns).2.fault? = none
  | [] => ⟨.nil, hw⟩
  | .element e :: rest =>
    have he := Element.changesEach_walk hv hw e
    have hrest := Node.changesEach_walkAll hv he.2 rest
    ⟨.element he.1 hrest.1, hrest.2⟩
  | .text value :: rest =>
    have hrest := Node.changesEach_walkAll hv hw rest
    ⟨.text value hrest.1, hrest.2⟩
  | .expression source :: rest =>
    have hrest := Node.changesEach_walkAll hv hw rest
    ⟨.expression source hrest.1, hrest.2⟩
end

theorem Segment.changesEach_walkAll (hv : ChangesEach R visit) {w : Walk σ}
    (hw : w.fault? = none) (segments : List Segment) :
    List.Forall₂ (Segment.Matches R) segments (Segment.walkAll visit w segments).1 := by
  induction segments generalizing w with
  | nil => exact .nil
  | cons segment rest ih =>
    cases segment with
    | code source => exact .cons (.code source) (ih hw)
    | markup root =>
      obtain ⟨hroot, hfault⟩ := Element.changesEach_walk hv hw root
      exact .cons (.markup hroot) (ih hfault)

/-- A pass that walks does to every element what its visits do. -/
theorem Pass.IsWalk.changesEach {p : Pass} {visit : Context → σ → Element → Visit σ}
    {start : Context → σ} {counters : σ → Counters} (h : p.IsWalk visit start counters)
    (d : Document) {c : Context} (hv : ChangesEach R (visit c)) :
    d.Matches R (p.run d c).document := by
  rw [h.document_eq]
  exact Segment.changesEach_walkAll hv rfl d.segments

end

/-! ### Walks that come to their end -/

section
variable {σ : Type} {visit : σ → Element → Visit σ} {R : Attributes → Attributes → Prop}

/-- A fault stays with a walk. -/
theorem Element.fault_of_walk {w : Walk σ} {change : AttributeChange} {e : Element}
    (h : (Element.walk visit w change e).2.fault? = none) : w.fault? = none :=
  Classical.byContradiction fun hw => @Element.walk_invariant _ visit (fun w => w.fault? ≠ none)
    (fun _ _ hnone => absurd rfl hnone) w change hw e h

theorem Node.fault_of_walkAll {w : Walk σ} {change : AttributeChange} {ns : List Node}
    (h : (Node.walkAll visit w change ns).2.fault? = none) : w.fault? = none :=
  Classical.byContradiction fun hw => @Node.walkAll_invariant _ visit (fun w => w.fault? ≠ none)
    (fun _ _ hnone => absurd rfl hnone) w change hw ns h

theorem Segment.fault_of_walkAll {w : Walk σ} {segments : List Segment}
    (h : (Segment.walkAll visit w segments).2.fault? = none) : w.fault? = none :=
  Classical.byContradiction fun hw => @Segment.walkAll_invariant _ visit (fun w => w.fault? ≠ none)
    (fun _ _ hnone => absurd rfl hnone) w hw segments h

mutual
/-- A walk that comes to its end has done to every element what a visit without a fault does. -/
theorem Element.matches_of_completed (hnone : ∀ st e, (visit st e).forChildren = .none)
    (hv : ∀ st e, (visit st e).fault? = none → R e.attributes (visit st e).attributes)
    {w : Walk σ} : ∀ e : Element, (Element.walk visit w .none e).2.fault? = none →
      Element.Matches R e (Element.walk visit w .none e).1
  | ⟨tag, attributes, children⟩ => by
    intro hend
    have hw := Element.fault_of_walk hend
    rw [Element.walk, AttributeChange.none] at hend ⊢
    dsimp only at hend ⊢
    rw [hw, Option.isSome_none, if_neg Bool.false_ne_true, hnone] at hend ⊢
    exact .mk tag (hv _ ⟨tag, attributes, children⟩ (Node.fault_of_walkAll hend))
      (Node.matchAll_of_completed hnone hv children hend)

theorem Node.matchAll_of_completed (hnone : ∀ st e, (visit st e).forChildren = .none)
    (hv : ∀ st e, (visit st e).fault? = none → R e.attributes (visit st e).attributes)
    {w : Walk σ} : ∀ ns : List Node, (Node.walkAll visit w .none ns).2.fault? = none →
      Node.MatchAll R ns (Node.walkAll visit w .none ns).1
  | [], _ => .nil
  | .element e :: rest, hend =>
    .element (Element.matches_of_completed hnone hv e (Node.fault_of_walkAll hend))
      (Node.matchAll_of_completed hnone hv rest hend)
  | .text value :: rest, hend => .text value (Node.matchAll_of_completed hnone hv rest hend)
  | .expression source :: rest, hend =>
    .expression source (Node.matchAll_of_completed hnone hv rest hend)
end

theorem Segment.matches_of_completed (hnone : ∀ st e, (visit st e).forChildren = .none)
    (hv : ∀ st e, (visit st e).fault? = none → R e.attributes (visit st e).attributes)
    {w : Walk σ} (segments : List Segment)
    (hend : (Segment.walkAll visit w segments).2.fault? = none) :
    List.Forall₂ (Segment.Matches R) segments (Segment.walkAll visit w segments).1 := by
  induction segments generalizing w with
  | nil => exact .nil
  | cons segment rest ih =>
    cases segment with
    | code source => exact .cons (.code source) (ih hend)
    | markup root =>
      have hrest : (Segment.walkAll visit (Element.walk visit w .none root).2 rest).2.fault? = none :=
        hend
      have hroot := Segment.fault_of_walkAll hrest
      exact .cons (.markup (Element.matches_of_completed hnone hv root hroot)) (ih hrest)

/-- A pass that walks, and that completes, has done to every element what a visit without a fault
does. -/
theorem Pass.IsWalk.matches_of_completed {p : Pass} {visit : Context → σ → Element → Visit σ}
    {start : Context → σ} {counters : σ → Counters} (h : p.IsWalk visit start counters)
    {d : Document} {c : Context} (hnone : ∀ st e, (visit c st e).forChildren = .none)
    (hv : ∀ st e, (visit c st e).fault? = none → R e.attributes (visit c st e).attributes)
    (hend : ∃ counters, (p.run d c).result = .ok counters) :
    d.Matches R (p.run d c).document := by
  rw [h.result_eq, Walk.exists_result_iff] at hend
  rw [h.document_eq]
  exact Segment.matches_of_completed hnone hv d.segments hend

end

/-! ### Trees in which elements give way

A pass that puts other elements in place goes on below what it has put there.  An element stays, or
another one stands in its place, and the same holds of the children that are there then. -/

section
variable (stays : Element → Prop) (givesWay : Element → Element → Prop)

mutual
/-- An element that stays, or one in whose place another one stands; in both cases with what has become
of the children. -/
inductive Element.Rewrites : Element → Element → Prop where
  | kept {tag : String} {attributes : Attributes} {children children' : List Node} :
    stays ⟨tag, attributes, children⟩ → Node.RewriteAll children children' →
      Element.Rewrites ⟨tag, attributes, children⟩ ⟨tag, attributes, children'⟩
  | replaced {e : Element} {tag : String} {attributes : Attributes} {children children' : List Node} :
    givesWay e ⟨tag, attributes, children⟩ → Node.RewriteAll children children' →
      Element.Rewrites e ⟨tag, attributes, children'⟩

/-- Nodes one by one: elements as above, texts and expressions as they were. -/
inductive Node.RewriteAll : List Node → List Node → Prop where
  | nil : Node.RewriteAll [] []
  | element {e e' : Element} {rest rest' : List Node} :
    Element.Rewrites e e' → Node.RewriteAll rest rest' →
      Node.RewriteAll (.element e :: rest) (.element e' :: rest')
  | text (value : String) {rest rest' : List Node} :
    Node.RewriteAll rest rest' → Node.RewriteAll (.text value :: rest) (.text value :: rest')
  | expression (source : String) {rest rest' : List Node} :
    Node.RewriteAll rest rest' →
      Node.RewriteAll (.expression source :: rest) (.expression source :: rest')
end

/-- Segments: roots as above, code as it was. -/
inductive Segment.Rewrites : Segment → Segment → Prop where
  | code (source : String) : Segment.Rewrites (.code source) (.code source)
  | markup {root root' : Element} :
    Element.Rewrites stays givesWay root root' → Segment.Rewrites (.markup root) (.markup root')

/-- Documents segment by segment. -/
def Document.Rewrites (d d' : Document) : Prop :=
  List.Forall₂ (Segment.Rewrites stays givesWay) d.segments d'.segments

end

section
variable {stays stays' : Element → Prop} {givesWay givesWay' : Element → Element → Prop}

mutual
theorem Element.Rewrites.mono (hstays : ∀ e, stays e → stays' e)
    (hgives : ∀ e x, givesWay e x → givesWay' e x) {e e' : Element} :
    Element.Rewrites stays givesWay e e' → Element.Rewrites stays' givesWay' e e'
  | .kept h hchildren => .kept (hstays _ h) (hchildren.mono hstays hgives)
  | .replaced h hchildren => .replaced (hgives _ _ h) (hchildren.mono hstays hgives)

theorem Node.RewriteAll.mono (hstays : ∀ e, stays e → stays' e)
    (hgives : ∀ e x, givesWay e x → givesWay' e x) {ns ns' : List Node} :
    Node.RewriteAll stays givesWay ns ns' → Node.RewriteAll stays' givesWay' ns ns'
  | .nil => .nil
  | .element he hrest => .element (he.mono hstays hgives) (hrest.mono hstays hgives)
  | .text value hrest => .text value (hrest.mono hstays hgives)
  | .expression source hrest => .expression source (hrest.mono hstays hgives)
end

theorem Document.Rewrites.mono (hstays : ∀ e, stays e → stays' e)
    (hgives : ∀ e x, givesWay e x → givesWay' e x) {d d' : Document}
    (h : d.Rewrites stays givesWay d') : d.Rewrites stays' givesWay' d' :=
  List.Forall₂.imp (fun
    | _, _, .code source => .code source
    | _, _, .markup hroot => .markup (hroot.mono hstays hgives)) h

theorem Document.Rewrites.roots {d d' : Document} (h : d.Rewrites stays givesWay d') :
    List.Forall₂ (Element.Rewrites stays givesWay) d.roots d'.roots :=
  List.rel_filterMap (fun
    | _, _, .code _ => .none
    | _, _, .markup hroot => .some hroot) h

/-- How an element has come to be what it is. -/
theorem Element.Rewrites.cases_tag {e e' : Element} (h : Element.Rewrites stays givesWay e e') :
    (stays e ∧ e'.tag = e.tag ∧ e'.attributes = e.attributes ∧
      Node.RewriteAll stays givesWay e.children e'.children) ∨
    ∃ x, givesWay e x ∧ e'.tag = x.tag ∧ e'.attributes = x.attributes ∧
      Node.RewriteAll stays givesWay x.children e'.children := by
  cases h with
  | kept h hchildren => exact .inl ⟨h, rfl, rfl, hchildren⟩
  | replaced h hchildren => exact .inr ⟨_, h, rfl, rfl, hchildren⟩

mutual
theorem Element.rewrites_refl :
    ∀ e : Element, (∀ x ∈ e.preorder, stays x) → Element.Rewrites stays givesWay e e
  | ⟨_, _, children⟩, h =>
    have hparts := List.forall_mem_cons.1 h
    .kept hparts.1 (Node.rewriteAll_refl children hparts.2)

theorem Node.rewriteAll_refl :
    ∀ ns : List Node, (∀ x ∈ Node.preorderAll ns, stays x) → Node.RewriteAll stays givesWay ns ns
  | [], _ => .nil
  | .element e :: rest, h =>
    have hparts := List.forall_mem_append.1 h
    .element (Element.rewrites_refl e hparts.1) (Node.rewriteAll_refl rest hparts.2)
  | .text value :: rest, h => .text value (Node.rewriteAll_refl rest h)
  | .expression source :: rest, h => .expression source (Node.rewriteAll_refl rest h)
end

end

end MarkupTidy
