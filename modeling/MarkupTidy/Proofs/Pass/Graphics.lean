import MarkupTidy.Pass.PostFixes
import MarkupTidy.Pass.VectorComposites
import MarkupTidy.Pass.VectorWrappers
import MarkupTidy.Proofs.Pass.Walk

/-! # Graphics that are left alone

* `VectorComposites.isIdleOn_of_no_assets`: without assets no container is replaced.
* `VectorWrappers.flattenElement_eq_iff`: the count of wrappers stands still exactly where there is
  no wrapper.
* `PostFixes.fixGradient_cases`, `PostFixes.isShapeFix_fixShape`: what the correction of a gradient and of
  a shape can be.
* `PostFixes.IsSettled`, `PostFixes.steady`: an element whose gradient and shape need no help. -/

namespace MarkupTidy

/-! ### Composites -/

namespace VectorComposites

/-- Without assets an element is at most counted among those that were not recognized. -/
theorem examine_of_no_assets {source : Source} (hs : source.assets? = none) (w : Walk State)
    (e : Element) :
    (examine source w e).1 = none ∧
      ((examine source w e).2.IsQuiet (fun st => st.counters.IsIdle) ↔
        w.IsQuiet fun st => st.counters.IsIdle) := by
  have hobs : "compositesUnrecognized" ∈ Counters.observational := by decide
  unfold examine inline
  cases Layer.ofContainer? e with
  | none => exact ⟨rfl, Iff.rfl⟩
  | some layers => simp [hs, Walk.IsQuiet, Counters.isIdle_count, hobs]

mutual
theorem inlineElement_of_no_assets {source : Source} (hs : source.assets? = none)
    (w : Walk State) :
    ∀ e : Element, (inlineElement source w e).1 = e ∧
      ((inlineElement source w e).2.IsQuiet (fun st => st.counters.IsIdle) ↔
        w.IsQuiet fun st => st.counters.IsIdle)
  | ⟨tag, attributes, children⟩ => by
    rw [inlineElement]
    split
    · exact ⟨rfl, Iff.rfl⟩
    · obtain ⟨hnone, hquiet⟩ := examine_of_no_assets hs w ⟨tag, attributes, children⟩
      split
      · rename_i graphic w' he
        rw [he] at hnone
        exact absurd hnone (by simp)
      · rename_i w' he
        rw [he] at hquiet
        obtain ⟨hchildren, hbelow⟩ := inlineNodes_of_no_assets hs w' children
        dsimp only
        rw [hchildren]
        exact ⟨rfl, hbelow.trans hquiet⟩

theorem inlineNodes_of_no_assets {source : Source} (hs : source.assets? = none)
    (w : Walk State) :
    ∀ ns : List Node, (inlineNodes source w ns).1 = ns ∧
      ((inlineNodes source w ns).2.IsQuiet (fun st => st.counters.IsIdle) ↔
        w.IsQuiet fun st => st.counters.IsIdle)
  | [] => ⟨rfl, Iff.rfl⟩
  | .element e :: rest => by
    obtain ⟨hfirst, hquiet⟩ := inlineElement_of_no_assets hs w e
    obtain ⟨hrest, hafter⟩ := inlineNodes_of_no_assets hs (inlineElement source w e).2 rest
    rw [inlineNodes]
    dsimp only
    rw [hfirst, hrest]
    exact ⟨rfl, hafter.trans hquiet⟩
  | .text value :: rest => by
    obtain ⟨hrest, hafter⟩ := inlineNodes_of_no_assets hs w rest
    rw [inlineNodes]
    dsimp only
    rw [hrest]
    exact ⟨rfl, hafter⟩
  | .expression code :: rest => by
    obtain ⟨hrest, hafter⟩ := inlineNodes_of_no_assets hs w rest
    rw [inlineNodes]
    dsimp only
    rw [hrest]
    exact ⟨rfl, hafter⟩
end

theorem inlineSegments_of_no_assets (source : Source) (hs : source.assets? = none)
    (w : Walk State) (segments : List Segment) :
    (inlineSegments source w segments).1 = segments ∧
      ((inlineSegments source w segments).2.IsQuiet (fun st => st.counters.IsIdle) ↔
        w.IsQuiet fun st => st.counters.IsIdle) := by
  induction segments generalizing w with
  | nil => exact ⟨rfl, Iff.rfl⟩
  | cons segment rest ih =>
    cases segment with
    | code code =>
      obtain ⟨hrest, hafter⟩ := ih w
      rw [inlineSegments]
      dsimp only
      rw [hrest]
      exact ⟨rfl, hafter⟩
    | markup root =>
      obtain ⟨hroot, hquiet⟩ := inlineElement_of_no_assets hs w root
      obtain ⟨hrest, hafter⟩ := ih (inlineElement source w root).2
      rw [inlineSegments]
      dsimp only
      rw [hroot, hrest]
      exact ⟨rfl, hafter.trans hquiet⟩

/-- Without assets the pass has nothing to do. -/
theorem isIdleOn_of_no_assets (d : Document) {c : Context} (hc : c.assets? = none) :
    pass.IsIdleOn d c := by
  have hw := (inlineSegments_of_no_assets ⟨d.assetBindings, c.assets?⟩ hc
    ⟨⟨[], []⟩, none⟩ d.segments).2.2 ⟨rfl, Counters.isIdle_nil⟩
  exact Walk.isQuiet_iff_result.1 hw

theorem run_document (d : Document) {c : Context} (hc : c.assets? = none) :
    (pass.run d c).document = d :=
  congrArg Document.mk (inlineSegments_of_no_assets ⟨d.assetBindings, c.assets?⟩ hc
    ⟨⟨[], []⟩, none⟩ d.segments).1

theorem arePositive_examine (source : Source) {w : Walk State}
    (hw : w.state.counters.ArePositive) (e : Element) :
    (examine source w e).2.state.counters.ArePositive := by
  unfold examine
  split
  · exact hw
  · dsimp only
    split
    · exact hw
    · exact hw.count _
    · exact hw.count _

mutual
theorem arePositive_inlineElement (source : Source) {w : Walk State}
    (hw : w.state.counters.ArePositive) :
    ∀ e : Element, (inlineElement source w e).2.state.counters.ArePositive
  | ⟨tag, attributes, children⟩ => by
    have hexamine := arePositive_examine source hw ⟨tag, attributes, children⟩
    rw [inlineElement]
    split
    · exact hw
    · split
      · rename_i graphic w' he
        rw [he] at hexamine
        exact hexamine
      · rename_i w' he
        rw [he] at hexamine
        exact arePositive_inlineNodes source hexamine children

theorem arePositive_inlineNodes (source : Source) {w : Walk State}
    (hw : w.state.counters.ArePositive) :
    ∀ ns : List Node, (inlineNodes source w ns).2.state.counters.ArePositive
  | [] => hw
  | .element e :: rest => arePositive_inlineNodes source (arePositive_inlineElement source hw e) rest
  | .text _ :: rest => arePositive_inlineNodes source hw rest
  | .expression _ :: rest => arePositive_inlineNodes source hw rest
end

theorem arePositive_inlineSegments (source : Source) {w : Walk State}
    (hw : w.state.counters.ArePositive) (segments : List Segment) :
    (inlineSegments source w segments).2.state.counters.ArePositive := by
  induction segments generalizing w with
  | nil => exact hw
  | cons segment rest ih =>
    cases segment with
    | code _ => exact ih hw
    | markup root => exact ih (arePositive_inlineElement source hw root)

theorem countsUp : pass.CountsUp := by
  intro d c counters h
  exact Walk.arePositive_of_result h (arePositive_inlineSegments _ Counters.arePositive_nil _)

end VectorComposites

/-! ### Wrappers -/

namespace VectorWrappers

mutual
theorem le_flattenElement (count : Nat) : ∀ e : Element, count ≤ (flattenElement count e).2
  | ⟨tag, attributes, children⟩ => by
    rw [flattenElement]
    split
    · exact Nat.le_of_succ_le (le_flattenImage (count + 1) attributes children)
    · exact le_flattenNodes count children

theorem le_flattenImage (count : Nat) (wrapper : Attributes) :
    ∀ ns : List Node, count ≤ (flattenImage count wrapper ns).2
  | [] => Nat.le_refl count
  | .element ⟨_, _, children⟩ :: _ => le_flattenNodes count children
  | .text _ :: rest => le_flattenImage count wrapper rest
  | .expression _ :: rest => le_flattenImage count wrapper rest

theorem le_flattenNodes (count : Nat) : ∀ ns : List Node, count ≤ (flattenNodes count ns).2
  | [] => Nat.le_refl count
  | .element e :: rest =>
    Nat.le_trans (le_flattenElement count e) (le_flattenNodes (flattenElement count e).2 rest)
  | .text _ :: rest => le_flattenNodes count rest
  | .expression _ :: rest => le_flattenNodes count rest
end

mutual
/-- The count stands still exactly where there is no wrapper. -/
theorem flattenElement_eq_iff (count : Nat) :
    ∀ e : Element, (flattenElement count e).2 = count ↔ ∀ x ∈ e.preorder, isWrapper x = false
  | ⟨tag, attributes, children⟩ => by
    rw [flattenElement, Element.preorder, List.forall_mem_cons]
    cases hw : isWrapper ⟨tag, attributes, children⟩ with
    | true =>
      have hle := le_flattenImage (count + 1) attributes children
      rw [if_pos rfl]
      exact iff_of_false (fun h => by omega) (fun h => Bool.false_ne_true h.1.symm)
    | false =>
      rw [if_neg Bool.false_ne_true]
      exact (flattenNodes_eq_iff count children).trans (and_iff_right rfl).symm

theorem flattenNodes_eq_iff (count : Nat) :
    ∀ ns : List Node,
      (flattenNodes count ns).2 = count ↔ ∀ x ∈ Node.preorderAll ns, isWrapper x = false
  | [] => by simp [flattenNodes, Node.preorderAll]
  | .element e :: rest => by
    have hfirst := le_flattenElement count e
    have hrest := le_flattenNodes (flattenElement count e).2 rest
    rw [flattenNodes, Node.preorderAll, List.forall_mem_append, ← flattenElement_eq_iff count e]
    dsimp only
    constructor
    · intro h
      have he : (flattenElement count e).2 = count := by omega
      refine ⟨he, ?_⟩
      rw [he] at h
      exact (flattenNodes_eq_iff count rest).1 h
    · rintro ⟨he, h⟩
      rw [he]
      exact (flattenNodes_eq_iff count rest).2 h
  | .text _ :: rest => flattenNodes_eq_iff count rest
  | .expression _ :: rest => flattenNodes_eq_iff count rest
end

mutual
/-- An element without wrappers is left as it is. -/
theorem flattenElement_of_no_wrapper (count : Nat) :
    ∀ e : Element, (∀ x ∈ e.preorder, isWrapper x = false) →
      flattenElement count e = (e, count)
  | ⟨tag, attributes, children⟩ => by
    intro h
    rw [Element.preorder, List.forall_mem_cons] at h
    rw [flattenElement, h.1, if_neg Bool.false_ne_true,
      flattenNodes_of_no_wrapper count children h.2]

theorem flattenNodes_of_no_wrapper (count : Nat) :
    ∀ ns : List Node, (∀ x ∈ Node.preorderAll ns, isWrapper x = false) →
      flattenNodes count ns = (ns, count)
  | [] => fun _ => rfl
  | .element e :: rest => by
    intro h
    rw [Node.preorderAll, List.forall_mem_append] at h
    rw [flattenNodes, flattenElement_of_no_wrapper count e h.1]
    dsimp only
    rw [flattenNodes_of_no_wrapper count rest h.2]
  | .text _ :: rest => by
    intro h
    rw [flattenNodes, flattenNodes_of_no_wrapper count rest h]
  | .expression _ :: rest => by
    intro h
    rw [flattenNodes, flattenNodes_of_no_wrapper count rest h]
end

theorem le_flattenSegments (count : Nat) (segments : List Segment) :
    count ≤ (flattenSegments count segments).2 := by
  induction segments generalizing count with
  | nil => exact Nat.le_refl count
  | cons segment rest ih =>
    cases segment with
    | code source => exact ih count
    | markup root => exact Nat.le_trans (le_flattenElement count root) (ih _)

theorem flattenSegments_eq_iff (count : Nat) {segments : List Segment} :
    (flattenSegments count segments).2 = count ↔
      ∀ x ∈ Document.elements ⟨segments⟩, isWrapper x = false := by
  induction segments with
  | nil => simp [flattenSegments, Document.elements, Document.roots]
  | cons segment rest ih =>
    cases segment with
    | code source => exact ih
    | markup root =>
      have hroot := le_flattenElement count root
      have hrest := le_flattenSegments (flattenElement count root).2 rest
      rw [Document.elements_markup, List.forall_mem_append, ← flattenElement_eq_iff count root,
        ← ih, flattenSegments]
      dsimp only
      constructor
      · intro h
        have he : (flattenElement count root).2 = count := by omega
        rw [he] at h
        exact ⟨he, h⟩
      · rintro ⟨he, h⟩
        rw [he, h]

theorem flattenSegments_of_no_wrapper (count : Nat) {segments : List Segment}
    (h : ∀ x ∈ Document.elements ⟨segments⟩, isWrapper x = false) :
    flattenSegments count segments = (segments, count) := by
  induction segments with
  | nil => rfl
  | cons segment rest ih =>
    cases segment with
    | code source => rw [flattenSegments, ih h]
    | markup root =>
      rw [Document.elements_markup, List.forall_mem_append] at h
      rw [flattenSegments, flattenElement_of_no_wrapper count root h.1]
      dsimp only
      rw [ih h.2]

/-- The pass has nothing to do exactly where there is no wrapper. -/
theorem isIdleOn_iff (d : Document) (c : Context) :
    pass.IsIdleOn d c ↔ ∀ e ∈ d.elements, isWrapper e = false := by
  rw [← flattenSegments_eq_iff 0]
  unfold Pass.IsIdleOn pass
  dsimp only
  constructor
  · rintro ⟨counters, h, hidle⟩
    obtain rfl := Except.ok.inj h
    split at hidle
    · assumption
    · exact absurd (hidle "wrappersFlattened" List.mem_cons_self) (by decide)
  · intro h
    exact ⟨[], by rw [if_pos h], Counters.isIdle_nil⟩

theorem run_document {d : Document} (c : Context) (h : ∀ e ∈ d.elements, isWrapper e = false) :
    (pass.run d c).document = d :=
  congrArg (fun r => Document.mk r.1) (flattenSegments_of_no_wrapper 0 h)

theorem countsUp : pass.CountsUp := by
  intro d c counters h
  obtain rfl := Except.ok.inj h
  split
  · exact Counters.arePositive_nil
  · rename_i hne
    intro entry hentry
    obtain rfl := List.mem_singleton.1 hentry
    exact Int.natCast_pos.2 (Nat.pos_of_ne_zero hne)

end VectorWrappers

/-! ### Visual corrections -/

theorem Verdict.isIdle_tally_iff {v : Verdict} {counters : Counters}
    {applied unrecognized : String} (ha : applied ∉ Counters.observational)
    (hu : unrecognized ∈ Counters.observational) :
    (v.tally counters applied unrecognized).IsIdle ↔ counters.IsIdle ∧ v ≠ .applied := by
  cases v <;> simp [Verdict.tally, Counters.isIdle_count, ha, hu]

theorem Verdict.arePositive_tally {counters : Counters} (h : counters.ArePositive) (v : Verdict)
    (applied unrecognized : String) : (v.tally counters applied unrecognized).ArePositive := by
  cases v with
  | applied => exact h.count applied
  | unrecognized => exact h.count unrecognized
  | skipped => exact h

namespace PostFixes

/-- An element whose gradient and shape need no help, or get none. -/
def IsSettled (e : Element) : Prop :=
  e.attributes.hasStaticClasses = true →
    (fixGradient e.attributes).1 ≠ .applied ∧
      (fixShape e.attributes e.elements).verdict ≠ .applied

instance (e : Element) : Decidable (IsSettled e) :=
  inferInstanceAs (Decidable (_ → _))

/-- A gradient is not written, and the attributes are left; or the one that is found is written. -/
theorem fixGradient_cases (as : Attributes) :
    ((fixGradient as).1 ≠ .applied ∧ (fixGradient as).2 = as) ∨
      ∃ value used s, Gradient.classify as.classes = .found value used ∧ as.styleOrNew? = some s ∧
        s.has "background" = false ∧
        fixGradient as = (.applied, (as.setStyle (s.set "background" (.text value))).setClasses
          (as.classes.filter fun t => !used.contains t)) := by
  unfold fixGradient
  dsimp only
  split
  · exact .inl ⟨Verdict.noConfusion, rfl⟩
  · exact .inl ⟨Verdict.noConfusion, rfl⟩
  · rename_i value used hfound
    split
    · exact .inl ⟨Verdict.noConfusion, rfl⟩
    · rename_i s hs
      split
      · exact .inl ⟨Verdict.noConfusion, rfl⟩
      · rename_i hnew
        exact .inr ⟨value, used, s, hfound, hs, Bool.eq_false_iff.2 hnew, rfl⟩

/-- A gradient that is not written leaves the attributes as they were. -/
theorem fixGradient_attributes {as : Attributes} (h : (fixGradient as).1 ≠ .applied) :
    (fixGradient as).2 = as := by
  obtain ⟨-, hkept⟩ | ⟨value, used, s, -, -, -, hwritten⟩ := fixGradient_cases as
  · exact hkept
  · rw [hwritten] at h
    exact absurd rfl h

theorem exists_found_of_applied {as : Attributes} (h : (fixGradient as).1 = .applied) :
    ∃ value used s, Gradient.classify as.classes = .found value used ∧ as.styleOrNew? = some s ∧
      s.has "background" = false ∧
      (fixGradient as).2 = (as.setStyle (s.set "background" (.text value))).setClasses
        (as.classes.filter fun t => !used.contains t) := by
  obtain ⟨hkept, -⟩ | ⟨value, used, s, hfound, hs, hnew, hwritten⟩ := fixGradient_cases as
  · exact absurd h hkept
  · exact ⟨value, used, s, hfound, hs, hnew, congrArg Prod.snd hwritten⟩

/-- The height of a line that can be seen, in the place of none. -/
def visibleHeight (token : String) : String :=
  if token = "h-0" || token = "h-[0px]" then "h-px" else token

theorem fixLine_eq (as : Attributes) : fixLine as =
    if as.classes.map visibleHeight = as.classes then .none .skipped as
    else .none .applied (as.setClasses (as.classes.map visibleHeight)) :=
  rfl

/-- A round shape is left as it is, or its radius is written. -/
theorem fixRound_cases (isCircle : Bool) (as : Attributes) :
    (∃ verdict, verdict ≠ .applied ∧ fixRound isCircle as = .none verdict as) ∨
      ∃ width height, dimensions as.classes = ⟨some width, some height⟩ ∧
        ¬ (cornerRadius isCircle width height ∈ as.classes ∧
          (as.classes.filter isRounded).length = 1) ∧
        fixRound isCircle as = .none .applied
          (as.setClasses (withRadius as.classes (cornerRadius isCircle width height))) := by
  unfold fixRound
  dsimp only
  split
  · rename_i width height hsize
    split
    · exact .inl ⟨.skipped, Verdict.noConfusion, rfl⟩
    · rename_i hother
      refine .inr ⟨width, height, hsize, fun honly => hother ?_, rfl⟩
      simp [honly.1, honly.2]
  · exact .inl ⟨.unrecognized, Verdict.noConfusion, rfl⟩

/-- What the correction of a shape can be. -/
inductive IsShapeFix (as : Attributes) (children : List Element) : ShapeFix → Prop where
  | kept {verdict : Verdict} (h : verdict ≠ .applied) : IsShapeFix as children (.none verdict as)
  | line (h : as.classes.map visibleHeight ≠ as.classes) :
      IsShapeFix as children (.none .applied (as.setClasses (as.classes.map visibleHeight)))
  | pointed {name : String} (h : name = "star" ∨ name = "polygon") :
      IsShapeFix as children (fixPointed name as children)
  | round {isCircle : Bool} {width height : Binary64}
      (hsize : dimensions as.classes = ⟨some width, some height⟩)
      (hother : ¬ (cornerRadius isCircle width height ∈ as.classes ∧
        (as.classes.filter isRounded).length = 1)) :
      IsShapeFix as children
        (.none .applied (as.setClasses (withRadius as.classes (cornerRadius isCircle width height))))

theorem isPointed_of_ofName {name : String} (h : ShapeForm.ofName name = .pointed) :
    name = "star" ∨ name = "polygon" := by
  unfold ShapeForm.ofName at h
  split at h
  · exact ShapeForm.noConfusion h
  · split at h
    · rename_i hpointed
      simpa using hpointed
    · exact ShapeForm.noConfusion h

theorem isShapeFix_fixShape (as : Attributes) (children : List Element) :
    IsShapeFix as children (fixShape as children) := by
  unfold fixShape
  split
  · exact .kept Verdict.noConfusion
  · split
    · rw [fixLine_eq]
      split
      · exact .kept Verdict.noConfusion
      · exact .line ‹_›
    · exact .pointed (isPointed_of_ofName ‹_›)
    · rename_i isCircle _
      obtain ⟨verdict, hverdict, hkept⟩ | ⟨width, height, hsize, hother, hnew⟩ :=
        fixRound_cases isCircle as
      · rw [hkept]
        exact .kept hverdict
      · rw [hnew]
        exact .round hsize hother

/-- A shape correction that is not applied. -/
structure ShapeFix.Leaves (f : ShapeFix) (attributes : Attributes) (children : List Element) :
    Prop where
  attributes_eq : f.attributes = attributes
  forChildren_eq : ∀ child ∈ children,
    f.forChildren child.tag child.attributes = child.attributes

theorem fixPointed_leaves {name : String} {attributes : Attributes} {children : List Element}
    (h : (fixPointed name attributes children).verdict ≠ .applied) :
    (fixPointed name attributes children).Leaves attributes children := by
  unfold fixPointed at h ⊢
  dsimp only at h ⊢
  split at h
  · exact absurd rfl h
  · rename_i hskip
    simp only [Bool.or_eq_true, decide_eq_true_eq, not_or] at hskip
    obtain ⟨hmarked, hloose⟩ := hskip
    refine ⟨if_neg hmarked, fun child hchild => ?_⟩
    have htight : ¬ isLooseImage child.tag child.attributes = true := fun hl =>
      hloose (List.any_eq_true.2 ⟨child, hchild, hl⟩)
    exact if_neg htight

/-- A shape correction that is not applied leaves the element and its children as they were. -/
theorem fixShape_leaves {attributes : Attributes} {children : List Element}
    (h : (fixShape attributes children).verdict ≠ .applied) :
    (fixShape attributes children).Leaves attributes children := by
  have hfix := isShapeFix_fixShape attributes children
  generalize fixShape attributes children = f at hfix h ⊢
  cases hfix with
  | kept => exact ⟨rfl, fun _ _ => rfl⟩
  | line => exact absurd rfl h
  | pointed => exact fixPointed_leaves h
  | round => exact absurd rfl h

theorem isIdle_countBlendModes_iff {counters : Counters} {tokens : List String} :
    (countBlendModes counters tokens).IsIdle ↔ counters.IsIdle := by
  unfold countBlendModes
  induction tokens.filterMap BlendMode.read? generalizing counters with
  | nil => rfl
  | cons mode rest ih =>
    rw [List.foldl_cons, ih, Counters.isIdle_count]
    refine and_iff_left ?_
    split <;> decide

theorem arePositive_countBlendModes {counters : Counters} (h : counters.ArePositive)
    (tokens : List String) : (countBlendModes counters tokens).ArePositive := by
  unfold countBlendModes
  induction tokens.filterMap BlendMode.read? generalizing counters with
  | nil => exact h
  | cons mode rest ih => exact ih (h.count _)

theorem visit_of_static {counters : Counters} {e : Element}
    (h : e.attributes.hasStaticClasses = true) :
    visit counters e =
      let gradient := fixGradient e.attributes
      let shape := fixShape gradient.2 e.elements
      { state := countBlendModes (shape.verdict.tally
          (gradient.1.tally counters "gradientsFixed" "gradientsUnrecognized")
          "shapesFixed" "shapesUnrecognized") shape.attributes.classes
        attributes := shape.attributes
        forChildren := shape.forChildren
        fault? := none } := by
  unfold visit
  rw [if_pos h]

theorem visit_of_not_static {counters : Counters} {e : Element}
    (h : e.attributes.hasStaticClasses = false) : visit counters e = .keep counters e := by
  unfold visit
  rw [h, if_neg Bool.false_ne_true]

/-- A visit counts a change exactly where a gradient or a shape is corrected. -/
theorem isQuiet_visit_iff {counters : Counters} {e : Element} :
    (visit counters e).walk.IsQuiet Counters.IsIdle ↔ counters.IsIdle ∧ IsSettled e := by
  unfold IsSettled
  cases hstatic : e.attributes.hasStaticClasses with
  | false =>
    rw [visit_of_not_static hstatic]
    simp [Visit.keep, Visit.change, Visit.walk, Walk.IsQuiet]
  | true =>
    have hchange : (visit counters e).walk.IsQuiet Counters.IsIdle ↔
        counters.IsIdle ∧ (fixGradient e.attributes).1 ≠ .applied ∧
          (fixShape (fixGradient e.attributes).2 e.elements).verdict ≠ .applied := by
      rw [visit_of_static hstatic]
      refine (and_iff_right rfl).trans ?_
      dsimp only [Visit.walk]
      rw [isIdle_countBlendModes_iff, Verdict.isIdle_tally_iff (by decide) (by decide),
        Verdict.isIdle_tally_iff (by decide) (by decide), and_assoc]
    rw [hchange]
    refine and_congr_right fun _ => ?_
    constructor
    · rintro ⟨hg, hs⟩ -
      rw [fixGradient_attributes hg] at hs
      exact ⟨hg, hs⟩
    · intro h
      obtain ⟨hg, hs⟩ := h rfl
      rw [fixGradient_attributes hg]
      exact ⟨hg, hs⟩

theorem steady : IsSteady visit Counters.IsIdle fun _ => IsSettled where
  isQuiet_iff := isQuiet_visit_iff
  attributes_eq := by
    intro counters e h
    cases hstatic : e.attributes.hasStaticClasses with
    | false => rw [visit_of_not_static hstatic]; rfl
    | true =>
      obtain ⟨hg, hs⟩ := h hstatic
      rw [visit_of_static hstatic]
      dsimp only
      rw [fixGradient_attributes hg]
      exact (fixShape_leaves hs).attributes_eq
  forChildren_eq := by
    intro counters e h
    cases hstatic : e.attributes.hasStaticClasses with
    | false =>
      rw [visit_of_not_static hstatic]
      exact fun _ _ => rfl
    | true =>
      obtain ⟨hg, hs⟩ := h hstatic
      rw [visit_of_static hstatic]
      dsimp only
      rw [fixGradient_attributes hg]
      exact (fixShape_leaves hs).forChildren_eq

theorem arePositive_visit (counters : Counters) (e : Element) (h : counters.ArePositive) :
    (visit counters e).state.ArePositive := by
  cases hstatic : e.attributes.hasStaticClasses with
  | false => rw [visit_of_not_static hstatic]; exact h
  | true =>
    rw [visit_of_static hstatic]
    exact arePositive_countBlendModes
      (Verdict.arePositive_tally (Verdict.arePositive_tally h _ _ _) _ _ _) _

theorem isWalk : pass.IsWalk (fun _ => visit) (fun _ => []) id :=
  ⟨fun _ _ => rfl, fun _ _ => rfl, fun _ => rfl⟩

theorem isIdleOn_iff (d : Document) (c : Context) :
    pass.IsIdleOn d c ↔ ∀ e ∈ d.elements, IsSettled e :=
  (isWalk.isIdleOn_iff steady d).trans areSettled_iff_forall

end PostFixes

end MarkupTidy
