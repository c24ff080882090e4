import Mathlib.Logic.Function.Iterate
import MarkupTidy.Proofs.Pass.Flattening
import MarkupTidy.Proofs.Pass.Reported

/-! # Wrappers in wrappers

A wrapper is looked at before what is in it.  Where its only content is a wrapper in its turn, and not
yet an image, it is left alone; once that one has given way to its image, it is a wrapper itself.

* `VectorWrappers.isWrapper_eq`: a wrapper is a frame, and its only content is an image that can be
  given classes.
* `VectorWrappers.flattened`: what an element becomes, whatever has been counted before.
* `VectorWrappers.isOuterWrapper`: a frame around a wrapper; `VectorWrappers.isWrapper_mapChildren`:
  this is what makes a wrapper of an element that was none.
* `VectorWrappers.exists_iterate_flat`: the pass, run again and again, leaves no wrapper in the end.
* `VectorWrappers.flattened_iff_no_outer`: when one run of the pass leaves nothing for the next. -/

namespace MarkupTidy

namespace VectorWrappers

/-! ### The parts of a wrapper -/

/-- Whether an element is an absolutely positioned `div` that nothing keeps from being given up. -/
def isFrame (e : Element) : Bool :=
  e.tag = "div" && e.attributes.hasStaticClasses && e.attributes.classes.contains "absolute"
    && !e.attributes.classes.any isHolding

/-- Whether an element is an image that can be given classes. -/
def isFreeImage (e : Element) : Bool :=
  e.tag = "img" && (!e.attributes.has classAttribute || e.attributes.hasStaticClasses)

/-- The element that is the only content among nodes. -/
def onlyElement? (ns : List Node) : Option Element :=
  match ns.filter fun n => !n.isBlank with
  | [.element e] => some e
  | _ => none

theorem filter_of_onlyElement? {ns : List Node} {e : Element} (h : onlyElement? ns = some e) :
    ns.filter (fun n => !n.isBlank) = [.element e] := by
  unfold onlyElement? at h
  split at h
  · rename_i heq
    rw [heq, Option.some.inj h]
  · exact absurd h (by simp)

theorem singleImage?_eq_filter (ns : List Node) :
    singleImage? ns = (onlyElement? ns).filter fun e => e.tag = "img" := by
  unfold singleImage? onlyElement?
  generalize ns.filter (fun n => !n.isBlank) = content
  match content with
  | [] => rfl
  | [.element _] => simp [Option.filter]
  | [.text _] => rfl
  | [.expression _] => rfl
  | n :: n' :: rest => cases n <;> rfl

theorem isWrapper_eq (e : Element) :
    isWrapper e = (isFrame e && (onlyElement? e.children).any isFreeImage) := by
  unfold isWrapper
  rw [singleImage?_eq_filter, Option.any_filter]
  rfl

theorem isFrame_of_tag {e : Element} (h : e.tag ≠ "div") : isFrame e = false := by
  simp [isFrame, h]

theorem isWrapper_of_tag {e : Element} (h : e.tag ≠ "div") : isWrapper e = false := by
  rw [isWrapper_eq, isFrame_of_tag h, Bool.false_and]

/-- The image of a wrapper. -/
theorem exists_image_of_isWrapper {e : Element} (h : isWrapper e = true) :
    ∃ image, onlyElement? e.children = some image ∧ isFreeImage image = true := by
  rw [isWrapper_eq, Bool.and_eq_true, Option.any_eq_true] at h
  exact h.2

theorem tag_of_isFreeImage {e : Element} (h : isFreeImage e = true) : e.tag = "img" := by
  simp only [isFreeImage, Bool.and_eq_true, decide_eq_true_eq] at h
  exact h.1

/-! ### What an element becomes -/

mutual
theorem flattenElement_fst (count count' : Nat) :
    ∀ e : Element, (flattenElement count e).1 = (flattenElement count' e).1
  | ⟨tag, attributes, children⟩ => by
    rw [flattenElement, flattenElement]
    split
    · exact flattenImage_fst (count + 1) (count' + 1) attributes children
    · exact congrArg (Element.mk tag attributes) (flattenNodes_fst count count' children)

theorem flattenImage_fst (count count' : Nat) (wrapper : Attributes) :
    ∀ ns : List Node, (flattenImage count wrapper ns).1 = (flattenImage count' wrapper ns).1
  | [] => rfl
  | .element ⟨tag, attributes, children⟩ :: _ =>
    congrArg (Element.mk tag (takeOver wrapper attributes)) (flattenNodes_fst count count' children)
  | .text _ :: rest => flattenImage_fst count count' wrapper rest
  | .expression _ :: rest => flattenImage_fst count count' wrapper rest

theorem flattenNodes_fst (count count' : Nat) :
    ∀ ns : List Node, (flattenNodes count ns).1 = (flattenNodes count' ns).1
  | [] => rfl
  | .element e :: rest =>
    congrArg₂ (fun e rest => Node.element e :: rest) (flattenElement_fst count count' e)
      (flattenNodes_fst _ _ rest)
  | .text value :: rest => congrArg (Node.text value :: ·) (flattenNodes_fst count count' rest)
  | .expression source :: rest =>
    congrArg (Node.expression source :: ·) (flattenNodes_fst count count' rest)
end

/-- What an element becomes when wrappers are flattened. -/
def flattened (e : Element) : Element :=
  (flattenElement 0 e).1

/-- What a node becomes when wrappers are flattened. -/
def flattenedNode : Node → Node
  | .element e => .element (flattened e)
  | n => n

theorem flattenNodes_eq_map (count : Nat) (ns : List Node) :
    (flattenNodes count ns).1 = ns.map flattenedNode := by
  induction ns generalizing count with
  | nil => rfl
  | cons n rest ih =>
    cases n with
    | element e =>
      exact congrArg₂ (fun e rest => Node.element e :: rest) (flattenElement_fst count 0 e) (ih _)
    | text value => exact congrArg (Node.text value :: ·) (ih count)
    | expression source => exact congrArg (Node.expression source :: ·) (ih count)

theorem flattened_of_not_wrapper {tag : String} {attributes : Attributes} {children : List Node}
    (h : isWrapper ⟨tag, attributes, children⟩ = false) :
    flattened ⟨tag, attributes, children⟩ = ⟨tag, attributes, children.map flattenedNode⟩ := by
  rw [flattened, flattenElement, h, if_neg Bool.false_ne_true]
  exact congrArg (Element.mk tag attributes) (flattenNodes_eq_map 0 children)

theorem flattenImage_of_content (count : Nat) (wrapper : Attributes) {image : Element} {ns : List Node}
    (h : ns.filter (fun n => !n.isBlank) = [.element image]) :
    (flattenImage count wrapper ns).1
      = ⟨image.tag, takeOver wrapper image.attributes, image.children.map flattenedNode⟩ := by
  induction ns with
  | nil => exact absurd h (by simp)
  | cons n rest ih =>
    cases n with
    | element e =>
      obtain ⟨tag, attributes, children⟩ := e
      obtain rfl := Node.element.inj (List.cons.inj ((List.filter_cons_of_pos rfl).symm.trans h)).1
      exact congrArg (Element.mk tag (takeOver wrapper attributes)) (flattenNodes_eq_map count children)
    | text value => exact ih (filter_of_text_cons h)
    | expression source =>
      exact absurd (List.cons.inj ((List.filter_cons_of_pos rfl).symm.trans h)).1 (by simp)

theorem flattened_of_wrapper {tag : String} {attributes : Attributes} {children : List Node}
    (h : isWrapper ⟨tag, attributes, children⟩ = true) {image : Element}
    (himage : onlyElement? children = some image) :
    flattened ⟨tag, attributes, children⟩
      = ⟨image.tag, takeOver attributes image.attributes, image.children.map flattenedNode⟩ := by
  rw [flattened, flattenElement, h, if_pos rfl]
  exact flattenImage_of_content 1 attributes (filter_of_onlyElement? himage)

/-- An image that can be given classes comes of such an image, or of a wrapper. -/
theorem isFreeImage_flattened (e : Element) :
    isFreeImage (flattened e) = (isWrapper e || isFreeImage e) := by
  obtain ⟨tag, attributes, children⟩ := e
  cases h : isWrapper ⟨tag, attributes, children⟩ with
  | false =>
    rw [flattened_of_not_wrapper h, Bool.false_or]
    rfl
  | true =>
    obtain ⟨image, himage, hfree⟩ := exists_image_of_isWrapper h
    have hstatic : (takeOver attributes image.attributes).hasStaticClasses = true := by
      rw [Attributes.hasStaticClasses, text?_takeOver]
      rfl
    rw [flattened_of_wrapper h himage, Bool.true_or]
    simp [isFreeImage, tag_of_isFreeImage hfree, hstatic]

theorem onlyElement?_map (ns : List Node) :
    onlyElement? (ns.map flattenedNode) = (onlyElement? ns).map flattened := by
  have hblank : ((fun n => !n.isBlank) ∘ flattenedNode) = fun n => !n.isBlank :=
    funext fun n => by cases n <;> rfl
  unfold onlyElement?
  rw [List.filter_map, hblank]
  generalize ns.filter (fun n => !n.isBlank) = content
  match content with
  | [] => rfl
  | [.element _] => rfl
  | [.text _] => rfl
  | [.expression _] => rfl
  | n :: n' :: rest => cases n <;> rfl

/-! ### Frames around wrappers -/

/-- Whether an element is a frame around a wrapper. -/
def isOuterWrapper (e : Element) : Bool :=
  isFrame e && (onlyElement? e.children).any isWrapper

/-- A frame around an image is no frame around a wrapper. -/
theorem isOuterWrapper_of_isWrapper {e : Element} (h : isWrapper e = true) :
    isOuterWrapper e = false := by
  obtain ⟨image, himage, hfree⟩ := exists_image_of_isWrapper h
  have hplain : isWrapper image = false := by
    refine isWrapper_of_tag ?_
    rw [tag_of_isFreeImage hfree]
    decide
  rw [isOuterWrapper, himage, Option.any_some, hplain, Bool.and_false]

/-- When what is in an element has been flattened, the element is a wrapper if it was one, or if it was a
frame around one. -/
theorem isWrapper_mapChildren (tag : String) (attributes : Attributes) (children : List Node) :
    isWrapper ⟨tag, attributes, children.map flattenedNode⟩
      = (isOuterWrapper ⟨tag, attributes, children⟩ || isWrapper ⟨tag, attributes, children⟩) := by
  rw [isOuterWrapper, isWrapper_eq, isWrapper_eq ⟨tag, attributes, children⟩,
    ← Bool.and_or_distrib_left]
  refine congrArg (isFrame ⟨tag, attributes, children⟩ && ·) ?_
  dsimp only
  rw [onlyElement?_map]
  cases onlyElement? children with
  | none => rfl
  | some e => exact isFreeImage_flattened e

/-! ### Trees without wrappers -/

theorem preorderAll_of_onlyElement? {ns : List Node} {e : Element} (h : onlyElement? ns = some e) :
    Node.preorderAll ns = e.preorder := by
  have hcontent := filter_of_onlyElement? h
  clear h
  induction ns with
  | nil => exact absurd hcontent (by simp)
  | cons n rest ih =>
    cases n with
    | element e' =>
      obtain ⟨hfirst, hrest⟩ := List.cons.inj ((List.filter_cons_of_pos rfl).symm.trans hcontent)
      rw [Node.preorderAll, preorderAll_of_blank hrest, List.append_nil, Node.element.inj hfirst]
    | text value => exact ih (filter_of_text_cons hcontent)
    | expression source =>
      exact absurd (List.cons.inj ((List.filter_cons_of_pos rfl).symm.trans hcontent)).1 (by simp)

theorem forall_preorder {p : Element → Prop} {e : Element} :
    (∀ x ∈ e.preorder, p x) ↔ p e ∧ ∀ x ∈ Node.preorderAll e.children, p x := by
  obtain ⟨tag, attributes, children⟩ := e
  rw [Element.preorder, List.forall_mem_cons]

mutual
/-- What an element becomes has a wrapper in it exactly if the element has a frame around a wrapper. -/
theorem no_wrapper_flattened_iff : ∀ e : Element,
    (∀ x ∈ (flattened e).preorder, isWrapper x = false) ↔ ∀ x ∈ e.preorder, isOuterWrapper x = false
  | ⟨tag, attributes, children⟩ => by
    have hbelow := no_wrapper_map_iff children
    cases h : isWrapper ⟨tag, attributes, children⟩ with
    | false =>
      rw [flattened_of_not_wrapper h, forall_preorder, forall_preorder, isWrapper_mapChildren, h,
        Bool.or_false]
      exact and_congr_right fun _ => hbelow
    | true =>
      -- The children are the image and layout, so the statement about them is one about the image.
      obtain ⟨⟨itag, iattributes, ichildren⟩, himage, hfree⟩ := exists_image_of_isWrapper h
      have himg : itag = "img" := tag_of_isFreeImage hfree
      have hdiv : itag ≠ "div" := by
        rw [himg]
        decide
      have hmapped := onlyElement?_map children
      rw [himage, Option.map_some, flattened_of_not_wrapper (isWrapper_of_tag hdiv)] at hmapped
      rw [preorderAll_of_onlyElement? hmapped, preorderAll_of_onlyElement? himage, forall_preorder,
        and_iff_right (isWrapper_of_tag hdiv)] at hbelow
      rw [flattened_of_wrapper h himage, forall_preorder, forall_preorder,
        and_iff_right (isWrapper_of_tag hdiv), and_iff_right (isOuterWrapper_of_isWrapper h)]
      dsimp only
      rw [preorderAll_of_onlyElement? himage]
      exact hbelow

theorem no_wrapper_map_iff : ∀ ns : List Node,
    (∀ x ∈ Node.preorderAll (ns.map flattenedNode), isWrapper x = false) ↔
      ∀ x ∈ Node.preorderAll ns, isOuterWrapper x = false
  | [] => by simp [Node.preorderAll]
  | .element e :: rest => by
    rw [List.map_cons, flattenedNode, Node.preorderAll, Node.preorderAll, List.forall_mem_append,
      List.forall_mem_append, no_wrapper_flattened_iff e, no_wrapper_map_iff rest]
  | .text _ :: rest => no_wrapper_map_iff rest
  | .expression _ :: rest => no_wrapper_map_iff rest
end

theorem no_wrapper_flattenSegments_iff (count : Nat) (segments : List Segment) :
    (∀ x ∈ Document.elements ⟨(flattenSegments count segments).1⟩, isWrapper x = false) ↔
      ∀ x ∈ Document.elements ⟨segments⟩, isOuterWrapper x = false := by
  induction segments generalizing count with
  | nil => simp [flattenSegments, Document.elements, Document.roots]
  | cons segment rest ih =>
    cases segment with
    | code source => exact ih count
    | markup root =>
      rw [flattenSegments]
      dsimp only
      rw [Document.elements_markup, Document.elements_markup, List.forall_mem_append,
        List.forall_mem_append, ih, flattenElement_fst count 0]
      exact and_congr_left' (no_wrapper_flattened_iff root)

/-! ### Elements that go -/

mutual
/-- For every wrapper that is counted there is one element less. -/
theorem length_flattenElement (count : Nat) : ∀ e : Element,
    (flattenElement count e).1.preorder.length + (flattenElement count e).2
      = e.preorder.length + count
  | ⟨tag, attributes, children⟩ => by
    rw [flattenElement]
    split
    · rename_i h
      obtain ⟨image, himage, -⟩ := exists_image_of_isWrapper h
      have himg := length_flattenImage (count + 1) attributes children
        (filter_of_onlyElement? himage)
      rw [Element.preorder, List.length_cons]
      omega
    · have hbelow := length_flattenNodes count children
      dsimp only
      rw [Element.preorder, Element.preorder, List.length_cons, List.length_cons]
      omega

theorem length_flattenImage (count : Nat) (wrapper : Attributes) {image : Element} :
    ∀ ns : List Node, ns.filter (fun n => !n.isBlank) = [.element image] →
      (flattenImage count wrapper ns).1.preorder.length + (flattenImage count wrapper ns).2
        = (Node.preorderAll ns).length + count
  | [], h => absurd h (by simp)
  | .element ⟨tag, attributes, children⟩ :: rest, h => by
    have hbelow := length_flattenNodes count children
    have hrest := (List.cons.inj ((List.filter_cons_of_pos rfl).symm.trans h)).2
    rw [Node.preorderAll, preorderAll_of_blank hrest, List.append_nil, flattenImage]
    dsimp only
    rw [Element.preorder, Element.preorder, List.length_cons, List.length_cons]
    omega
  | .text _ :: rest, h => length_flattenImage count wrapper rest (filter_of_text_cons h)
  | .expression _ :: rest, h =>
    absurd (List.cons.inj ((List.filter_cons_of_pos rfl).symm.trans h)).1 (by simp)

theorem length_flattenNodes (count : Nat) : ∀ ns : List Node,
    (Node.preorderAll (flattenNodes count ns).1).length + (flattenNodes count ns).2
      = (Node.preorderAll ns).length + count
  | [] => rfl
  | .element e :: rest => by
    have hfirst := length_flattenElement count e
    have hrest := length_flattenNodes (flattenElement count e).2 rest
    rw [flattenNodes]
    dsimp only
    rw [Node.preorderAll, Node.preorderAll, List.length_append, List.length_append]
    omega
  | .text _ :: rest => length_flattenNodes count rest
  | .expression _ :: rest => length_flattenNodes count rest
end

theorem length_flattenSegments (count : Nat) (segments : List Segment) :
    (Document.elements ⟨(flattenSegments count segments).1⟩).length
        + (flattenSegments count segments).2
      = (Document.elements ⟨segments⟩).length + count := by
  induction segments generalizing count with
  | nil => simp [flattenSegments, Document.elements, Document.roots]
  | cons segment rest ih =>
    cases segment with
    | code source => exact ih count
    | markup root =>
      have hroot := length_flattenElement count root
      have hrest := ih (flattenElement count root).2
      rw [flattenSegments]
      dsimp only
      rw [Document.elements_markup, Document.elements_markup, List.length_append,
        List.length_append]
      omega

/-! ### Documents -/

theorem document_eq_iff (d : Document) (c : Context) :
    (pass.run d c).document = d ↔ ∀ e ∈ d.elements, isWrapper e = false :=
  ⟨fun h => (flattenSegments_eq_iff 0).1 (count_flattenSegments_of_eq 0 (congrArg Document.segments h)),
    run_document c⟩

theorem result_eq_nil_iff (d : Document) (c : Context) :
    (pass.run d c).result = .ok [] ↔ ∀ e ∈ d.elements, isWrapper e = false := by
  rw [← flattenSegments_eq_iff 0]
  unfold pass
  dsimp only
  split <;> simp [*]

/-- Runs of the pass come to an end: there are elements to give up for as long as there are wrappers. -/
theorem exists_iterate_flat (d : Document) (c : Context) :
    ∃ n ≤ d.elements.length,
      ∀ e ∈ ((fun d => (pass.run d c).document)^[n] d).elements, isWrapper e = false := by
  induction h : d.elements.length using Nat.strong_induction_on generalizing d with
  | _ length ih =>
    by_cases hflat : ∀ e ∈ d.elements, isWrapper e = false
    · exact ⟨0, Nat.zero_le _, hflat⟩
    · have hcount : (flattenSegments 0 d.segments).2 ≠ 0 := mt (flattenSegments_eq_iff 0).1 hflat
      have hlength : (pass.run d c).document.elements.length + (flattenSegments 0 d.segments).2
          = length := (length_flattenSegments 0 d.segments).trans h
      obtain ⟨n, hn, hrest⟩ := ih (pass.run d c).document.elements.length (by omega) _ rfl
      exact ⟨n + 1, by omega, hrest⟩

/-- One run of the pass leaves no wrapper, and nothing for another run to change or to count, exactly if
no wrapper was the only content of a frame. -/
theorem flattened_iff_no_outer (d : Document) (c : Context) :
    let once := (pass.run d c).document
    ((∀ e ∈ once.elements, isWrapper e = false) ↔ ∀ e ∈ d.elements, isOuterWrapper e = false) ∧
      ((pass.run once c).document = once ↔ ∀ e ∈ d.elements, isOuterWrapper e = false) ∧
      ((pass.run once c).result = .ok [] ↔ ∀ e ∈ d.elements, isOuterWrapper e = false) := by
  have hiff := no_wrapper_flattenSegments_iff 0 d.segments
  exact ⟨hiff, (document_eq_iff _ c).trans hiff, (result_eq_nil_iff _ c).trans hiff⟩

/-- An image in two frames. -/
def nestedWrapper : Document :=
  ⟨[.markup ⟨"div", [⟨"className", .text "absolute"⟩],
    [.element ⟨"div", [⟨"className", .text "absolute"⟩],
      [.element ⟨"img", [⟨"src", .expression "a"⟩], []⟩]⟩]⟩]⟩

/-- One run leaves a wrapper, which a second run flattens. -/
theorem nestedWrapper_not_flattened :
    let once := (pass.run nestedWrapper (.new .empty none)).document
    ¬ (∀ e ∈ once.elements, isWrapper e = false) ∧
      (pass.run once (.new .empty none)).document ≠ once := by
  intro once
  rw [Ne, document_eq_iff, and_self]
  exact fun h => absurd (h _ List.mem_cons_self) (by decide +kernel)

end VectorWrappers

end MarkupTidy
