import MarkupTidy.Pass.Builtin
import MarkupTidy.Proofs.OrderedMap
import MarkupTidy.Proofs.Pass.Cleanup
import MarkupTidy.Proofs.Pass.Graphics
import MarkupTidy.Proofs.Pass.Resolving
import MarkupTidy.Proofs.Pass.SoundWalk

/-! # The built-in passes keep modules sound

What a built-in pass writes is safe where what it has read is: class tokens, inline styles, names
and styles layered over an expression.

* `isSoundVisit` for each pass that is a walk.
* `VectorWrappers.keepsSound`: images in the place of their wrappers.
* `keepsSound_builtin`: all built-in passes, as long as there are no assets. -/

namespace MarkupTidy

open MarkupTidy.Markup MarkupTidy.Text

variable {design : VariableTable}

/-! ### Styles -/

namespace Style

theorem IsSafe.set {s : Style} (h : s.IsSafe design) {key : String} {value : StyleValue}
    (hkey : HoldsNoClasses (printKey key)) (hvalue : value.IsSafe design) :
    (s.set key value).IsSafe design := by
  intro entry hentry
  obtain hentry | rfl := OrderedMap.mem_insert hentry
  · exact h entry hentry
  · exact ⟨hkey, hvalue⟩

theorem IsSafe.setNew {s : Style} (h : s.IsSafe design) {key : String} {value : StyleValue}
    (hkey : HoldsNoClasses (printKey key)) (hvalue : value.IsSafe design) :
    (s.setNew key value).IsSafe design := by
  unfold Style.setNew
  split
  · exact h
  · exact h.set hkey hvalue

end Style

/-! ### Typefaces -/

namespace FontDetection

theorem isSafe_mergeFont {s font : Style} (hs : s.IsSafe design) (hfont : font.IsSafe design) :
    (mergeFont s font).IsSafe design := by
  obtain ⟨entries⟩ := font
  unfold mergeFont
  induction entries generalizing s with
  | nil => exact hs
  | cons entry rest ih =>
    obtain ⟨⟨hkey, hvalue⟩, hrest⟩ := List.forall_mem_cons.1 hfont
    exact ih (hs.setNew hkey hvalue) hrest

theorem exists_of_firstFont? {tokens : List String} {font : FontClass}
    (h : firstFont? tokens = some font) : ∃ t ∈ tokens, FontClass.read? t = some font :=
  List.exists_of_findSome?_eq_some h

/-- A style expression that is layered over a typeface. -/
theorem areSound_layered {as : Attributes} (h : as.AreSound design) {source : String}
    (hsource : as.value? "style" = some (.expression source)) {font : FontClass}
    (hfont : font.style.IsSafe design) :
    (as.set "style" (.expression (String.ofList (layerStyle source.toList font.style)))).AreSound
      design := by
  have hname : IsName "style" := by decide
  have hne : font.style.entries ≠ [] := List.cons_ne_nil _ _
  have hlayered := isSweepable_layerStyle hne hfont
    ((h _ (Attributes.mem_of_value? hsource)).safe.2 rfl)
  refine h.set ⟨Or.inr hname, ?_⟩
  unfold Attribute.IsSafe
  dsimp only
  rw [String.toList_ofList, trim_layerStyle hne]
  exact ⟨hlayered, fun _ => hlayered⟩

theorem isSoundVisit : IsSoundVisit design visit where
  attributes := by
    intro st e h
    unfold visit
    split
    · exact h
    · rename_i font hfont
      obtain ⟨t, ht, hread⟩ := exists_of_firstFont? hfont
      obtain ⟨hsafe, hsolid⟩ := h.classes t ht
      have hstyle := FontClass.isSafe_style design hsafe hsolid hread
      dsimp only
      split
      · rename_i s hs
        split
        · exact h
        · exact h.setStyle (isSafe_mergeFont (h.isSafe_styleOrNew hs) hstyle)
      · split
        · rename_i source hsource
          exact areSound_layered h hsource hstyle
        · exact h
  forChildren := by
    intro st e _
    unfold visit
    split
    · exact AttributeChange.keepsSound_none
    · dsimp only
      split
      · split <;> exact AttributeChange.keepsSound_none
      · split <;> exact AttributeChange.keepsSound_none

end FontDetection

/-! ### Classes -/

namespace ClassCleanup

theorem isSafeToken_cleanTokens (counters : Counters) {tokens : List String}
    (h : ∀ t ∈ tokens, IsSafeToken t) : ∀ t ∈ (cleanTokens counters tokens).2, IsSafeToken t := by
  have hsizes : ∀ size ∈ textSizes, IsPlainToken size.2 := by decide
  have hfull : IsPlainToken "w-full" := by decide
  intro t ht
  obtain ⟨hmem, -⟩ | ⟨size, hsize, rfl⟩ | rfl := mem_cleanTokens_cases ht
  · exact h t hmem
  · exact (hsizes size hsize).isSafeToken
  · exact hfull.isSafeToken

theorem areSound_containOverflow (st : State) {e : Element} (h : e.attributes.AreSound design) :
    (containOverflow st e).2.AreSound design := by
  have hoverflow : IsPlainToken overflowClass := by decide
  unfold containOverflow
  split
  · dsimp only
    split
    · exact h
    · exact h.setClasses (List.forall_mem_append.2
        ⟨fun t ht => (h.classes t ht).1, List.forall_mem_singleton.2 hoverflow.isSafeToken⟩)
  · exact h

theorem isSoundVisit : IsSoundVisit design visit where
  attributes := by
    intro st e h
    cases hstatic : e.attributes.hasStaticClasses with
    | false =>
      rw [visit_of_not_static hstatic]
      exact h
    | true =>
      have hcontained := areSound_containOverflow (noted st e) h
      rw [visit_of_static hstatic]
      dsimp only [Visit.change]
      split
      · exact hcontained
      · exact hcontained.setClasses
          (isSafeToken_cleanTokens _ fun t ht => (hcontained.classes t ht).1)
  forChildren := by
    intro st e _
    rw [forChildren_visit]
    exact AttributeChange.keepsSound_none

end ClassCleanup

namespace ClassOptimizer

theorem isSafeToken_optimize {tokens : List String} (h : ∀ t ∈ tokens, IsSafeToken t) :
    ∀ t ∈ dedupe (optimize tokens), IsSafeToken t := by
  have hmap : ∀ t ∈ tokens.map optimizeToken, IsSafeToken t :=
    List.forall_mem_map.2 fun t ht => isSafeToken_optimizeToken (h t ht)
  exact fun t ht => isSafeToken_mergeSquare hmap t ((dedupeFrom_sublist [] _).subset ht)

theorem isSoundVisit : IsSoundVisit design visit where
  attributes := by
    intro counters e h
    unfold visit
    split
    · dsimp only [Visit.change]
      split
      · exact h
      · exact h.setClasses (isSafeToken_optimize fun t ht => (h.classes t ht).1)
    · exact h
  forChildren := by
    intro counters e _
    unfold visit
    split <;> exact AttributeChange.keepsSound_none

end ClassOptimizer

/-! ### Variables -/

namespace CssVariables

theorem areSound_resolveClasses (st : State) {as : Attributes} (h : as.AreSound design) :
    (resolveClasses design st as).2.AreSound design := by
  unfold resolveClasses
  split
  · dsimp only
    split
    · exact h
    · refine h.setClasses (List.forall_mem_map.2 fun t ht => ?_)
      obtain ⟨hsafe, hsolid⟩ := h.classes t ht
      exact isSafeToken_tokenChange design hsafe fun hline => absurd (hsolid _ hline) (by decide)
  · exact h

theorem isSafe_normalizeStyle {s : Style} (h : s.IsSafe design) :
    (normalizeStyle s).IsSafe design := by
  refine List.forall_mem_map.2 fun entry hentry => ?_
  obtain ⟨key, value⟩ := entry
  obtain ⟨hkey, hvalue⟩ := h _ hentry
  refine ⟨hkey, ?_⟩
  cases value with
  | text value =>
    show IsStyleText (String.ofList _).toList
    rw [String.toList_ofList]
    exact IsStyleText.normalizeReferences hvalue
  | int value => exact trivial
  | float value => exact trivial
  | truth value => exact trivial
  | raw source => exact hvalue

theorem areSound_cleanStyle (counters : Counters) {as : Attributes} (h : as.AreSound design) :
    (cleanStyle counters as).2.AreSound design := by
  unfold cleanStyle
  split
  · exact h
  · rename_i s hs
    split
    · exact h
    · exact h.setStyle (isSafe_normalizeStyle (h.isSafe_style hs))

theorem isSoundVisit : IsSoundVisit design (visit design) where
  attributes := fun st _ h => areSound_cleanStyle _ (areSound_resolveClasses st h)
  forChildren := fun _ _ _ => AttributeChange.keepsSound_none

end CssVariables

/-! ### Visual corrections -/

namespace PostFixes

theorem areSound_fixGradient {as : Attributes} (h : as.AreSound design) :
    (fixGradient as).2.AreSound design := by
  have hkey : HoldsNoClasses (Style.printKey "background") := by decide +kernel
  obtain ⟨-, hkept⟩ | ⟨value, used, s, hfound, hs, -, hwritten⟩ := fixGradient_cases as
  · rw [hkept]
    exact h
  · have hvalue : StyleValue.IsSafe design (.text value) := Gradient.isStyleText_classify (fun t ht =>
      (h.classes t ht).1.isStyleText (h.classes t ht).2) hfound
    rw [hwritten]
    exact (h.setStyle ((h.isSafe_styleOrNew hs).set hkey hvalue)).setClasses
      fun t ht => (h.classes t (List.mem_filter.1 ht).1).1

/-- The attributes that a shape correction leaves are sound, and so are those that it gives to
children. -/
structure ShapeFix.KeepsSound (design : VariableTable) (f : ShapeFix) : Prop where
  attributes : f.attributes.AreSound design
  forChildren : f.forChildren.KeepsSound design

theorem ShapeFix.keepsSound_none (v : Verdict) {as : Attributes} (h : as.AreSound design) :
    (ShapeFix.none v as).KeepsSound design :=
  ⟨h, AttributeChange.keepsSound_none⟩

theorem keepsSound_containImage : AttributeChange.KeepsSound design containImage := by
  have hcontain : IsPlainToken containClass := by decide
  intro tag as h
  unfold containImage
  split
  · exact h.setClasses (List.forall_mem_append.2
      ⟨fun t ht => (h.classes t ht).1, List.forall_mem_singleton.2 hcontain.isSafeToken⟩)
  · exact h

theorem keepsSound_fixPointed {name : String} (hname : name = "star" ∨ name = "polygon")
    {as : Attributes} (h : as.AreSound design) (children : List Element) :
    (fixPointed name as children).KeepsSound design := by
  have hshape : IsName "data-shape" ∧ ¬classAttribute.toList <:+ "data-shape".toList := by decide
  have hvalue : IsSafeToken name := by
    obtain rfl | rfl := hname
    · exact (show IsPlainToken "star" by decide).isSafeToken
    · exact (show IsPlainToken "polygon" by decide).isSafeToken
  refine ⟨?_, keepsSound_containImage⟩
  unfold fixPointed
  dsimp only
  split
  · exact h.setText hshape.1 (Or.inl hvalue.2) hvalue.1 hshape.2
  · exact h

theorem keepsSound_fixShape {as : Attributes} (h : as.AreSound design) (children : List Element) :
    (fixShape as children).KeepsSound design := by
  have hheight : IsPlainToken "h-px" := by decide
  have hfix := isShapeFix_fixShape as children
  generalize fixShape as children = f at hfix ⊢
  cases hfix with
  | kept => exact ShapeFix.keepsSound_none _ h
  | line =>
    refine ShapeFix.keepsSound_none _ (h.setClasses (List.forall_mem_map.2 fun t ht => ?_))
    unfold visibleHeight
    split
    · exact hheight.isSafeToken
    · exact (h.classes t ht).1
  | pointed hname => exact keepsSound_fixPointed hname h children
  | round =>
    refine ShapeFix.keepsSound_none _ (h.setClasses (List.forall_mem_append.2
      ⟨fun t ht => (h.classes t (List.mem_filter.1 ht).1).1, ?_⟩))
    exact List.forall_mem_singleton.2 (isSafeToken_cornerRadius ..)

theorem isSoundVisit : IsSoundVisit design visit where
  attributes := by
    intro counters e h
    cases hstatic : e.attributes.hasStaticClasses with
    | false =>
      rw [visit_of_not_static hstatic]
      exact h
    | true =>
      rw [visit_of_static hstatic]
      exact (keepsSound_fixShape (areSound_fixGradient h) e.elements).attributes
  forChildren := by
    intro counters e h
    cases hstatic : e.attributes.hasStaticClasses with
    | false =>
      rw [visit_of_not_static hstatic]
      exact AttributeChange.keepsSound_none
    | true =>
      rw [visit_of_static hstatic]
      exact (keepsSound_fixShape (areSound_fixGradient h) e.elements).forChildren

end PostFixes

/-! ### Wrappers -/

namespace VectorWrappers

theorem areSound_takeOver {wrapper image : Attributes} (hwrapper : wrapper.AreSound design)
    (himage : image.AreSound design) : (takeOver wrapper image).AreSound design := by
  have hclasses : (image.setClasses (wrapper.classes ++ image.classes)).AreSound design :=
    himage.setClasses (List.forall_mem_append.2
      ⟨fun t ht => (hwrapper.classes t ht).1, fun t ht => (himage.classes t ht).1⟩)
  unfold takeOver
  generalize image.setClasses (wrapper.classes ++ image.classes) = as at hclasses
  induction carriedNames generalizing as with
  | nil => exact hclasses
  | cons name rest ih =>
    rw [List.foldl_cons]
    refine ih _ ?_
    split
    · rename_i value hvalue
      exact hclasses.set (hwrapper _ (Attributes.mem_of_text? hvalue))
    · exact hclasses

theorem map_bare_flattenNodes (count : Nat) (ns : List Node) :
    (flattenNodes count ns).1.map Node.bare = ns.map Node.bare := by
  induction ns generalizing count with
  | nil => rfl
  | cons n ns ih =>
    cases n with
    | element e => exact congrArg (_ :: ·) (ih _)
    | text value => exact congrArg (_ :: ·) (ih count)
    | expression source => exact congrArg (_ :: ·) (ih count)

mutual
theorem areSound_flattenElement (count : Nat) :
    ∀ e : Element, (∀ x ∈ e.preorder, x.IsSound design) →
      ∀ x ∈ (flattenElement count e).1.preorder, x.IsSound design
  | ⟨tag, attributes, children⟩ => by
    intro h
    obtain ⟨he, hbelow⟩ := List.forall_mem_cons.1 h
    rw [flattenElement]
    split
    · exact areSound_flattenImage (count + 1) he.attributes children hbelow
    · exact List.forall_mem_cons.2 ⟨he.withParts he.attributes (map_bare_flattenNodes ..),
        areSound_flattenNodes count children hbelow⟩

theorem areSound_flattenImage (count : Nat) {wrapper : Attributes}
    (hwrapper : wrapper.AreSound design) :
    ∀ ns : List Node, (∀ x ∈ Node.preorderAll ns, x.IsSound design) →
      ∀ x ∈ (flattenImage count wrapper ns).1.preorder, x.IsSound design
  | [] => by
    intro _
    have hname : IsName "img" := by decide
    have himage : (takeOver wrapper []).AreSound design :=
      areSound_takeOver hwrapper (List.forall_mem_nil _)
    exact List.forall_mem_singleton.2 ⟨Or.inr hname, himage, trivial, List.forall_mem_nil _⟩
  | .element ⟨tag, attributes, children⟩ :: rest => by
    intro h
    obtain ⟨he, hbelow⟩ := List.forall_mem_cons.1 (List.forall_mem_append.1 h).1
    exact List.forall_mem_cons.2
      ⟨he.withParts (areSound_takeOver hwrapper he.attributes) (map_bare_flattenNodes ..),
        areSound_flattenNodes count children hbelow⟩
  | .text _ :: rest => areSound_flattenImage count hwrapper rest
  | .expression _ :: rest => areSound_flattenImage count hwrapper rest

theorem areSound_flattenNodes (count : Nat) :
    ∀ ns : List Node, (∀ x ∈ Node.preorderAll ns, x.IsSound design) →
      ∀ x ∈ Node.preorderAll (flattenNodes count ns).1, x.IsSound design
  | [] => fun h => h
  | .element e :: rest => by
    intro h
    obtain ⟨he, hrest⟩ := List.forall_mem_append.1 h
    rw [flattenNodes]
    exact List.forall_mem_append.2
      ⟨areSound_flattenElement count e he, areSound_flattenNodes _ rest hrest⟩
  | .text _ :: rest => areSound_flattenNodes count rest
  | .expression _ :: rest => areSound_flattenNodes count rest
end

/-- All elements among the children of a wrapper are images. -/
theorem tag_of_isWrapper {e x : Element} (h : isWrapper e = true) (hx : .element x ∈ e.children) :
    x.tag = "img" := by
  unfold isWrapper at h
  rw [Bool.and_eq_true, Option.any_eq_true] at h
  obtain ⟨-, image, himage, -⟩ := h
  unfold singleImage? at himage
  have hmem : Node.element x ∈ e.children.filter fun n => !n.isBlank := List.mem_filter.2 ⟨hx, rfl⟩
  split at himage
  · rename_i e' hcontent
    rw [hcontent, List.mem_singleton] at hmem
    obtain rfl := Node.element.inj hmem
    split at himage
    · assumption
    · exact absurd himage (by simp)
  · exact absurd himage (by simp)

theorem tag_flattenImage (count : Nat) (wrapper : Attributes) {ns : List Node}
    (h : ∀ x, .element x ∈ ns → x.tag = "img") : (flattenImage count wrapper ns).1.tag = "img" := by
  induction ns with
  | nil => rfl
  | cons n ns ih =>
    cases n with
    | element e =>
      obtain ⟨tag, attributes, children⟩ := e
      exact h ⟨tag, attributes, children⟩ List.mem_cons_self
    | text value => exact ih fun x hx => h x (List.mem_cons_of_mem _ hx)
    | expression source => exact ih fun x hx => h x (List.mem_cons_of_mem _ hx)

theorem opensRoot_flattenElement (count : Nat) {e : Element} (h : OpensRoot e.tag) :
    OpensRoot (flattenElement count e).1.tag := by
  have himage : OpensRoot "img" := by decide
  obtain ⟨tag, attributes, children⟩ := e
  rw [flattenElement]
  split
  · rename_i hwrapper
    rw [tag_flattenImage _ _ fun x hx => tag_of_isWrapper hwrapper hx]
    exact himage
  · exact h

theorem isCode_head_flattenSegments (count : Nat) (segments : List Segment) :
    (flattenSegments count segments).1.head?.any Segment.isCode =
      segments.head?.any Segment.isCode := by
  cases segments with
  | nil => rfl
  | cons s rest => cases s <;> rfl

theorem areSound_flattenSegments (count : Nat) {segments : List Segment}
    (h : Segment.AreSound design segments) :
    Segment.AreSound design (flattenSegments count segments).1 := by
  induction segments generalizing count with
  | nil => trivial
  | cons s rest ih =>
    obtain ⟨hs, hapart, hrest⟩ := h
    cases s with
    | code source =>
      refine ⟨hs, fun hcode => ?_, ih count hrest⟩
      rw [isCode_head_flattenSegments]
      exact hapart hcode
    | markup root =>
      exact ⟨⟨areSound_flattenElement count root hs.1, opensRoot_flattenElement count hs.2⟩,
        fun hcode => Bool.noConfusion hcode, ih _ hrest⟩

theorem keepsSound : pass.KeepsSound :=
  fun _ _ _ h => areSound_flattenSegments 0 h

end VectorWrappers

/-! ### All passes -/

/-- As long as there are no assets, the built-in passes keep a module sound. -/
theorem keepsSound_builtin : ∀ p ∈ builtinPasses, p.KeepsSound := by
  have hcomposites : VectorComposites.pass.KeepsSound := by
    intro d c hc h
    rw [VectorComposites.run_document d hc]
    exact h
  simp only [builtinPasses, List.forall_mem_cons]
  exact ⟨FontDetection.isWalk.keepsSound fun _ => FontDetection.isSoundVisit,
    ClassCleanup.isWalk.keepsSound fun _ => ClassCleanup.isSoundVisit,
    hcomposites, VectorWrappers.keepsSound,
    PostFixes.isWalk.keepsSound fun _ => PostFixes.isSoundVisit,
    CssVariables.isWalk.keepsSound fun _ => CssVariables.isSoundVisit,
    ClassOptimizer.isWalk.keepsSound fun _ => ClassOptimizer.isSoundVisit, by simp⟩

end MarkupTidy
