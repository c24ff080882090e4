import MarkupTidy.Pass.VectorWrappers
import MarkupTidy.Proofs.Pass.Frame
import MarkupTidy.Proofs.Utility.ClassTokens

/-! # What an image takes over from its wrapper

A wrapper that is flattened gives way to its image.  The image is given the class tokens of the wrapper,
in front of its own, and two of its names; all else that the wrapper had is lost, unless the image has
it as well.

* `Attributes.mem_setAll_iff`: the attributes that there are after several have been set.
* `VectorWrappers.handedOver`, `VectorWrappers.ownAttributes`: what the image is given, and what it keeps.
* `VectorWrappers.CarriesOver`: an image that has all that its wrapper had.
* `VectorWrappers.carriesOver_iff`: the wrappers of a document that are flattened, and when nothing of
  them is lost. -/

namespace MarkupTidy

/-! ### Setting and removing attributes -/

namespace Attributes

theorem mem_set_iff {as : Attributes} {name : String} {value : AttributeValue} {a : Attribute} :
    a ∈ as.set name value ↔ a = ⟨name, value⟩ ∨ a ∈ as.remove name := by
  induction as with
  | nil => simp [set, remove]
  | cons first rest ih =>
    rw [set, remove]
    split
    · rw [List.mem_cons]
    · rw [List.mem_cons, ih, List.mem_cons]
      exact or_left_comm

theorem remove_comm (as : Attributes) (name other : String) :
    (as.remove name).remove other = (as.remove other).remove name := by
  induction as with
  | nil => rfl
  | cons first rest ih => by_cases h : first.name = name <;> by_cases h' : first.name = other <;>
      simp_all [remove]

theorem remove_set_of_ne {name other : String} (h : name ≠ other) (as : Attributes)
    (value : AttributeValue) : (as.set name value).remove other = (as.remove other).set name value := by
  induction as with
  | nil => simp [set, remove, h]
  | cons first rest ih => by_cases hn : first.name = name <;> by_cases ho : first.name = other <;>
      simp_all [set, remove]

/-- Sets several attributes in turn. -/
def setAll (given as : Attributes) : Attributes :=
  given.foldl (fun as a => as.set a.name a.value) as

/-- Takes away the first attribute of each of several names. -/
def removeAll (given as : Attributes) : Attributes :=
  given.foldl (fun as a => as.remove a.name) as

theorem setAll_cons (a : Attribute) (given as : Attributes) :
    setAll (a :: given) as = setAll given (as.set a.name a.value) :=
  rfl

theorem value?_setAll_of_ne {given : Attributes} {name : String} (h : ∀ a ∈ given, a.name ≠ name)
    (as : Attributes) : (setAll given as).value? name = as.value? name := by
  induction given generalizing as with
  | nil => rfl
  | cons first rest ih =>
    obtain ⟨hfirst, hrest⟩ := List.forall_mem_cons.1 h
    rw [setAll_cons, ih hrest, value?_set_ne _ _ hfirst]

theorem removeAll_remove (given as : Attributes) (name : String) :
    removeAll given (as.remove name) = (removeAll given as).remove name := by
  induction given generalizing as with
  | nil => rfl
  | cons first rest ih => rw [removeAll, List.foldl_cons, remove_comm]; exact ih _

theorem removeAll_set {given : Attributes} {name : String} (h : ∀ a ∈ given, a.name ≠ name)
    (as : Attributes) (value : AttributeValue) :
    removeAll given (as.set name value) = (removeAll given as).set name value := by
  induction given generalizing as with
  | nil => rfl
  | cons first rest ih =>
    obtain ⟨hfirst, hrest⟩ := List.forall_mem_cons.1 h
    rw [removeAll, List.foldl_cons, remove_set_of_ne hfirst.symm]
    exact ih hrest _

/-- Where no name is set twice, the attributes are those that were set, and the others but for the first
of each of these names. -/
theorem mem_setAll_iff {given : Attributes} (h : (given.map Attribute.name).Nodup) {as : Attributes}
    {a : Attribute} : a ∈ setAll given as ↔ a ∈ given ∨ a ∈ removeAll given as := by
  induction given generalizing as with
  | nil => simp [setAll, removeAll]
  | cons first rest ih =>
    obtain ⟨hfirst, hrest⟩ := List.nodup_cons.1 h
    have hne : ∀ b ∈ rest, b.name ≠ first.name := fun b hb heq =>
      hfirst (List.mem_map.2 ⟨b, hb, heq⟩)
    rw [setAll_cons, ih hrest, removeAll_set hne, mem_set_iff,
      ← removeAll_remove, List.mem_cons]
    exact or_left_comm.trans or_assoc.symm

end Attributes

namespace VectorWrappers

open Attributes

/-! ### One wrapper -/

/-- What an image is given by its wrapper: the class tokens of both, and the names that the wrapper has
as texts. -/
def handedOver (wrapper image : Attributes) : Attributes :=
  ⟨classAttribute, .text (joinTokens (wrapper.classes ++ image.classes))⟩
    :: carriedNames.filterMap fun name =>
      (wrapper.text? name).map fun value => ⟨name, .text value⟩

/-- What an image keeps of its own: all but the first attribute of each name that it is given. -/
def ownAttributes (wrapper image : Attributes) : Attributes :=
  removeAll (handedOver wrapper image) image

/-- The attributes of an image in the place of its wrapper. -/
structure TakesOver (wrapper image result : Attributes) : Prop where
  classes : result.classes = wrapper.classes ++ image.classes
  mem_iff : ∀ a, a ∈ result ↔ a ∈ handedOver wrapper image ∨ a ∈ ownAttributes wrapper image

/-- The attributes of an image that has all that its wrapper had: the class tokens, in front of its own,
and every attribute besides. -/
structure CarriesOver (wrapper image result : Attributes) : Prop where
  classes : result.classes = wrapper.classes ++ image.classes
  others : ∀ a ∈ wrapper.remove classAttribute, a ∈ result

/-- Nothing of a wrapper is lost: the image is given it, or has it and keeps it. -/
def IsCarried (wrapper image : Attributes) : Prop :=
  ∀ a ∈ wrapper.remove classAttribute,
    a ∈ handedOver wrapper image ∨ a ∈ ownAttributes wrapper image

instance (wrapper image : Attributes) : Decidable (IsCarried wrapper image) :=
  inferInstanceAs (Decidable (∀ _ ∈ _, _))

theorem takeOver_eq_setAll (wrapper image : Attributes) :
    takeOver wrapper image = setAll (handedOver wrapper image) image := by
  rw [handedOver, setAll_cons, setAll, List.foldl_filterMap]
  refine congrArg (fun step => carriedNames.foldl step (image.setClasses _)) ?_
  funext as name
  cases wrapper.text? name <;> rfl

theorem nodup_handedOver (wrapper image : Attributes) :
    ((handedOver wrapper image).map Attribute.name).Nodup := by
  have hnames : (classAttribute :: carriedNames).Nodup := by decide
  refine hnames.sublist (List.Sublist.cons_cons _ ?_)
  induction carriedNames with
  | nil => exact .slnil
  | cons name rest ih =>
    rw [List.filterMap_cons]
    cases wrapper.text? name with
    | none => exact ih.cons _
    | some value => exact ih.cons_cons _

theorem text?_takeOver (wrapper image : Attributes) :
    (takeOver wrapper image).text? classAttribute
      = some (joinTokens (wrapper.classes ++ image.classes)) := by
  have hnames : ∀ name ∈ carriedNames, name ≠ classAttribute := by decide
  have hothers : ∀ a ∈ carriedNames.filterMap fun name =>
      (wrapper.text? name).map fun value => (⟨name, .text value⟩ : Attribute),
      a.name ≠ classAttribute := by
    intro a ha
    obtain ⟨name, hname, ha⟩ := List.mem_filterMap.1 ha
    obtain ⟨value, -, rfl⟩ := Option.map_eq_some_iff.1 ha
    exact hnames name hname
  rw [takeOver_eq_setAll, handedOver, setAll_cons, text?, value?_setAll_of_ne hothers,
    value?_set_self]

theorem takesOver_takeOver (wrapper image : Attributes) :
    TakesOver wrapper image (takeOver wrapper image) where
  classes := by
    have htokens : ∀ t ∈ wrapper.classes ++ image.classes, IsToken t := List.forall_mem_append.2
      ⟨fun _ => isToken_of_mem_classes, fun _ => isToken_of_mem_classes⟩
    rw [Attributes.classes, text?_takeOver]
    exact classTokens_joinTokens htokens
  mem_iff a := by
    rw [takeOver_eq_setAll]
    exact mem_setAll_iff (nodup_handedOver wrapper image)

theorem carriesOver_takeOver_iff {wrapper image : Attributes} :
    CarriesOver wrapper image (takeOver wrapper image) ↔ IsCarried wrapper image := by
  have htakes := takesOver_takeOver wrapper image
  exact ⟨fun h a ha => (htakes.mem_iff a).1 (h.others a ha),
    fun h => ⟨htakes.classes, fun a ha => (htakes.mem_iff a).2 (h a ha)⟩⟩

/-! ### Wrappers in a tree -/

/-- A `div` around a single image gives way to that image, with attributes that are made of both. -/
def GivesWay (carries : Attributes → Attributes → Attributes → Prop) (wrapper x : Element) : Prop :=
  wrapper.tag = "div" ∧ ∃ image, singleImage? wrapper.children = some image ∧
    x.tag = "img" ∧ x.children = image.children ∧
    carries wrapper.attributes image.attributes x.attributes

/-- If an element is a wrapper, the attributes that its image is given are as they should be. -/
def Hands (carries : Attributes → Attributes → Attributes → Prop) (e : Element) : Prop :=
  isWrapper e = true → ∀ image, singleImage? e.children = some image →
    carries e.attributes image.attributes (takeOver e.attributes image.attributes)

theorem isWrapper_cases {e : Element} (h : isWrapper e = true) :
    e.tag = "div" ∧ ∃ image, singleImage? e.children = some image := by
  unfold isWrapper at h
  simp only [Bool.and_eq_true, decide_eq_true_eq, Option.any_eq_true] at h
  obtain ⟨⟨⟨⟨htag, -⟩, -⟩, -⟩, image, himage, -⟩ := h
  exact ⟨htag, image, himage⟩

theorem singleImage?_eq_some {children : List Node} {image : Element}
    (h : singleImage? children = some image) :
    children.filter (fun n => !n.isBlank) = [.element image] ∧ image.tag = "img" := by
  unfold singleImage? at h
  split at h
  · rename_i e heq
    split at h
    · rename_i htag
      obtain rfl := Option.some.inj h
      exact ⟨heq, htag⟩
    · exact absurd h (by simp)
  · exact absurd h (by simp)

/-- A text in front of the only content among nodes is blank. -/
theorem filter_of_text_cons {value : String} {rest : List Node} {image : Element}
    (h : (Node.text value :: rest).filter (fun n => !n.isBlank) = [.element image]) :
    rest.filter (fun n => !n.isBlank) = [.element image] := by
  rw [List.filter_cons] at h
  split at h
  · exact absurd (List.cons.inj h).1 (by simp)
  · exact h

/-- What the image of a wrapper becomes. -/
theorem flattenImage_eq (count : Nat) (wrapper : Attributes) {image : Element} {ns : List Node}
    (h : ns.filter (fun n => !n.isBlank) = [.element image]) :
    (flattenImage count wrapper ns).1
      = ⟨image.tag, takeOver wrapper image.attributes, (flattenImage count wrapper ns).1.children⟩ := by
  induction ns with
  | nil => exact absurd h (by simp)
  | cons n rest ih =>
    cases n with
    | element e =>
      obtain ⟨tag, attributes, children⟩ := e
      obtain rfl := Node.element.inj (List.cons.inj ((List.filter_cons_of_pos rfl).symm.trans h)).1
      rfl
    | text value => exact ih (filter_of_text_cons h)
    | expression source =>
      exact absurd (List.cons.inj ((List.filter_cons_of_pos rfl).symm.trans h)).1 (by simp)

section
variable {carries : Attributes → Attributes → Attributes → Prop}

mutual
/-- Flattening leaves every element that is no wrapper, and puts the image in the place of every one
that is. -/
theorem rewrites_flattenElement (count : Nat) : ∀ e : Element, (∀ x ∈ e.preorder, Hands carries x) →
    Element.Rewrites (fun e => isWrapper e = false) (fun e x => isWrapper e = true ∧ GivesWay carries e x)
      e (flattenElement count e).1
  | ⟨tag, attributes, children⟩, h => by
    obtain ⟨hfirst, hbelow⟩ := List.forall_mem_cons.1 h
    rw [flattenElement]
    cases hw : isWrapper ⟨tag, attributes, children⟩ with
    | true =>
      obtain ⟨htag, image, himage⟩ := isWrapper_cases hw
      obtain ⟨hcontent, himg⟩ := singleImage?_eq_some himage
      have hchildren := rewriteAll_flattenImage (count + 1) attributes children hcontent hbelow
      rw [if_pos rfl, flattenImage_eq (count + 1) attributes hcontent]
      exact .replaced ⟨hw, htag, image, himage, himg, rfl, hfirst hw image himage⟩ hchildren
    | false =>
      rw [if_neg Bool.false_ne_true]
      exact .kept hw (rewriteAll_flattenNodes count children hbelow)

theorem rewriteAll_flattenImage (count : Nat) (wrapper : Attributes) {image : Element} :
    ∀ ns : List Node, ns.filter (fun n => !n.isBlank) = [.element image] →
      (∀ x ∈ Node.preorderAll ns, Hands carries x) →
      Node.RewriteAll (fun e => isWrapper e = false)
        (fun e x => isWrapper e = true ∧ GivesWay carries e x)
        image.children (flattenImage count wrapper ns).1.children
  | [], hcontent, _ => absurd hcontent (by simp)
  | .element ⟨tag, attributes, children⟩ :: rest, hcontent, h => by
    obtain rfl := Node.element.inj (List.cons.inj ((List.filter_cons_of_pos rfl).symm.trans hcontent)).1
    exact rewriteAll_flattenNodes count children
      (List.forall_mem_cons.1 (List.forall_mem_append.1 h).1).2
  | .text value :: rest, hcontent, h =>
    rewriteAll_flattenImage count wrapper rest (filter_of_text_cons hcontent) h
  | .expression source :: rest, hcontent, _ =>
    absurd (List.cons.inj ((List.filter_cons_of_pos rfl).symm.trans hcontent)).1 (by simp)

theorem rewriteAll_flattenNodes (count : Nat) : ∀ ns : List Node,
    (∀ x ∈ Node.preorderAll ns, Hands carries x) →
      Node.RewriteAll (fun e => isWrapper e = false)
        (fun e x => isWrapper e = true ∧ GivesWay carries e x) ns (flattenNodes count ns).1
  | [], _ => .nil
  | .element e :: rest, h =>
    have hparts := List.forall_mem_append.1 h
    .element (rewrites_flattenElement count e hparts.1) (rewriteAll_flattenNodes _ rest hparts.2)
  | .text value :: rest, h => .text value (rewriteAll_flattenNodes count rest h)
  | .expression source :: rest, h => .expression source (rewriteAll_flattenNodes count rest h)
end

end

/-! ### And back -/

theorem preorderAll_of_blank {ns : List Node} (h : ns.filter (fun n => !n.isBlank) = []) :
    Node.preorderAll ns = [] := by
  induction ns with
  | nil => rfl
  | cons n rest ih =>
    obtain ⟨hn, hrest⟩ := List.forall_mem_cons.1 (List.filter_eq_nil_iff.1 h)
    cases n with
    | text value => exact ih (List.filter_eq_nil_iff.2 hrest)
    | element e => exact absurd rfl hn
    | expression source => exact absurd rfl hn

section
variable {carries : Attributes → Attributes → Attributes → Prop}

theorem hands_of_tag {e : Element} (h : e.tag ≠ "div") : Hands carries e :=
  fun hw => absurd (isWrapper_cases hw).1 h

mutual
/-- Where wrappers have given way to images as they should, what these were given is as it should be. -/
theorem hands_of_rewrites (count : Nat) : ∀ e : Element,
    Element.Rewrites (fun _ => True) (GivesWay carries) e (flattenElement count e).1 →
      ∀ x ∈ e.preorder, Hands carries x
  | ⟨tag, attributes, children⟩ => by
    rw [flattenElement, Element.preorder, List.forall_mem_cons]
    intro h
    cases hw : isWrapper ⟨tag, attributes, children⟩ with
    | true =>
      obtain ⟨htag, image, himage⟩ := isWrapper_cases hw
      obtain ⟨hcontent, himg⟩ := singleImage?_eq_some himage
      have hshape := flattenImage_eq (count + 1) attributes hcontent
      rw [hw, if_pos rfl] at h
      obtain ⟨-, hkept, -⟩ | ⟨x, ⟨-, image', himage', -, hbelow, hcarries⟩, -, hattributes, hchildren⟩ :=
        h.cases_tag
      · rw [hshape, himg, htag] at hkept
        exact absurd hkept (by decide)
      · obtain rfl := Option.some.inj (himage.symm.trans himage')
        rw [← hattributes, hshape] at hcarries
        rw [hbelow] at hchildren
        refine ⟨fun _ image' himage' => ?_,
          hands_of_image (count + 1) attributes himg children hcontent hchildren⟩
        obtain rfl := Option.some.inj (himage.symm.trans himage')
        exact hcarries
    | false =>
      rw [hw, if_neg Bool.false_ne_true] at h
      obtain ⟨-, -, -, hchildren⟩ | ⟨x, ⟨htag, -, -, himg, -⟩, hkept, -⟩ := h.cases_tag
      · exact ⟨fun hwrapper => absurd (hw.symm.trans hwrapper) Bool.false_ne_true,
          hands_of_rewriteAll count children hchildren⟩
      · exact absurd (htag.symm.trans (hkept.trans himg)) (by decide)

theorem hands_of_image (count : Nat) (wrapper : Attributes) {image : Element}
    (himg : image.tag = "img") : ∀ ns : List Node,
      ns.filter (fun n => !n.isBlank) = [.element image] →
      Node.RewriteAll (fun _ => True) (GivesWay carries) image.children
        (flattenImage count wrapper ns).1.children →
      ∀ x ∈ Node.preorderAll ns, Hands carries x
  | [], h, _ => absurd h (by simp)
  | .element ⟨tag, attributes, children⟩ :: rest, h, hchildren => by
    obtain ⟨hfirst, hrest⟩ := List.cons.inj ((List.filter_cons_of_pos rfl).symm.trans h)
    obtain rfl := Node.element.inj hfirst
    rw [Node.preorderAll, preorderAll_of_blank hrest, List.append_nil, Element.preorder,
      List.forall_mem_cons]
    refine ⟨hands_of_tag ?_, hands_of_rewriteAll count children hchildren⟩
    rw [himg]
    decide
  | .text value :: rest, h, hchildren =>
    hands_of_image count wrapper himg rest (filter_of_text_cons h) hchildren
  | .expression source :: rest, h, _ =>
    absurd (List.cons.inj ((List.filter_cons_of_pos rfl).symm.trans h)).1 (by simp)

theorem hands_of_rewriteAll (count : Nat) : ∀ ns : List Node,
    Node.RewriteAll (fun _ => True) (GivesWay carries) ns (flattenNodes count ns).1 →
      ∀ x ∈ Node.preorderAll ns, Hands carries x
  | [], _ => List.forall_mem_nil _
  | .element e :: rest, h => by
    cases h with
    | element he hrest =>
      exact List.forall_mem_append.2 ⟨hands_of_rewrites count e he,
        hands_of_rewriteAll (flattenElement count e).2 rest hrest⟩
  | .text value :: rest, h => by
    cases h with
    | text _ hrest => exact hands_of_rewriteAll count rest hrest
  | .expression source :: rest, h => by
    cases h with
    | expression _ hrest => exact hands_of_rewriteAll count rest hrest
end

end

/-! ### Documents -/

section
variable {carries : Attributes → Attributes → Attributes → Prop}

theorem rewrites_flattenSegments (count : Nat) {segments : List Segment}
    (h : ∀ e ∈ Document.elements ⟨segments⟩, Hands carries e) :
    Document.Rewrites (fun e => isWrapper e = false) (fun e x => isWrapper e = true ∧ GivesWay carries e x)
      ⟨segments⟩ ⟨(flattenSegments count segments).1⟩ := by
  induction segments generalizing count with
  | nil => exact .nil
  | cons segment rest ih =>
    cases segment with
    | code source => exact .cons (.code source) (ih count h)
    | markup root =>
      rw [Document.elements_markup, List.forall_mem_append] at h
      exact .cons (.markup (rewrites_flattenElement count root h.1)) (ih _ h.2)

theorem hands_of_flattenSegments (count : Nat) {segments : List Segment}
    (h : Document.Rewrites (fun _ => True) (GivesWay carries) ⟨segments⟩
      ⟨(flattenSegments count segments).1⟩) :
    ∀ e ∈ Document.elements ⟨segments⟩, Hands carries e := by
  induction segments generalizing count with
  | nil => exact List.forall_mem_nil _
  | cons segment rest ih =>
    cases segment with
    | code source => exact ih count (List.forall₂_cons.1 h).2
    | markup root =>
      obtain ⟨hroot, hrest⟩ := List.forall₂_cons.1 h
      cases hroot with
      | markup hroot =>
        rw [Document.elements_markup, List.forall_mem_append]
        exact ⟨hands_of_rewrites count root hroot, ih _ hrest⟩

/-- Wrappers give way as they should exactly if every wrapper hands over what it should. -/
theorem rewrites_run_iff (d : Document) (c : Context) :
    d.Rewrites (fun _ => True) (GivesWay carries) (pass.run d c).document ↔
      ∀ e ∈ d.elements, Hands carries e :=
  ⟨hands_of_flattenSegments 0, fun h =>
    (rewrites_flattenSegments 0 h).mono (fun _ _ => trivial) fun _ _ => And.right⟩

end

/-- Of a wrapper nothing is lost. -/
def LosesNothing (e : Element) : Prop :=
  isWrapper e = true → ∀ image, singleImage? e.children = some image →
    IsCarried e.attributes image.attributes

theorem hands_carriesOver_iff {e : Element} : Hands CarriesOver e ↔ LosesNothing e :=
  forall₃_congr fun _ _ _ => carriesOver_takeOver_iff

/-- All wrappers are flattened, and nothing else is; the image has the class tokens of its wrapper in
front of its own, and is given two of its names.  Images have all that their wrappers had exactly if what
else a wrapper has is something that its image has, and keeps, too. -/
theorem carriesOver_iff (d : Document) (c : Context) :
    d.Rewrites (fun e => isWrapper e = false) (fun e x => isWrapper e = true ∧ GivesWay TakesOver e x)
        (pass.run d c).document ∧
      (d.Rewrites (fun _ => True) (GivesWay CarriesOver) (pass.run d c).document ↔
        ∀ e ∈ d.elements, LosesNothing e) := by
  refine ⟨rewrites_flattenSegments 0 fun e _ _ image _ => takesOver_takeOver .., ?_⟩
  rw [rewrites_run_iff]
  exact forall₂_congr fun _ _ => hands_carriesOver_iff

/-- A wrapper that is placed by an inline style. -/
def styledWrapper : Document :=
  ⟨[.markup ⟨"div", [⟨"className", .text "absolute"⟩, ⟨"style", .style ⟨[("left", .int 4)]⟩⟩],
    [.element ⟨"img", [⟨"src", .expression "a"⟩], []⟩]⟩]⟩

/-- The wrapper is flattened, and the image has lost its place. -/
theorem styledWrapper_not_carried :
    ¬ styledWrapper.Rewrites (fun _ => True) (GivesWay CarriesOver)
      (pass.run styledWrapper (.new .empty none)).document := by
  rw [rewrites_run_iff]
  intro h
  have hlost := hands_carriesOver_iff.1 (h _ List.mem_cons_self) (by decide +kernel) _ rfl
  exact absurd hlost (by decide +kernel)

end VectorWrappers

end MarkupTidy
