import MarkupTidy.Proofs.Pass.Walk
import MarkupTidy.Proofs.Utility.SafeTokens
import MarkupTidy.Proofs.Utility.SweptMarkup

/-! # Changes that keep a module sound

A pass changes attributes, and may put an element in the place of another one; it leaves texts and
expressions where they are.  What it writes has to be sound, the rest stays so.

* `Node.bare`: a node without what a pass may change; children that are bare alike are sound alike.
* `Attributes.AreSound`: sound attributes; `AreSound.setClasses`, `AreSound.setStyle`: what passes
  write.
* `IsSoundVisit`: visits that keep attributes sound; `Pass.IsWalk.keepsSound`: so does the walk.
* `Pass.KeepsSound`: a pass that keeps a module sound, as long as there are no assets. -/

namespace MarkupTidy

open MarkupTidy.Markup MarkupTidy.Text

/-! ### Children -/

/-- A node without what a pass may change: of an element only that there is one. -/
def Node.bare : Node → Node
  | .element _ => .element ⟨"", [], []⟩
  | .text value => .text value
  | .expression source => .expression source

theorem Node.isText_bare (n : Node) : n.bare.isText = n.isText := by
  cases n <;> rfl

theorem Node.textsWritten_map_bare {ns : List Node} :
    Node.TextsWritten (ns.map Node.bare) ↔ Node.TextsWritten ns := by
  induction ns with
  | nil => exact Iff.rfl
  | cons n ns ih =>
    cases n with
    | text value =>
      have hhead : (ns.map Node.bare).head?.any Node.isText = ns.head?.any Node.isText := by
        cases ns with
        | nil => rfl
        | cons m ns => exact Node.isText_bare m
      exact and_congr_right fun _ => and_congr_right fun _ => and_congr (by rw [hhead]) ih
    | expression source => exact ih
    | element e => exact ih

theorem Node.isSafe_bare (design : VariableTable) (n : Node) :
    n.bare.IsSafe design ↔ n.IsSafe design := by
  cases n <;> exact Iff.rfl

section
variable {design : VariableTable}

theorem Element.IsSound.withParts {e : Element} (h : e.IsSound design) {attributes : Attributes}
    (hattributes : ∀ a ∈ attributes, a.IsSound design) {children : List Node}
    (hchildren : children.map Node.bare = e.children.map Node.bare) :
    Element.IsSound design ⟨e.tag, attributes, children⟩ := by
  refine ⟨h.tag, hattributes, ?_, fun n hn => ?_⟩
  · rw [← Node.textsWritten_map_bare, hchildren, Node.textsWritten_map_bare]
    exact h.texts
  · have hbare : n.bare ∈ e.children.map Node.bare := hchildren ▸ List.mem_map_of_mem hn
    obtain ⟨m, hm, heq⟩ := List.mem_map.1 hbare
    rw [← Node.isSafe_bare, ← heq, Node.isSafe_bare]
    exact h.children m hm

/-! ### Attributes -/

namespace Attributes

/-- All attributes are sound. -/
def AreSound (design : VariableTable) (as : Attributes) : Prop :=
  ∀ a ∈ as, a.IsSound design

theorem mem_of_value? {as : Attributes} {name : String} {value : AttributeValue}
    (h : as.value? name = some value) : (⟨name, value⟩ : Attribute) ∈ as := by
  obtain ⟨a, hfind, rfl⟩ := Option.map_eq_some_iff.1 h
  obtain rfl : a.name = name := by simpa using List.find?_some hfind
  exact List.mem_of_find?_eq_some hfind

theorem mem_of_text? {as : Attributes} {name value : String} (h : as.text? name = some value) :
    (⟨name, .text value⟩ : Attribute) ∈ as := by
  unfold text? at h
  split at h
  · rename_i hvalue
    exact mem_of_value? (Option.some.inj h ▸ hvalue)
  · exact absurd h (by simp)

namespace AreSound

variable {as : Attributes}

theorem set (h : as.AreSound design) {name : String} {value : AttributeValue}
    (hvalue : Attribute.IsSound design ⟨name, value⟩) : (as.set name value).AreSound design := by
  induction as with
  | nil => exact List.forall_mem_singleton.2 hvalue
  | cons a rest ih =>
    obtain ⟨ha, hrest⟩ := List.forall_mem_cons.1 h
    unfold Attributes.set
    split
    · exact List.forall_mem_cons.2 ⟨hvalue, hrest⟩
    · exact List.forall_mem_cons.2 ⟨ha, ih hrest⟩

/-- The class tokens of sound attributes are safe, and hold no blanks. -/
theorem classes (h : as.AreSound design) :
    ∀ t ∈ as.classes, IsSafeToken t ∧ IsSolid t.toList := by
  intro t ht
  unfold Attributes.classes at ht
  split at ht
  · rename_i value hvalue
    obtain ⟨hclasses, hquote⟩ := (h _ (mem_of_text? hvalue)).safe
    refine ⟨isSafeToken_of_mem_classTokens ⟨hclasses, hquote List.suffix_rfl⟩ ht, ?_⟩
    obtain ⟨w, hw, rfl⟩ := List.mem_map.1 ht
    rw [String.toList_ofList]
    exact (isSolid_of_mem_words hw).1
  · exact absurd ht List.not_mem_nil

theorem setClasses (h : as.AreSound design) {tokens : List String}
    (htokens : ∀ t ∈ tokens, IsSafeToken t) : (as.setClasses tokens).AreSound design := by
  obtain ⟨hclasses, hquote⟩ := isSafeToken_joinTokens htokens
  have hname : IsName classAttribute := by decide
  exact h.set ⟨⟨hname, Or.inl hquote⟩, hclasses, fun _ => hquote⟩

/-- A text of another attribute than that of the classes. -/
theorem setText (h : as.AreSound design) {name value : String} (hname : IsName name)
    (hquotes : '"' ∉ value.toList ∨ '\'' ∉ value.toList) (hvalue : HoldsNoClasses value.toList)
    (hother : ¬classAttribute.toList <:+ name.toList) :
    (as.set name (.text value)).AreSound design :=
  h.set ⟨⟨hname, hquotes⟩, hvalue, fun hends => absurd hends hother⟩

theorem isSafe_style (h : as.AreSound design) {s : Style} (hs : as.style? = some s) :
    s.IsSafe design := by
  unfold style? at hs
  split at hs
  · rename_i hvalue
    exact Option.some.inj hs ▸ (h _ (mem_of_value? hvalue)).safe.2
  · exact absurd hs (by simp)

theorem isSafe_styleOrNew (h : as.AreSound design) {s : Style} (hs : as.styleOrNew? = some s) :
    s.IsSafe design := by
  unfold styleOrNew? at hs
  split at hs
  · obtain rfl := Option.some.inj hs
    exact List.forall_mem_nil _
  · rename_i hvalue
    exact Option.some.inj hs ▸ (h _ (mem_of_value? hvalue)).safe.2
  · exact absurd hs (by simp)

theorem setStyle (h : as.AreSound design) {s : Style} (hs : s.IsSafe design) :
    (as.setStyle s).AreSound design :=
  h.set ⟨trivial, rfl, hs⟩

end AreSound

end Attributes

/-- A change to the attributes of an element keeps them sound. -/
def AttributeChange.KeepsSound (design : VariableTable) (change : AttributeChange) : Prop :=
  ∀ tag (as : Attributes), as.AreSound design → (change tag as).AreSound design

theorem AttributeChange.keepsSound_none : AttributeChange.none.KeepsSound design :=
  fun _ _ h => h

/-! ### Walks -/

/-- Visits keep attributes sound, those of their element and those of its children. -/
structure IsSoundVisit {σ : Type} (design : VariableTable) (visit : σ → Element → Visit σ) : Prop where
  attributes : ∀ st e, e.attributes.AreSound design → (visit st e).attributes.AreSound design
  forChildren : ∀ st e, e.attributes.AreSound design → (visit st e).forChildren.KeepsSound design

section
variable {σ : Type} {visit : σ → Element → Visit σ}

theorem Element.tag_walk (w : Walk σ) (change : AttributeChange) (e : Element) :
    (Element.walk visit w change e).1.tag = e.tag := by
  obtain ⟨tag, attributes, children⟩ := e
  rw [Element.walk]
  dsimp only
  split <;> rfl

theorem Node.map_bare_walkAll (w : Walk σ) (change : AttributeChange) (ns : List Node) :
    (Node.walkAll visit w change ns).1.map Node.bare = ns.map Node.bare := by
  induction ns generalizing w with
  | nil => rfl
  | cons n ns ih =>
    cases n with
    | element e => exact congrArg (_ :: ·) (ih _)
    | text value => exact congrArg (_ :: ·) (ih w)
    | expression source => exact congrArg (_ :: ·) (ih w)

mutual
theorem Element.areSound_walk (hv : IsSoundVisit design visit) (w : Walk σ)
    {change : AttributeChange} (hchange : change.KeepsSound design) :
    ∀ e : Element, (∀ x ∈ e.preorder, x.IsSound design) →
      ∀ x ∈ (Element.walk visit w change e).1.preorder, x.IsSound design
  | ⟨tag, attributes, children⟩ => by
    intro h
    obtain ⟨he, hbelow⟩ := List.forall_mem_cons.1 h
    have hattributes : (change tag attributes).AreSound design := hchange tag attributes he.attributes
    rw [Element.walk]
    dsimp only
    split
    · exact List.forall_mem_cons.2 ⟨he.withParts hattributes rfl, hbelow⟩
    · refine List.forall_mem_cons.2
        ⟨he.withParts (hv.attributes _ _ hattributes) (Node.map_bare_walkAll ..), ?_⟩
      exact Node.areSound_walkAll hv _ (hv.forChildren _ _ hattributes) children hbelow

theorem Node.areSound_walkAll (hv : IsSoundVisit design visit) (w : Walk σ)
    {change : AttributeChange} (hchange : change.KeepsSound design) :
    ∀ ns : List Node, (∀ x ∈ Node.preorderAll ns, x.IsSound design) →
      ∀ x ∈ Node.preorderAll (Node.walkAll visit w change ns).1, x.IsSound design
  | [] => fun h => h
  | .element e :: rest => by
    intro h
    obtain ⟨he, hrest⟩ := List.forall_mem_append.1 h
    rw [Node.walkAll]
    exact List.forall_mem_append.2 ⟨Element.areSound_walk hv w hchange e he,
      Node.areSound_walkAll hv _ hchange rest hrest⟩
  | .text _ :: rest => Node.areSound_walkAll hv w hchange rest
  | .expression _ :: rest => Node.areSound_walkAll hv w hchange rest
end

theorem Segment.isCode_head_walkAll (w : Walk σ) (segments : List Segment) :
    (Segment.walkAll visit w segments).1.head?.any Segment.isCode =
      segments.head?.any Segment.isCode := by
  cases segments with
  | nil => rfl
  | cons s rest => cases s <;> rfl

theorem Segment.areSound_walkAll (hv : IsSoundVisit design visit) (w : Walk σ)
    {segments : List Segment} (h : Segment.AreSound design segments) :
    Segment.AreSound design (Segment.walkAll visit w segments).1 := by
  induction segments generalizing w with
  | nil => trivial
  | cons s rest ih =>
    obtain ⟨hs, hapart, hrest⟩ := h
    cases s with
    | code source =>
      refine ⟨hs, fun hcode => ?_, ih w hrest⟩
      rw [Segment.isCode_head_walkAll]
      exact hapart hcode
    | markup root =>
      refine ⟨⟨Element.areSound_walk hv w AttributeChange.keepsSound_none root hs.1, ?_⟩,
        fun hcode => Bool.noConfusion hcode, ih _ hrest⟩
      rw [Element.tag_walk]
      exact hs.2

end

end

/-- As long as there are no assets, the pass keeps a module sound. -/
def Pass.KeepsSound (p : Pass) : Prop :=
  ∀ d (c : Context), c.assets? = none → Segment.AreSound c.design d.segments →
    Segment.AreSound c.design (p.run d c).document.segments

/-- A walk with visits that keep attributes sound keeps a module sound. -/
theorem Pass.IsWalk.keepsSound {σ : Type} {p : Pass} {visit : Context → σ → Element → Visit σ}
    {start : Context → σ} {counters : σ → Counters} (h : p.IsWalk visit start counters)
    (hv : ∀ c, IsSoundVisit c.design (visit c)) : p.KeepsSound := by
  intro d c _ hd
  rw [h.document_eq]
  exact Segment.areSound_walkAll (hv c) _ hd

end MarkupTidy
