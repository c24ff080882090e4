import MarkupTidy.Proofs.Pass.Edits
import MarkupTidy.Proofs.Pass.Soundness
import MarkupTidy.Proofs.Pass.Walk
import MarkupTidy.Proofs.Pass.WrittenTokens

/-! # Walks that tell what they change

A steady walk counts nothing where all elements are settled, and leaves the document as it was.  The
converse asks more of its visits: a visit must not leave an element as it was and count a change, nor
may a later visit undo what an earlier one has done.  For an edit that is counted, this means that it
leaves something else than it has found: what is written is read back as it was written.

* `AttributeChange.IsLasting`: a change that no visit undoes.
* `IsTelling`: visits that change something wherever they do not meet a settled element, for good.
* `Document.areSettled_of_walk_eq`: a walk that leaves the document as it was has met settled elements
  only.
* `Pass.Tells`: a pass whose counters are idle exactly where it has changed nothing;
  `Pass.IsWalk.tells`.
* `Attributes.classes_of_setClasses_eq`, `Attributes.value?_of_set_eq`: edits that are seen.
* `FontDetection.isTelling`, `ClassCleanup.isTelling`, `PostFixes.isTelling`,
  `CssVariables.isTelling`, `ClassOptimizer.isTelling`: what this says of the visits of each pass;
  `tells` is what follows for the pass. -/

namespace MarkupTidy

open MarkupTidy.Markup MarkupTidy.Text

variable {σ : Type}

/-- A change that is still there after the visit that follows it. -/
def AttributeChange.IsLasting (visit : σ → Element → Visit σ) (change : AttributeChange) : Prop :=
  ∀ st tag as children, (visit st ⟨tag, change tag as, children⟩).attributes = as →
    change tag as = as

theorem AttributeChange.isLasting_none (visit : σ → Element → Visit σ) :
    AttributeChange.none.IsLasting visit :=
  fun _ _ _ _ _ => rfl

/-- Visits that leave no element and no child as it was, unless the element is settled, and that
undo nothing. -/
structure IsTelling (visit : σ → Element → Visit σ) (settled : σ → Element → Prop) : Prop where
  settled_of_kept : ∀ {st e}, (visit st e).fault? = none →
    (visit st e).attributes = e.attributes →
    (∀ child ∈ e.elements,
      (visit st e).forChildren child.tag child.attributes = child.attributes) → settled st e
  isLasting : ∀ st e, (visit st e).forChildren.IsLasting visit

/-- Visits that have no change for children. -/
theorem IsTelling.of_forChildren_none {visit : σ → Element → Visit σ}
    {settled : σ → Element → Prop} (hnone : ∀ st e, (visit st e).forChildren = .none)
    (h : ∀ st e, (visit st e).fault? = none → (visit st e).attributes = e.attributes →
      settled st e) : IsTelling visit settled where
  settled_of_kept hfault hkept _ := h _ _ hfault hkept
  isLasting st e := by
    rw [hnone st e]
    exact AttributeChange.isLasting_none visit

section
variable {visit : σ → Element → Visit σ} {settled : σ → Element → Prop}

/-! ### Faults -/

/-- No visit takes a fault away. -/
theorem Node.fault_eq_none_of_walkAll {w : Walk σ} {change : AttributeChange} (ns : List Node)
    (h : (Node.walkAll visit w change ns).2.fault? = none) : w.fault? = none := by
  by_contra hw
  exact @Node.walkAll_invariant _ visit (fun w => w.fault? ≠ none) (fun _ _ h => absurd rfl h) w
    change hw ns h

theorem Segment.fault_eq_none_of_walkAll {w : Walk σ} {segments : List Segment}
    (h : (Segment.walkAll visit w segments).2.fault? = none) : w.fault? = none := by
  by_contra hw
  exact @Segment.walkAll_invariant _ visit (fun w => w.fault? ≠ none) (fun _ _ h => absurd rfl h) w
    hw segments h

/-! ### Walks that leave all as it was -/

mutual
/-- Where a walk without faults leaves an element as it was, the parent has changed nothing, all
elements are settled, and the visits were to the elements as they were. -/
theorem Element.areSettled_of_walk_eq (hv : IsTelling visit settled) {st : σ}
    {change : AttributeChange} (hchange : change.IsLasting visit) :
    ∀ e : Element, (Element.walk visit ⟨st, none⟩ change e).2.fault? = none →
      (Element.walk visit ⟨st, none⟩ change e).1 = e →
      change e.tag e.attributes = e.attributes ∧ AreSettled visit settled st e.preorder ∧
        (Element.walk visit ⟨st, none⟩ change e).2 = ⟨endState visit st e.preorder, none⟩
  | ⟨tag, attributes, children⟩ => by
    intro hfault heq
    have hattributes : (visit st ⟨tag, change tag attributes, children⟩).attributes = attributes :=
      congrArg Element.attributes heq
    have hkept : change tag attributes = attributes :=
      hchange st tag attributes children hattributes
    rw [Element.walk_eq st hkept] at hfault heq ⊢
    rw [hkept] at hattributes
    have hquiet := Node.fault_eq_none_of_walkAll children hfault
    have hwalk : (visit st ⟨tag, attributes, children⟩).walk
        = ⟨(visit st ⟨tag, attributes, children⟩).state, none⟩ := congrArg (Walk.mk _) hquiet
    rw [hwalk] at hfault heq ⊢
    obtain ⟨hbelow, hsettled, hend⟩ := Node.areSettled_of_walkAll_eq hv
      (hv.isLasting st ⟨tag, attributes, children⟩) children hfault
      (congrArg Element.children heq)
    refine ⟨hkept, ⟨hv.settled_of_kept hquiet hattributes fun child hchild => ?_, hsettled⟩, hend⟩
    obtain ⟨n, hn, hchild⟩ := List.mem_filterMap.1 hchild
    cases n with
    | element e => exact Option.some.inj hchild ▸ hbelow e hn
    | text value => exact absurd hchild (by simp [Node.element?])
    | expression source => exact absurd hchild (by simp [Node.element?])

theorem Node.areSettled_of_walkAll_eq (hv : IsTelling visit settled) {st : σ}
    {change : AttributeChange} (hchange : change.IsLasting visit) :
    ∀ ns : List Node, (Node.walkAll visit ⟨st, none⟩ change ns).2.fault? = none →
      (Node.walkAll visit ⟨st, none⟩ change ns).1 = ns →
      (∀ e, .element e ∈ ns → change e.tag e.attributes = e.attributes) ∧
        AreSettled visit settled st (Node.preorderAll ns) ∧
        (Node.walkAll visit ⟨st, none⟩ change ns).2
          = ⟨endState visit st (Node.preorderAll ns), none⟩
  | [] => fun _ _ => ⟨fun _ he => absurd he List.not_mem_nil, trivial, rfl⟩
  | .element e :: rest => by
    intro hfault heq
    obtain ⟨hfirst, hrest⟩ := List.cons.inj heq
    obtain ⟨hkept, hsettled, hend⟩ := Element.areSettled_of_walk_eq hv hchange e
      (Node.fault_eq_none_of_walkAll rest hfault) (Node.element.inj hfirst)
    have hwalk : Element.walk visit ⟨st, none⟩ change e = (e, ⟨endState visit st e.preorder, none⟩) :=
      Prod.ext (Node.element.inj hfirst) hend
    rw [hend] at hrest
    rw [Node.walkAll, hwalk] at hfault ⊢
    dsimp only at hfault ⊢
    obtain ⟨hothers, hafter, hlast⟩ := Node.areSettled_of_walkAll_eq hv hchange rest hfault hrest
    rw [Node.preorderAll, endState_append]
    refine ⟨fun e' he' => ?_, areSettled_append.2 ⟨hsettled, hafter⟩, hlast⟩
    obtain heq' | he' := List.mem_cons.1 he'
    · exact Node.element.inj heq' ▸ hkept
    · exact hothers e' he'
  | .text _ :: rest => fun hfault heq => by
    obtain ⟨hothers, hsettled⟩ := Node.areSettled_of_walkAll_eq hv hchange rest hfault
      (List.cons.inj heq).2
    exact ⟨fun e he => hothers e (by simpa using he), hsettled⟩
  | .expression _ :: rest => fun hfault heq => by
    obtain ⟨hothers, hsettled⟩ := Node.areSettled_of_walkAll_eq hv hchange rest hfault
      (List.cons.inj heq).2
    exact ⟨fun e he => hothers e (by simpa using he), hsettled⟩
end

theorem Segment.areSettled_of_walkAll_eq (hv : IsTelling visit settled) {st : σ}
    {segments : List Segment} (hfault : (Segment.walkAll visit ⟨st, none⟩ segments).2.fault? = none)
    (heq : (Segment.walkAll visit ⟨st, none⟩ segments).1 = segments) :
    AreSettled visit settled st (Document.elements ⟨segments⟩) := by
  induction segments generalizing st with
  | nil => exact trivial
  | cons segment rest ih =>
    cases segment with
    | code source => exact ih hfault (List.cons.inj heq).2
    | markup root =>
      obtain ⟨hfirst, hrest⟩ := List.cons.inj heq
      obtain ⟨-, hsettled, hend⟩ := Element.areSettled_of_walk_eq hv
        (AttributeChange.isLasting_none visit) root (Segment.fault_eq_none_of_walkAll hfault)
        (Segment.markup.inj hfirst)
      have hwalk : Element.walk visit ⟨st, none⟩ .none root
          = (root, ⟨endState visit st root.preorder, none⟩) :=
        Prod.ext (Segment.markup.inj hfirst) hend
      rw [hend] at hrest
      rw [Segment.walkAll, hwalk] at hfault
      dsimp only at hfault
      rw [Document.elements_markup]
      exact areSettled_append.2 ⟨hsettled, ih hfault hrest⟩

/-- A walk that comes to its end and leaves the document as it was has met settled elements only. -/
theorem Document.areSettled_of_walk_eq (hv : IsTelling visit settled) {st : σ} {d : Document}
    (hfault : (d.walk visit st).2.fault? = none) (heq : (d.walk visit st).1 = d) :
    AreSettled visit settled st d.elements :=
  Segment.areSettled_of_walkAll_eq hv hfault (congrArg Document.segments heq)

end

/-! ### Passes -/

/-- Where the pass completes, its counters are idle exactly if it has changed nothing. -/
def Pass.Tells (p : Pass) : Prop :=
  ∀ d c counters, (p.run d c).result = .ok counters →
    (counters.IsIdle ↔ (p.run d c).document = d)

theorem Pass.isIdleOn_of_ok {p : Pass} {d : Document} {c : Context} {counters : Counters}
    (h : (p.run d c).result = .ok counters) : p.IsIdleOn d c ↔ counters.IsIdle := by
  unfold IsIdleOn
  rw [h]
  simp

/-- A walk of steady and telling visits tells what it changes. -/
theorem Pass.IsWalk.tells {p : Pass} {visit : Context → σ → Element → Visit σ}
    {start : Context → σ} {counters : σ → Counters} {settled : Context → σ → Element → Prop}
    (h : p.IsWalk visit start counters)
    (hsteady : ∀ c, IsSteady (visit c) (fun st => (counters st).IsIdle) (settled c))
    (htelling : ∀ c, IsTelling (visit c) (settled c)) : p.Tells := by
  intro d c cs hcs
  rw [← Pass.isIdleOn_of_ok hcs]
  refine ⟨h.document_of_isIdleOn (hsteady c), fun heq => (h.isIdleOn_iff (hsteady c) d).2 ?_⟩
  rw [h.result_eq] at hcs
  rw [h.document_eq] at heq
  exact Document.areSettled_of_walk_eq (htelling c) (Walk.exists_result_iff.1 ⟨cs, hcs⟩) heq

/-! ### Edits that are seen -/

namespace Attributes

variable {as : Attributes}

/-- Where a value is written and nothing changes, it was there. -/
theorem value?_of_set_eq {name : String} {value : AttributeValue}
    (h : as.set name value = as) : as.value? name = some value := by
  rw [← h, value?_set_self]

/-- Where tokens are written and nothing changes, they were there. -/
theorem classes_of_setClasses_eq {tokens : List String} (htokens : ∀ t ∈ tokens, IsToken t)
    (h : as.setClasses tokens = as) : as.classes = tokens := by
  rw [← h, classes_setClasses htokens]

theorem classes_of_unless_eq {tokens : List String} (htokens : ∀ t ∈ tokens, IsToken t)
    (h : (if tokens = as.classes then as else as.setClasses tokens) = as) : tokens = as.classes := by
  split at h
  · assumption
  · exact (classes_of_setClasses_eq htokens h).symm

theorem style?_of_value? {s : Style} (h : as.value? "style" = some (.style s)) :
    as.style? = some s ∧ as.styleOrNew? = some s := by
  rw [style?, styleOrNew?, h]
  exact ⟨rfl, rfl⟩

theorem eq_of_setStyle_eq {s s' : Style} (hs : as.styleOrNew? = some s)
    (h : as.setStyle s' = as) : s' = s := by
  rw [(style?_of_value? (value?_of_set_eq h)).2] at hs
  exact Option.some.inj hs

end Attributes

/-! ### Fonts -/

/-- A style expression grows by what is put beneath it. -/
theorem layerStyle_ne {source : List Char} {s : Style} (hne : s.entries ≠ []) :
    layerStyle source s ≠ source := by
  intro heq
  have htrim : trim source = source := by
    rw [← heq, trim_layerStyle hne]
  have hlength := congrArg List.length heq
  rw [layerStyle_eq hne, htrim] at hlength
  simp only [braced, List.length_append, List.length_cons] at hlength
  omega

theorem FontClass.style_entries_ne_nil (f : FontClass) : f.style.entries ≠ [] := by
  simp [FontClass.style]

namespace FontDetection

theorem isTelling : IsTelling visit fun _ => IsSettled := by
  refine .of_forChildren_none forChildren_visit fun st e hfault hkept font hfont => ?_
  unfold visit at hfault hkept
  rw [hfont] at hfault hkept
  dsimp only at hfault hkept
  cases hs : e.attributes.styleOrNew? with
  | some s =>
    refine ⟨s, rfl, ?_⟩
    rw [hs] at hkept
    dsimp only at hkept
    split at hkept
    · assumption
    · exact Attributes.eq_of_setStyle_eq hs hkept
  | none =>
    rw [hs] at hfault hkept
    dsimp only at hfault hkept
    by_cases hsource : ∃ source, e.attributes.value? "style" = some (.expression source)
    · obtain ⟨source, hsource⟩ := hsource
      rw [hsource] at hkept
      dsimp only at hkept
      rw [Attributes.value?_of_set_eq hkept, Option.some.injEq,
        AttributeValue.expression.injEq, ← String.toList_inj, String.toList_ofList] at hsource
      exact absurd hsource (layerStyle_ne font.style_entries_ne_nil)
    · split at hfault
      · exact absurd ⟨_, ‹_›⟩ hsource
      · exact absurd hfault (by simp [Visit.fail])

theorem tells : pass.Tells :=
  isWalk.tells (fun _ => steady) fun _ => isTelling

end FontDetection

/-! ### Classes -/

namespace ClassCleanup

theorem isToken_cleanTokens (counters : Counters) {tokens : List String}
    (h : ∀ t ∈ tokens, IsToken t) : ∀ t ∈ (cleanTokens counters tokens).2, IsToken t := by
  have hsizes : ∀ size ∈ textSizes, IsToken size.2 := by decide
  have hfull : IsToken "w-full" := by decide
  intro t ht
  obtain ⟨hmem, -⟩ | ⟨size, hsize, rfl⟩ | rfl := mem_cleanTokens_cases ht
  · exact h t hmem
  · exact hsizes size hsize
  · exact hfull

/-- A width that is added is not lost, so that tokens that need one do not come out as they went
in. -/
theorem areClean_of_cleanTokens_eq {counters : Counters} {tokens : List String}
    (h : (cleanTokens counters tokens).2 = tokens) : AreClean tokens := by
  have hsub := stripArtifacts_sublist tokens
  unfold cleanTokens at h
  dsimp only at h
  split at h
  · rename_i hwide
    have hmem : "w-full" ∈ tokens := by
      rw [← h]
      exact List.mem_append_right _ List.mem_cons_self
    have hline : "w-full" ∉ linePair := by decide
    have hkept : "w-full" ∈ stripArtifacts tokens :=
      mem_dropLinePairs hline (List.mem_filter.2 ⟨hmem, by decide⟩)
    have hconverted : "w-full" ∈ (stripArtifacts tokens).map convertTextSize :=
      List.mem_map.2 ⟨"w-full", hkept, by decide⟩
    have hwidth : ((stripArtifacts tokens).map convertTextSize).any setsWidth = true :=
      List.any_eq_true.2 ⟨"w-full", hconverted, by decide⟩
    rw [needsFullWidth, hwidth, Bool.not_true, Bool.and_false] at hwide
    exact absurd hwide Bool.false_ne_true
  · rename_i hwide
    dsimp only at h
    have hlength : (stripArtifacts tokens).length = tokens.length := by
      rw [← List.length_map convertTextSize, h]
    have hstrip := hsub.eq_of_length hlength
    rw [h] at hwide
    rw [hstrip] at h
    exact areClean_iff.2 ⟨hstrip, h, by simpa using hwide⟩

theorem isInert_overflowClass : IsInert overflowClass := by
  decide

theorem isTelling : IsTelling visit IsSettled := by
  refine .of_forChildren_none forChildren_visit fun st e _ hkept hstatic => ?_
  rw [visit_of_static hstatic] at hkept
  dsimp only [Visit.change] at hkept
  have hroot : isRootContainer (noted st e) e = true → overflowClass ∈ e.attributes.classes := by
    intro hroot
    by_contra hmissing
    have hadded : (containOverflow (noted st e) e).2
        = e.attributes.setClasses (e.attributes.classes ++ [overflowClass]) := by
      simp [containOverflow, hroot, hmissing]
    have hmem : overflowClass ∈ (containOverflow (noted st e) e).2.classes := by
      rw [hadded]
      exact Attributes.mem_classes_setClasses (by decide) (List.mem_append_right _ (by simp))
    have hedits := edits_cleaned (containOverflow (noted st e) e).1.counters
      (containOverflow (noted st e) e).2
    rw [hkept] at hedits
    exact hmissing (hedits.keepsInert _ hmem isInert_overflowClass)
  rw [containOverflow_attributes hroot] at hkept
  have hclean := Attributes.classes_of_unless_eq
    (isToken_cleanTokens _ fun t => Attributes.isToken_of_mem_classes) hkept
  rw [isRootContainer_noted] at hroot
  exact ⟨areClean_of_cleanTokens_eq hclean, hroot⟩

theorem tells : pass.Tells :=
  isWalk.tells (fun _ => steady) fun _ => isTelling

end ClassCleanup

/-! ### Visual corrections -/

namespace PostFixes

/-- A shape correction leaves all attributes alone but the classes and the mark of a shape. -/
theorem value?_fixShape {name : String} (hclasses : classAttribute ≠ name)
    (hshape : "data-shape" ≠ name) (as : Attributes) (children : List Element) :
    (fixShape as children).attributes.value? name = as.value? name := by
  have hfix := isShapeFix_fixShape as children
  generalize fixShape as children = f at hfix ⊢
  cases hfix with
  | kept => rfl
  | line => exact Attributes.value?_set_ne as _ hclasses
  | pointed =>
    unfold fixPointed
    dsimp only
    split
    · exact Attributes.value?_set_ne as _ hshape
    · rfl
  | round => exact Attributes.value?_set_ne as _ hclasses

/-- The style of an element whose gradient is written. -/
theorem exists_style_of_applied {as : Attributes} (h : (fixGradient as).1 = .applied) :
    ∃ s value, as.styleOrNew? = some s ∧ s.has "background" = false ∧
      (fixGradient as).2.value? "style" = some (.style (s.set "background" (.text value))) := by
  obtain ⟨value, used, s, -, hs, hnew, hwritten⟩ := exists_found_of_applied h
  refine ⟨s, value, hs, hnew, ?_⟩
  rw [hwritten]
  exact (Attributes.value?_set_ne _ _ (by decide)).trans (Attributes.value?_set_self ..)

/-- A gradient that is written is still there after the correction of the shape. -/
theorem fixGradient_ne_applied {as : Attributes} {children : List Element}
    (h : (fixShape (fixGradient as).2 children).attributes = as) :
    (fixGradient as).1 ≠ .applied := by
  intro happlied
  obtain ⟨s, value, hs, hnew, hstyle⟩ := exists_style_of_applied happlied
  rw [← value?_fixShape (by decide) (by decide) _ children, h] at hstyle
  rw [(Attributes.style?_of_value? hstyle).2] at hs
  have hbackground := Style.get?_set_self s "background" (.text value)
  rw [Option.some.inj hs] at hbackground
  rw [Style.has, OrderedMap.has, show s.entries.get? "background" = _ from hbackground] at hnew
  exact Bool.noConfusion hnew

theorem isToken_visibleHeight (as : Attributes) : ∀ t ∈ as.classes.map visibleHeight, IsToken t := by
  have hheight : IsToken "h-px" := by decide
  refine List.forall_mem_map.2 fun t ht => ?_
  unfold visibleHeight
  split
  · exact hheight
  · exact Attributes.isToken_of_mem_classes ht

theorem isToken_withRadius (as : Attributes) (isCircle : Bool) (width height : Binary64) :
    ∀ t ∈ withRadius as.classes (cornerRadius isCircle width height), IsToken t :=
  List.forall_mem_append.2 ⟨fun _ ht => Attributes.isToken_of_mem_classes (List.mem_filter.1 ht).1,
    List.forall_mem_singleton.2 (isToken_cornerRadius ..)⟩

theorem containImage_ne {tag : String} {as : Attributes} (h : isLooseImage tag as = true) :
    containImage tag as ≠ as := by
  intro heq
  rw [containImage, if_pos h] at heq
  have hclasses := Attributes.classes_of_setClasses_eq (List.forall_mem_append.2
    ⟨fun _ => Attributes.isToken_of_mem_classes, List.forall_mem_singleton.2 (by decide)⟩) heq
  have hlength := congrArg List.length hclasses
  rw [List.length_append, List.length_singleton] at hlength
  omega

theorem fixPointed_ne_applied {name : String} {as : Attributes} {children : List Element}
    (h : (fixPointed name as children).attributes = as)
    (hchildren : ∀ child ∈ children, containImage child.tag child.attributes = child.attributes) :
    (fixPointed name as children).verdict ≠ .applied := by
  have hmarked : as.text? "data-shape" = some name := by
    unfold fixPointed at h
    dsimp only at h
    split at h
    · rw [Attributes.text?, Attributes.value?_of_set_eq h]
    · rename_i hmarked
      simpa using hmarked
  have htight : children.any (fun child => isLooseImage child.tag child.attributes) = false := by
    rw [List.any_eq_false]
    exact fun child hchild hloose => containImage_ne hloose (hchildren child hchild)
  simp [fixPointed, hmarked, htight]

/-- A radius that is written is the only one. -/
theorem filter_isRounded_withRadius {tokens : List String} {radius : String}
    (h : isRounded radius = true) : (withRadius tokens radius).filter isRounded = [radius] := by
  have hothers : (tokens.filter fun t => !isRounded t).filter isRounded = [] := by
    rw [List.filter_eq_nil_iff]
    intro t ht
    simpa using (List.mem_filter.1 ht).2
  rw [withRadius, List.filter_append, hothers, List.filter_cons_of_pos h, List.filter_nil,
    List.nil_append]

/-- A shape correction that leaves the element and its children as they were is not applied. -/
theorem fixShape_ne_applied {as : Attributes} {children : List Element}
    (h : (fixShape as children).attributes = as)
    (hchildren : ∀ child ∈ children,
      (fixShape as children).forChildren child.tag child.attributes = child.attributes) :
    (fixShape as children).verdict ≠ .applied := by
  have hfix := isShapeFix_fixShape as children
  generalize fixShape as children = f at hfix h hchildren ⊢
  cases hfix with
  | kept hverdict => exact hverdict
  | line hne => exact absurd (Attributes.classes_of_setClasses_eq (isToken_visibleHeight as) h).symm hne
  | pointed => exact fixPointed_ne_applied h hchildren
  | @round isCircle width height _ hother =>
    have htokens := Attributes.classes_of_setClasses_eq (isToken_withRadius as isCircle width height) h
    have hmem : cornerRadius isCircle width height ∈ as.classes := by
      rw [htokens]
      exact List.mem_append_right _ (List.mem_singleton_self _)
    have honly : as.classes.filter isRounded = [cornerRadius isCircle width height] := by
      rw [htokens]
      exact filter_isRounded_withRadius (isRounded_cornerRadius ..)
    exact absurd ⟨hmem, congrArg List.length honly⟩ hother

theorem forChildren_fixShape (as : Attributes) (children : List Element) :
    (fixShape as children).forChildren = .none ∨ (fixShape as children).forChildren = containImage := by
  have hfix := isShapeFix_fixShape as children
  generalize fixShape as children = f at hfix ⊢
  cases hfix with
  | kept => exact .inl rfl
  | line => exact .inl rfl
  | pointed => exact .inr rfl
  | round => exact .inl rfl

theorem isInert_containClass : IsInert containClass := by
  decide

/-- An image keeps the class that its parent has given it. -/
theorem isLasting_containImage : AttributeChange.IsLasting visit containImage := by
  intro st tag as children hkept
  by_cases hloose : isLooseImage tag as = true
  · have hedits := isWithin.attributes st ⟨tag, containImage tag as, children⟩
    rw [hkept, containImage, if_pos hloose] at hedits
    have hmem : containClass ∈ as.classes := by
      refine hedits.keepsInert _ ?_ isInert_containClass
      exact Attributes.mem_classes_setClasses (by decide)
        (List.mem_append_right _ (List.mem_singleton_self _))
    rw [isLooseImage, List.contains_iff_mem.2 hmem, Bool.not_true, Bool.and_false] at hloose
    exact absurd hloose Bool.false_ne_true
  · rw [containImage, if_neg hloose]

theorem isTelling : IsTelling visit fun _ => IsSettled where
  settled_of_kept := by
    intro st e _ hkept hchildren hstatic
    rw [visit_of_static hstatic] at hkept hchildren
    dsimp only at hkept hchildren
    have hgradient := fixGradient_ne_applied hkept
    rw [fixGradient_attributes hgradient] at hkept hchildren
    exact ⟨hgradient, fixShape_ne_applied hkept hchildren⟩
  isLasting := by
    intro st e
    cases hstatic : e.attributes.hasStaticClasses with
    | false =>
      rw [visit_of_not_static hstatic]
      exact AttributeChange.isLasting_none visit
    | true =>
      rw [visit_of_static hstatic]
      dsimp only
      obtain hnone | himage := forChildren_fixShape (fixGradient e.attributes).2 e.elements
      · rw [hnone]
        exact AttributeChange.isLasting_none visit
      · rw [himage]
        exact isLasting_containImage

theorem tells : pass.Tells :=
  isWalk.tells (fun _ => steady) fun _ => isTelling

end PostFixes

/-! ### Variables -/

namespace CssVariables

theorem countUnclean_eq_zero {s : Style} (h : normalizeStyle s = s) : countUnclean s = 0 := by
  have hentries : s.entries.map (fun entry => (entry.1, normalizeValue entry.2)) = s.entries :=
    congrArg Style.entries h
  have hsame := List.map_inj_left.1 (hentries.trans (List.map_id _).symm)
  rw [countUnclean, List.length_eq_zero_iff, List.filter_eq_nil_iff]
  intro entry hentry
  have hvalue : normalizeValue entry.2 = entry.2 := congrArg Prod.snd (hsame entry hentry)
  simpa using hvalue

theorem isTelling (design : VariableTable) :
    IsTelling (visit design) fun _ => IsSettled design := by
  refine .of_forChildren_none (fun _ _ => rfl) fun st e _ hkept => ?_
  have hcleaned : (cleanStyle (resolveClasses design st e.attributes).1.counters
      (resolveClasses design st e.attributes).2).2 = e.attributes := hkept
  have htokens : ∀ t ∈ e.attributes.classes, (TokenChange.of design t).IsKept := by
    have hclasses := classes_cleanStyle (resolveClasses design st e.attributes).1.counters
      (resolveClasses design st e.attributes).2
    rw [hcleaned, classes_resolveClasses_eq] at hclasses
    have hsame := List.map_inj_left.1 (hclasses.symm.trans (List.map_id _).symm)
    exact fun t ht => isKept_of_token_eq (Attributes.isToken_of_mem_classes ht) (hsame t ht)
  refine ⟨htokens, fun s hs => ?_⟩
  rw [resolveClasses_attributes st htokens] at hcleaned
  unfold cleanStyle at hcleaned
  rw [hs] at hcleaned
  dsimp only at hcleaned
  split at hcleaned
  · assumption
  · rw [(Attributes.style?_of_value? (Attributes.value?_of_set_eq hcleaned)).1] at hs
    exact countUnclean_eq_zero (Option.some.inj hs)

theorem tells : pass.Tells :=
  isWalk.tells (fun c => steady c.design) fun c => isTelling c.design

end CssVariables

/-! ### Standard steps -/

namespace ClassOptimizer

theorem length_mergeSquare_le (tokens : List String) :
    (mergeSquare tokens).length ≤ tokens.length := by
  by_cases h : ∃ step, IsSquare tokens step
  · obtain ⟨step, hstep⟩ := h
    exact Nat.le_of_lt (length_mergeSquare_of_isSquare hstep)
  · rw [mergeSquare_eq_self_iff.2 fun step hstep => h ⟨step, hstep⟩]

/-- No step adds a token, so that none has been dropped where as many come out as went in. -/
theorem areOptimal_of_dedupe_eq {tokens : List String} (h : dedupe (optimize tokens) = tokens) :
    AreOptimal tokens := by
  have hlength : (optimize tokens).length ≤ (dedupe (optimize tokens)).length := by
    rw [h]
    exact (length_mergeSquare_le _).trans_eq (List.length_map _)
  have hdistinct : dedupe (optimize tokens) = optimize tokens :=
    (dedupeFrom_sublist [] _).eq_of_length_le hlength
  have hoptimal : optimize tokens = tokens := hdistinct.symm.trans h
  rw [hoptimal] at h
  exact areOptimal_iff.2 ⟨hoptimal, dedupe_eq_self_iff.1 h⟩

theorem isToken_optimized {tokens : List String} (h : ∀ t ∈ tokens, IsToken t) :
    ∀ t ∈ dedupe (optimize tokens), IsToken t := by
  have hstepped : ∀ t ∈ tokens.map optimizeToken, IsToken t :=
    List.forall_mem_map.2 fun t ht => isToken_optimizeToken (h t ht)
  exact fun t ht => isToken_mergeSquare hstepped t (mem_dedupe.1 ht)

theorem isTelling : IsTelling visit fun _ => IsSettled := by
  refine .of_forChildren_none forChildren_visit fun counters e _ hkept => ?_
  cases hstatic : e.attributes.hasStaticClasses with
  | false => exact isSettled_of_not_static hstatic
  | true =>
    rw [visit_of_static hstatic] at hkept
    exact areOptimal_of_dedupe_eq (Attributes.classes_of_unless_eq
      (isToken_optimized fun t => Attributes.isToken_of_mem_classes) hkept)

theorem tells : pass.Tells :=
  isWalk.tells (fun _ => steady) fun _ => isTelling

end ClassOptimizer

end MarkupTidy
