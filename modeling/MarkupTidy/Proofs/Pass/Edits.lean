import Mathlib.Logic.Relation
import MarkupTidy.Pass.Builtin
import MarkupTidy.Proofs.Pass.Cleanup
import MarkupTidy.Proofs.Pass.Frame
import MarkupTidy.Proofs.Pass.Graphics
import MarkupTidy.Proofs.Pass.Resolving
import MarkupTidy.Proofs.Utility.ClassTokens
import MarkupTidy.Proofs.Utility.InertToken

/-! # What the passes edit

The passes that change attributes write class tokens, inline styles and the marks of shapes, and
nothing else.  All that they do to an element is a row of such edits, so that what one edit keeps the
passes keep.

* `Attributes.Edit`: one edit; `Attributes.Edits`: a row of edits.
* `Attributes.Amends`: attributes of which some may have other values, or have been added; the names of
  these are `writtenNames`.
* `Attributes.KeepsInert`: classes among which no inert token is missing.
* `edits_attributePasses`: each of the passes leaves the document as it was, but for edits.
* `skeleton_kept`: each of them keeps the document but for values of the names that it writes, and all
  built-in passes keep the code. -/

namespace MarkupTidy

/-! ### Edits -/

namespace Attributes

/-- One edit: other classes among which no inert token is missing, another style, or another mark of
a shape. -/
inductive Edit : Attributes → Attributes → Prop where
  | classes {as : Attributes} {tokens : List String}
    (h : ∀ t ∈ as.classes, IsInert t → t ∈ tokens) : Edit as (as.setClasses tokens)
  | style (as : Attributes) (value : AttributeValue) : Edit as (as.set "style" value)
  | shape (as : Attributes) (value : AttributeValue) : Edit as (as.set "data-shape" value)

/-- A row of edits. -/
abbrev Edits : Attributes → Attributes → Prop :=
  Relation.ReflTransGen Edit

theorem edits_classes {as : Attributes} {tokens : List String}
    (h : ∀ t ∈ as.classes, IsInert t → t ∈ tokens) : Edits as (as.setClasses tokens) :=
  .single (.classes h)

/-- Classes are edited, unless they are what they were. -/
theorem edits_classes_unless {as : Attributes} {tokens : List String}
    (h : ∀ t ∈ as.classes, IsInert t → t ∈ tokens) :
    Edits as (if tokens = as.classes then as else as.setClasses tokens) := by
  split
  · exact .refl
  · exact edits_classes h

/-! ### Names that are written -/

/-- The names of the attributes that edits write. -/
def writtenNames : List String :=
  [classAttribute, "style", "data-shape"]

/-- Attributes in their order, of which those with a written name may have other values; others with
written names may follow at the end. -/
inductive Amends : Attributes → Attributes → Prop where
  | added {more : Attributes} (h : ∀ a ∈ more, a.name ∈ writtenNames) : Amends [] more
  | kept (a : Attribute) {rest rest' : Attributes} :
    Amends rest rest' → Amends (a :: rest) (a :: rest')
  | changed {name : String} (h : name ∈ writtenNames) (value value' : AttributeValue)
    {rest rest' : Attributes} :
    Amends rest rest' → Amends (⟨name, value⟩ :: rest) (⟨name, value'⟩ :: rest')

namespace Amends

theorem refl (as : Attributes) : Amends as as := by
  induction as with
  | nil => exact .added (List.forall_mem_nil _)
  | cons a rest ih => exact .kept a ih

theorem written {as as' : Attributes} (h : Amends as as') (hnames : ∀ a ∈ as, a.name ∈ writtenNames) :
    ∀ a ∈ as', a.name ∈ writtenNames := by
  induction h with
  | added hmore => exact hmore
  | kept a _ ih =>
    obtain ⟨ha, hrest⟩ := List.forall_mem_cons.1 hnames
    exact List.forall_mem_cons.2 ⟨ha, ih hrest⟩
  | changed hname value value' _ ih =>
    obtain ⟨-, hrest⟩ := List.forall_mem_cons.1 hnames
    exact List.forall_mem_cons.2 ⟨hname, ih hrest⟩

theorem trans {as as' as'' : Attributes} (h : Amends as as') (h' : Amends as' as'') :
    Amends as as'' := by
  induction h generalizing as'' with
  | added hmore => exact .added (h'.written hmore)
  | kept a _ ih =>
    cases h' with
    | kept _ h' => exact .kept a (ih h')
    | changed hname value value' h' => exact .changed hname value value' (ih h')
  | changed hname value _ _ ih =>
    cases h' with
    | kept _ h' => exact .changed hname value _ (ih h')
    | changed _ _ value'' h' => exact .changed hname value value'' (ih h')

instance : IsPreorder Attributes Amends where
  refl := refl
  trans _ _ _ := trans

theorem set (as : Attributes) {name : String} (hname : name ∈ writtenNames)
    (value : AttributeValue) : Amends as (as.set name value) := by
  induction as with
  | nil => exact .added (List.forall_mem_singleton.2 hname)
  | cons a rest ih =>
    unfold Attributes.set
    split
    · rename_i heq
      obtain ⟨name', value'⟩ := a
      obtain rfl : name' = name := heq
      exact .changed hname value' value (refl rest)
    · exact .kept a ih

end Amends

theorem Edit.amends {as as' : Attributes} (h : Edit as as') : Amends as as' := by
  cases h with
  | classes _ => exact .set as (by decide) _
  | style value => exact .set as (by decide) value
  | shape value => exact .set as (by decide) value

theorem Edits.amends {as as' : Attributes} (h : Edits as as') : Amends as as' := by
  have hedit : Edit ≤ Amends := fun _ _ => Edit.amends
  exact Relation.reflTransGen_le_of_le hedit _ _ h

/-! ### Inert tokens -/

/-- Classes among which no inert token is missing. -/
def KeepsInert (before after : Attributes) : Prop :=
  ∀ t ∈ before.classes, IsInert t → t ∈ after.classes

instance : IsPreorder Attributes KeepsInert where
  refl _ _ ht _ := ht
  trans _ _ _ h h' t ht hinert := h' t (h t ht hinert) hinert

theorem Edit.keepsInert {as as' : Attributes} (h : Edit as as') : KeepsInert as as' := by
  intro t ht hinert
  cases h with
  | classes htokens =>
    exact mem_classes_setClasses (isToken_of_mem_classes ht) (htokens t ht hinert)
  | style value => rwa [classes_set_of_ne _ _ (by decide)]
  | shape value => rwa [classes_set_of_ne _ _ (by decide)]

theorem Edits.keepsInert {as as' : Attributes} (h : Edits as as') : KeepsInert as as' := by
  have hedit : Edit ≤ KeepsInert := fun _ _ => Edit.keepsInert
  exact Relation.reflTransGen_le_of_le hedit _ _ h

end Attributes

open Attributes

/-! ### The passes one by one -/

namespace FontDetection

theorem forChildren_visit (st : State) (e : Element) : (visit st e).forChildren = .none := by
  unfold visit
  split
  · rfl
  · dsimp only
    split
    · split <;> rfl
    · split <;> rfl

theorem isWithin : IsWithin Edits visit := by
  refine .of_forChildren_none (fun st e => ?_) forChildren_visit
  unfold visit
  split
  · exact .refl
  · dsimp only
    split
    · split
      · exact .refl
      · exact .single (.style _ _)
    · split
      · exact .single (.style _ _)
      · exact .refl

end FontDetection

namespace ClassCleanup

theorem mem_cleanTokens {t : String} (h : IsInert t) (counters : Counters) {tokens : List String}
    (ht : t ∈ tokens) : t ∈ (cleanTokens counters tokens).2 := by
  have hconverted : t ∈ (stripArtifacts tokens).map convertTextSize :=
    List.mem_map.2 ⟨t, h.mem_stripArtifacts ht, h.convertTextSize_eq⟩
  unfold cleanTokens
  dsimp only
  split
  · exact List.mem_append_left _ hconverted
  · exact hconverted

theorem edits_containOverflow (st : State) (e : Element) :
    Edits e.attributes (containOverflow st e).2 := by
  unfold containOverflow
  split
  · dsimp only
    split
    · exact .refl
    · exact edits_classes fun t ht _ => List.mem_append_left _ ht
  · exact .refl

theorem edits_cleaned (counters : Counters) (as : Attributes) :
    Edits as (if (cleanTokens counters as.classes).2 = as.classes then as
      else as.setClasses (cleanTokens counters as.classes).2) :=
  edits_classes_unless fun _ ht h => mem_cleanTokens h counters ht

theorem isWithin : IsWithin Edits visit := by
  refine .of_forChildren_none (fun st e => ?_) forChildren_visit
  cases hstatic : e.attributes.hasStaticClasses with
  | false =>
    rw [visit_of_not_static hstatic]
    exact .refl
  | true =>
    rw [visit_of_static hstatic]
    exact (edits_containOverflow _ e).trans (edits_cleaned _ _)

end ClassCleanup

namespace PostFixes

theorem edits_fixGradient (as : Attributes) : Edits as (fixGradient as).2 := by
  obtain ⟨-, hkept⟩ | ⟨value, used, s, hfound, -, -, hwritten⟩ := fixGradient_cases as
  · rw [hkept]
  · rw [hwritten]
    refine .head (.style as (.style (s.set "background" (.text value)))) (edits_classes ?_)
    intro t ht h
    rw [classes_set_of_ne _ _ (by decide)] at ht
    refine List.mem_filter.2 ⟨ht, ?_⟩
    simpa using h.not_mem_used hfound

/-- A shape correction that is a row of edits, to the element and to its children. -/
structure ShapeFix.IsEdits (f : ShapeFix) (as : Attributes) : Prop where
  attributes : Edits as f.attributes
  forChildren : ∀ tag as', Edits as' (f.forChildren tag as')

theorem ShapeFix.isEdits_none (v : Verdict) (as : Attributes) : (ShapeFix.none v as).IsEdits as :=
  ⟨.refl, fun _ _ => .refl⟩

theorem edits_containImage (tag : String) (as : Attributes) : Edits as (containImage tag as) := by
  unfold containImage
  split
  · exact edits_classes fun t ht _ => List.mem_append_left _ ht
  · exact .refl

theorem isEdits_fixPointed (name : String) (as : Attributes) (children : List Element) :
    (fixPointed name as children).IsEdits as := by
  refine ⟨?_, edits_containImage⟩
  unfold fixPointed
  dsimp only
  split
  · exact .single (.shape as _)
  · exact .refl

theorem isEdits_fixShape (as : Attributes) (children : List Element) :
    (fixShape as children).IsEdits as := by
  have hfix := isShapeFix_fixShape as children
  generalize fixShape as children = f at hfix ⊢
  cases hfix with
  | kept => exact ShapeFix.isEdits_none ..
  | line =>
    refine ⟨edits_classes fun t ht h => List.mem_map.2 ⟨t, ht, if_neg ?_⟩, fun _ _ => .refl⟩
    rw [Bool.or_eq_true, decide_eq_true_eq, decide_eq_true_eq, not_or]
    exact ⟨h.ne_height "0", h.ne_height "[0px]"⟩
  | pointed => exact isEdits_fixPointed _ as children
  | round => exact ⟨edits_classes fun t ht h => h.mem_withRadius ht _, fun _ _ => .refl⟩

theorem isWithin : IsWithin Edits visit where
  attributes := by
    intro counters e
    cases hstatic : e.attributes.hasStaticClasses with
    | false =>
      rw [visit_of_not_static hstatic]
      exact .refl
    | true =>
      rw [visit_of_static hstatic]
      exact (edits_fixGradient e.attributes).trans (isEdits_fixShape _ e.elements).attributes
  forChildren := by
    intro counters e tag as
    cases hstatic : e.attributes.hasStaticClasses with
    | false =>
      rw [visit_of_not_static hstatic]
      exact .refl
    | true =>
      rw [visit_of_static hstatic]
      exact (isEdits_fixShape _ e.elements).forChildren tag as

end PostFixes

namespace CssVariables

theorem edits_resolveClasses (design : VariableTable) (st : State) (as : Attributes) :
    Edits as (resolveClasses design st as).2 := by
  unfold resolveClasses
  split
  · refine edits_classes_unless fun t ht h => List.mem_map.2 ⟨t, ht, ?_⟩
    rw [h.tokenChange_eq]
    rfl
  · exact .refl

theorem edits_cleanStyle (counters : Counters) (as : Attributes) :
    Edits as (cleanStyle counters as).2 := by
  unfold cleanStyle
  split
  · exact .refl
  · split
    · exact .refl
    · exact .single (.style as _)

theorem isWithin (design : VariableTable) : IsWithin Edits (visit design) :=
  .of_forChildren_none
    (fun st e => (edits_resolveClasses design st e.attributes).trans (edits_cleanStyle _ _))
    fun _ _ => rfl

end CssVariables

namespace ClassOptimizer

theorem mem_optimize {t : String} (h : IsInert t) {tokens : List String} (ht : t ∈ tokens) :
    t ∈ dedupe (optimize tokens) := by
  have hstepped : t ∈ tokens.map optimizeToken := List.mem_map.2 ⟨t, ht, h.noStep⟩
  exact mem_dedupe.2 (h.mem_mergeSquare hstepped)

theorem forChildren_visit (counters : Counters) (e : Element) :
    (visit counters e).forChildren = .none := by
  cases hstatic : e.attributes.hasStaticClasses with
  | false => rw [visit_of_not_static hstatic]; rfl
  | true => rw [visit_of_static hstatic]; rfl

theorem isWithin : IsWithin Edits visit := by
  refine .of_forChildren_none (fun counters e => ?_) forChildren_visit
  cases hstatic : e.attributes.hasStaticClasses with
  | false =>
    rw [visit_of_not_static hstatic]
    exact .refl
  | true =>
    rw [visit_of_static hstatic]
    exact edits_classes_unless fun t ht h => mem_optimize h ht

end ClassOptimizer

/-! ### All of them -/

/-- The built-in passes that change nothing but attributes, in their usual order. -/
def attributePasses : List Pass :=
  [FontDetection.pass, ClassCleanup.pass, PostFixes.pass, CssVariables.pass, ClassOptimizer.pass]

/-- A pass over attributes makes edits and nothing else, however it ends. -/
theorem edits_attributePasses :
    ∀ p ∈ attributePasses, ∀ (d : Document) c, d.Matches Edits (p.run d c).document := by
  simp only [attributePasses, List.forall_mem_cons]
  exact ⟨FontDetection.isWalk.matches fun _ => FontDetection.isWithin,
    ClassCleanup.isWalk.matches fun _ => ClassCleanup.isWithin,
    PostFixes.isWalk.matches fun _ => PostFixes.isWithin,
    CssVariables.isWalk.matches fun c => CssVariables.isWithin c.design,
    ClassOptimizer.isWalk.matches fun _ => ClassOptimizer.isWithin, List.forall_mem_nil _⟩

theorem VectorComposites.map_code_inlineSegments (source : Source) (w : Walk State)
    (segments : List Segment) :
    (inlineSegments source w segments).1.map Segment.code? = segments.map Segment.code? := by
  induction segments generalizing w with
  | nil => rfl
  | cons segment rest ih =>
    cases segment with
    | code code => exact congrArg (some code :: ·) (ih w)
    | markup root => exact congrArg (none :: ·) (ih _)

theorem VectorWrappers.map_code_flattenSegments (count : Nat) (segments : List Segment) :
    (flattenSegments count segments).1.map Segment.code? = segments.map Segment.code? := by
  induction segments generalizing count with
  | nil => rfl
  | cons segment rest ih =>
    cases segment with
    | code source => exact congrArg (some source :: ·) (ih count)
    | markup root => exact congrArg (none :: ·) (ih _)

/-- However they end, the passes over attributes keep the document but for values of the names that
they write, and every built-in pass keeps all code in its place. -/
theorem skeleton_kept (d : Document) (c : Context) :
    (∀ p ∈ attributePasses, d.Matches Amends (p.run d c).document) ∧
      ∀ p ∈ builtinPasses,
        (p.run d c).document.segments.map Segment.code? = d.segments.map Segment.code? := by
  have hedits : ∀ p ∈ attributePasses, d.Matches Edits (p.run d c).document :=
    fun p hp => edits_attributePasses p hp d c
  refine ⟨fun p hp => (hedits p hp).mono fun _ _ h => h.amends, ?_⟩
  simp only [attributePasses, List.forall_mem_cons] at hedits
  obtain ⟨hfonts, hcleanup, hfixes, hvariables, hoptimizer, -⟩ := hedits
  simp only [builtinPasses, List.forall_mem_cons]
  exact ⟨hfonts.code_eq, hcleanup.code_eq,
    VectorComposites.map_code_inlineSegments _ _ d.segments,
    VectorWrappers.map_code_flattenSegments 0 d.segments, hfixes.code_eq, hvariables.code_eq,
    hoptimizer.code_eq, List.forall_mem_nil _⟩

/-- A font class that is written, one above a style that is no expression, and one that is not reached. -/
def threeFonts : Document :=
  ⟨[.code "a = ",
    .markup ⟨"p", [⟨"className", .text "font-['Inter:Bold']"⟩],
      [.element ⟨"b", [⟨"className", .text "font-['Inter:Bold']"⟩, ⟨"style", .text "x"⟩], []⟩,
        .element ⟨"i", [⟨"className", .text "font-['Inter:Bold']"⟩], [.text "c"]⟩]⟩,
    .code ";"]⟩

/-- What the passes keep, also where one fails midway. -/
theorem threeFonts_skeleton_kept :
    (FontDetection.pass.run threeFonts (.new .empty none)).result = .error .styleWithoutSource ∧
      FontDetection.pass ∈ attributePasses ∧ FontDetection.pass ∈ builtinPasses ∧
      threeFonts.Matches Amends
        (FontDetection.pass.run threeFonts (.new .empty none)).document ∧
      (FontDetection.pass.run threeFonts (.new .empty none)).document.segments.map Segment.code?
        = [some "a = ", none, some ";"] := by
  obtain ⟨hamends, hcode⟩ := skeleton_kept threeFonts (.new .empty none)
  have hmem : FontDetection.pass ∈ attributePasses ∧ FontDetection.pass ∈ builtinPasses :=
    ⟨List.mem_cons_self, List.mem_cons_self⟩
  have hfails : (FontDetection.pass.run threeFonts (.new .empty none)).result
      = .error .styleWithoutSource := by
    with_unfolding_all rfl
  exact ⟨hfails, hmem.1, hmem.2, hamends _ hmem.1, hcode _ hmem.2⟩

end MarkupTidy
