import MarkupTidy.Pass.Builtin
import MarkupTidy.Proofs.Pass.Graphics
import MarkupTidy.Proofs.Pass.Telling

/-! # Counters that tell of changes

Every built-in pass counts a change exactly where it changes the document.  The passes that put other
elements in place are no walks over attributes: what they put in place differs from what was there.

* `VectorComposites.tells`, `VectorWrappers.tells`: the passes that put other elements in place.
* `changes_counted_iff`: all of them. -/

namespace MarkupTidy

/-! ### Composites -/

namespace VectorComposites

/-- One walk goes on from another: a count of changes or a fault that the first one has, the second
one has too. -/
structure GoesOn (w w' : Walk State) : Prop where
  isIdle : w'.state.counters.IsIdle → w.state.counters.IsIdle
  fault_eq_none : w'.fault? = none → w.fault? = none

namespace GoesOn

theorem refl (w : Walk State) : GoesOn w w :=
  ⟨id, id⟩

theorem trans {w w' w'' : Walk State} (h : GoesOn w w') (h' : GoesOn w' w'') : GoesOn w w'' :=
  ⟨fun hidle => h.isIdle (h'.isIdle hidle), fun hfault => h.fault_eq_none (h'.fault_eq_none hfault)⟩

end GoesOn

theorem tag_of_ofContainer? {e : Element} {layers : List Layer}
    (h : Layer.ofContainer? e = some layers) : e.tag = "div" := by
  unfold Layer.ofContainer? at h
  split at h
  · rename_i hcontainer
    simp only [Bool.and_eq_true, decide_eq_true_eq] at hcontainer
    exact hcontainer.1
  · exact absurd h (by simp)

theorem tag_of_inline {source : Source} {notices : List Notice} {container : Attributes}
    {layers : List Layer} {graphic : Element}
    (h : (inline source notices container layers).2 = .ok (some graphic)) : graphic.tag = "svg" := by
  unfold inline at h
  split at h
  · exact absurd h (by simp)
  · rename_i folder _
    split at h
    · dsimp only at h
      cases himages : (readLayers source folder notices layers).2 with
      | error fault =>
        rw [himages] at h
        exact absurd h (by simp [Except.map])
      | ok images =>
        rw [himages] at h
        cases images with
        | nil => exact absurd h (by simp [Except.map])
        | cons first rest =>
          have hgraphic := Except.ok.inj h
          dsimp only at hgraphic
          split at hgraphic
          · exact absurd hgraphic (by simp)
          · exact Option.some.inj hgraphic ▸ rfl
    · exact absurd h (by simp)

/-- A graphic that is put in place is counted, and it is no container; otherwise nothing that counts
has happened, unless a fault has. -/
theorem examine_cases (source : Source) (w : Walk State) (e : Element) :
    GoesOn w (examine source w e).2 ∧
      ((∃ graphic, (examine source w e).1 = some graphic ∧ graphic.tag ≠ e.tag ∧
          ¬(examine source w e).2.state.counters.IsIdle) ∨
        (examine source w e).1 = none ∧
          (w.state.counters.IsIdle → (examine source w e).2.state.counters.IsIdle)) := by
  have hinlined : "compositesInlined" ∉ Counters.observational := by decide
  have hunrecognized : "compositesUnrecognized" ∈ Counters.observational := by decide
  unfold examine
  cases hlayers : Layer.ofContainer? e with
  | none => exact ⟨.refl w, .inr ⟨rfl, id⟩⟩
  | some layers =>
    dsimp only
    split
    · exact ⟨⟨id, fun h => absurd h (by simp)⟩, .inr ⟨rfl, id⟩⟩
    · exact ⟨⟨fun h => (Counters.isIdle_count.1 h).1, id⟩,
        .inr ⟨rfl, fun h => Counters.isIdle_count.2 ⟨h, hunrecognized⟩⟩⟩
    · rename_i graphic hgraphic
      refine ⟨⟨fun h => (Counters.isIdle_count.1 h).1, id⟩, .inl ⟨graphic, rfl, ?_, fun h =>
        hinlined (Counters.isIdle_count.1 h).2⟩⟩
      rw [tag_of_inline hgraphic, tag_of_ofContainer? hlayers]
      decide

mutual
theorem goesOn_inlineElement (source : Source) (w : Walk State) :
    ∀ e : Element, GoesOn w (inlineElement source w e).2
  | ⟨tag, attributes, children⟩ => by
    have hexamine := (examine_cases source w ⟨tag, attributes, children⟩).1
    rw [inlineElement]
    split
    · exact .refl w
    · split
      · rename_i graphic w' he
        rwa [he] at hexamine
      · rename_i w' he
        rw [he] at hexamine
        exact hexamine.trans (goesOn_inlineNodes source w' children)

theorem goesOn_inlineNodes (source : Source) (w : Walk State) :
    ∀ ns : List Node, GoesOn w (inlineNodes source w ns).2
  | [] => .refl w
  | .element e :: rest =>
    (goesOn_inlineElement source w e).trans (goesOn_inlineNodes source _ rest)
  | .text _ :: rest => goesOn_inlineNodes source w rest
  | .expression _ :: rest => goesOn_inlineNodes source w rest
end

theorem goesOn_inlineSegments (source : Source) (w : Walk State) (segments : List Segment) :
    GoesOn w (inlineSegments source w segments).2 := by
  induction segments generalizing w with
  | nil => exact .refl w
  | cons segment rest ih =>
    cases segment with
    | code code => exact ih w
    | markup root => exact (goesOn_inlineElement source w root).trans (ih _)

mutual
/-- A walk without faults stays idle exactly if it leaves the element as it was. -/
theorem isIdle_inlineElement_iff (source : Source) {w : Walk State}
    (hw : w.state.counters.IsIdle) :
    ∀ e : Element, (inlineElement source w e).2.fault? = none →
      ((inlineElement source w e).2.state.counters.IsIdle ↔ (inlineElement source w e).1 = e)
  | ⟨tag, attributes, children⟩ => by
    obtain ⟨-, hexamine⟩ := examine_cases source w ⟨tag, attributes, children⟩
    rw [inlineElement]
    split
    · exact fun _ => iff_of_true hw rfl
    · split
      · rename_i graphic w' he
        rw [he] at hexamine
        obtain ⟨graphic', heq, htag, hcounted⟩ | ⟨hnone, -⟩ := hexamine
        · obtain rfl := Option.some.inj heq
          exact fun _ => iff_of_false hcounted fun heq => htag (congrArg Element.tag heq)
        · exact absurd hnone (by simp)
      · rename_i w' he
        rw [he] at hexamine
        obtain ⟨graphic, hsome, -⟩ | ⟨-, hidle⟩ := hexamine
        · exact absurd hsome (by simp)
        · intro hfault
          rw [isIdle_inlineNodes_iff source (hidle hw) children hfault]
          simp

theorem isIdle_inlineNodes_iff (source : Source) {w : Walk State}
    (hw : w.state.counters.IsIdle) :
    ∀ ns : List Node, (inlineNodes source w ns).2.fault? = none →
      ((inlineNodes source w ns).2.state.counters.IsIdle ↔ (inlineNodes source w ns).1 = ns)
  | [] => fun _ => iff_of_true hw rfl
  | .element e :: rest => by
    intro hfault
    have hgoes := goesOn_inlineNodes source (inlineElement source w e).2 rest
    have hfirst := isIdle_inlineElement_iff source hw e (hgoes.fault_eq_none hfault)
    constructor
    · intro hidle
      have hafter := hgoes.isIdle hidle
      have hrest := (isIdle_inlineNodes_iff source hafter rest hfault).1 hidle
      exact congrArg₂ (fun e rest => .element e :: rest) (hfirst.1 hafter) hrest
    · intro heq
      obtain ⟨he, hrest⟩ := List.cons.inj heq
      exact (isIdle_inlineNodes_iff source (hfirst.2 (Node.element.inj he)) rest hfault).2 hrest
  | .text value :: rest => fun hfault =>
    (isIdle_inlineNodes_iff source hw rest hfault).trans (List.cons_inj_right (Node.text value)).symm
  | .expression code :: rest => fun hfault =>
    (isIdle_inlineNodes_iff source hw rest hfault).trans
      (List.cons_inj_right (Node.expression code)).symm
end

theorem isIdle_inlineSegments_iff (source : Source) {w : Walk State}
    (hw : w.state.counters.IsIdle) {segments : List Segment}
    (hfault : (inlineSegments source w segments).2.fault? = none) :
    (inlineSegments source w segments).2.state.counters.IsIdle ↔
      (inlineSegments source w segments).1 = segments := by
  induction segments generalizing w with
  | nil => exact iff_of_true hw rfl
  | cons segment rest ih =>
    cases segment with
    | code code => exact (ih hw hfault).trans (List.cons_inj_right (Segment.code code)).symm
    | markup root =>
      have hgoes := goesOn_inlineSegments source (inlineElement source w root).2 rest
      have hroot := isIdle_inlineElement_iff source hw root (hgoes.fault_eq_none hfault)
      constructor
      · intro hidle
        have hafter := hgoes.isIdle hidle
        exact congrArg₂ (fun root rest => .markup root :: rest) (hroot.1 hafter)
          ((ih hafter hfault).1 hidle)
      · intro heq
        obtain ⟨he, hrest⟩ := List.cons.inj heq
        exact (ih (hroot.2 (Segment.markup.inj he)) hfault).2 hrest

theorem tells : pass.Tells := by
  intro d c counters hcs
  have hfault : (inlineSegments ⟨d.assetBindings, c.assets?⟩ ⟨⟨[], []⟩, none⟩ d.segments).2.fault?
      = none := Walk.exists_result_iff.1 ⟨counters, hcs⟩
  have hiff := isIdle_inlineSegments_iff ⟨d.assetBindings, c.assets?⟩
    (w := ⟨⟨[], []⟩, none⟩) Counters.isIdle_nil hfault
  have hresult : (inlineSegments ⟨d.assetBindings, c.assets?⟩ ⟨⟨[], []⟩, none⟩
      d.segments).2.result State.counters = .ok counters := hcs
  rw [Walk.result, hfault] at hresult
  rw [← Except.ok.inj hresult, hiff]
  exact ⟨fun heq => congrArg Document.mk heq, fun heq => congrArg Document.segments heq⟩

end VectorComposites

/-! ### Wrappers -/

namespace VectorWrappers

mutual
/-- An element that is left as it was is no wrapper, and has none below it. -/
theorem count_flattenElement_of_eq (count : Nat) :
    ∀ e : Element, (flattenElement count e).1 = e → (flattenElement count e).2 = count
  | ⟨tag, attributes, children⟩ => by
    rw [flattenElement]
    split
    · rename_i hwrapper
      intro heq
      have htag := tag_flattenImage (count + 1) attributes
        fun x hx => tag_of_isWrapper hwrapper hx
      rw [heq] at htag
      unfold isWrapper at hwrapper
      simp [show tag = "img" from htag] at hwrapper
    · exact fun heq => count_flattenNodes_of_eq count children (congrArg Element.children heq)

theorem count_flattenNodes_of_eq (count : Nat) :
    ∀ ns : List Node, (flattenNodes count ns).1 = ns → (flattenNodes count ns).2 = count
  | [] => fun _ => rfl
  | .element e :: rest => by
    intro heq
    obtain ⟨hfirst, hrest⟩ := List.cons.inj heq
    have hcount := count_flattenElement_of_eq count e (Node.element.inj hfirst)
    rw [hcount] at hrest
    rw [flattenNodes]
    dsimp only
    rw [hcount]
    exact count_flattenNodes_of_eq count rest hrest
  | .text _ :: rest => fun heq => count_flattenNodes_of_eq count rest (List.cons.inj heq).2
  | .expression _ :: rest => fun heq => count_flattenNodes_of_eq count rest (List.cons.inj heq).2
end

theorem count_flattenSegments_of_eq (count : Nat) {segments : List Segment}
    (heq : (flattenSegments count segments).1 = segments) :
    (flattenSegments count segments).2 = count := by
  induction segments generalizing count with
  | nil => rfl
  | cons segment rest ih =>
    cases segment with
    | code source => exact ih count (List.cons.inj heq).2
    | markup root =>
      obtain ⟨hfirst, hrest⟩ := List.cons.inj heq
      have hcount := count_flattenElement_of_eq count root (Segment.markup.inj hfirst)
      rw [hcount] at hrest
      rw [flattenSegments]
      dsimp only
      rw [hcount]
      exact ih count hrest

theorem tells : pass.Tells := by
  intro d c counters hcs
  rw [← Pass.isIdleOn_of_ok hcs, isIdleOn_iff]
  refine ⟨run_document c, fun heq => (flattenSegments_eq_iff 0).1 ?_⟩
  exact count_flattenSegments_of_eq 0 (congrArg Document.segments heq)

end VectorWrappers

/-! ### All of them -/

theorem tells_builtin : ∀ p ∈ builtinPasses, p.Tells := by
  simp only [builtinPasses, List.forall_mem_cons]
  exact ⟨FontDetection.tells, ClassCleanup.tells, VectorComposites.tells, VectorWrappers.tells,
    PostFixes.tells, CssVariables.tells, ClassOptimizer.tells, List.forall_mem_nil _⟩

/-- A built-in pass that completes has counted something else than what it has seen exactly if it has
changed the document. -/
theorem changes_counted_iff : ∀ p ∈ builtinPasses, ∀ d c counters,
    (p.run d c).result = .ok counters →
      ((∃ key ∈ counters.keys, key ∉ Counters.observational) ↔ (p.run d c).document ≠ d) := by
  intro p hp d c counters hcs
  rw [Ne, ← tells_builtin p hp d c counters hcs]
  simp only [Counters.IsIdle, not_forall, exists_prop]

/-- A line of no height, and a blend mode that is only seen. -/
def blendedLine : Document :=
  ⟨[.markup ⟨"hr",
    [⟨"data-name", .text "line"⟩, ⟨"className", .text "h-0 mix-blend-screen"⟩], []⟩]⟩

theorem blendedLine_changes_counted :
    PostFixes.pass ∈ builtinPasses ∧
      (PostFixes.pass.run blendedLine (.new .empty none)).result
        = .ok [("shapesFixed", 1), ("blendModesVerified", 1)] ∧
      ((∃ key ∈ OrderedMap.keys [("shapesFixed", (1 : Int)), ("blendModesVerified", 1)],
          key ∉ Counters.observational) ↔
        (PostFixes.pass.run blendedLine (.new .empty none)).document ≠ blendedLine) ∧
      (PostFixes.pass.run blendedLine (.new .empty none)).document ≠ blendedLine := by
  have hpass : PostFixes.pass ∈ builtinPasses := by simp [builtinPasses]
  have hresult : (PostFixes.pass.run blendedLine (.new .empty none)).result
      = .ok [("shapesFixed", 1), ("blendModesVerified", 1)] := by
    with_unfolding_all rfl
  have hiff := changes_counted_iff _ hpass blendedLine (.new .empty none) _ hresult
  exact ⟨hpass, hresult, hiff, hiff.1 ⟨"shapesFixed", by decide, by decide⟩⟩

end MarkupTidy
