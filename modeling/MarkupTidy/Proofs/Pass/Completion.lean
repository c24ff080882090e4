import MarkupTidy.Pass.Builtin
import MarkupTidy.Proofs.Pass.Edits
import MarkupTidy.Proofs.Pass.Graphics

/-! # Passes that complete

A walk whose visits leave no change for children meets all elements as they were.  It then comes to
its end exactly if no element is refused, and its last state is that of visits to the elements in
turn.

* `Document.fault_walk_eq_none_iff`, `Document.state_walk`: the end of such a walk.
* `Document.attributes_walk`, `getElem?_attributesAfter`: what it leaves each element with.
* `Pass.Completes`, `completes_builtin`: the built-in passes after the first complete on every
  document.
* `FontDetection.TakesTypeface`, `FontDetection.exists_result_iff`: the elements on which the first
  one does.
* `FontDetection.mem_fonts_run_iff`: the typefaces that it has seen. -/

namespace MarkupTidy

variable {σ : Type}

/-! ### Walks that meet all elements as they were -/

/-- How a walk stands after it has met an element; a fault keeps it from going on. -/
def Walk.meet (visit : σ → Element → Visit σ) (w : Walk σ) (e : Element) : Walk σ :=
  if w.fault?.isSome then w else (visit w.state e).walk

section
variable {visit : σ → Element → Visit σ}

theorem Walk.foldl_meet_of_fault {w : Walk σ} (hw : w.fault?.isSome) (es : List Element) :
    es.foldl (Walk.meet visit) w = w := by
  induction es with
  | nil => rfl
  | cons e es ih => rwa [List.foldl_cons, meet, if_pos hw]

mutual
theorem Element.walk_eq_foldl (hnone : ∀ st e, (visit st e).forChildren = .none) (w : Walk σ) :
    ∀ e : Element, (Element.walk visit w .none e).2 = e.preorder.foldl (Walk.meet visit) w
  | ⟨tag, attributes, children⟩ => by
    rw [Element.walk, Element.preorder]
    dsimp only [AttributeChange.none]
    split
    · exact (Walk.foldl_meet_of_fault ‹_› _).symm
    · rename_i hfault
      rw [hnone, List.foldl_cons, Walk.meet, if_neg hfault]
      exact Node.walkAll_eq_foldl hnone _ children

theorem Node.walkAll_eq_foldl (hnone : ∀ st e, (visit st e).forChildren = .none) (w : Walk σ) :
    ∀ ns : List Node, (Node.walkAll visit w .none ns).2
      = (Node.preorderAll ns).foldl (Walk.meet visit) w
  | [] => rfl
  | .element e :: rest => by
    rw [Node.walkAll, Node.preorderAll, List.foldl_append, ← Element.walk_eq_foldl hnone w e]
    exact Node.walkAll_eq_foldl hnone _ rest
  | .text _ :: rest => Node.walkAll_eq_foldl hnone w rest
  | .expression _ :: rest => Node.walkAll_eq_foldl hnone w rest
end

theorem Segment.walkAll_eq_foldl (hnone : ∀ st e, (visit st e).forChildren = .none) (w : Walk σ)
    (segments : List Segment) : (Segment.walkAll visit w segments).2
      = (Document.elements ⟨segments⟩).foldl (Walk.meet visit) w := by
  induction segments generalizing w with
  | nil => rfl
  | cons segment rest ih =>
    cases segment with
    | code source => exact ih w
    | markup root =>
      rw [Segment.walkAll, Document.elements_markup, List.foldl_append,
        ← Element.walk_eq_foldl hnone w root]
      exact ih _

/-- Where no visit has a change for children, a walk meets the elements one after the other. -/
theorem Document.walk_eq_foldl (hnone : ∀ st e, (visit st e).forChildren = .none) (st : σ)
    (d : Document) : (d.walk visit st).2 = d.elements.foldl (Walk.meet visit) ⟨st, none⟩ :=
  Segment.walkAll_eq_foldl hnone ⟨st, none⟩ d.segments

theorem Walk.fault_foldl_meet_iff {accepted : Element → Prop}
    (hv : ∀ st e, (visit st e).fault? = none ↔ accepted e) (w : Walk σ) (es : List Element) :
    (es.foldl (Walk.meet visit) w).fault? = none ↔ w.fault? = none ∧ ∀ e ∈ es, accepted e := by
  induction es generalizing w with
  | nil => simp
  | cons e es ih =>
    rw [List.foldl_cons, ih, List.forall_mem_cons, ← and_assoc]
    refine and_congr_left fun _ => ?_
    by_cases hw : w.fault? = none
    · rw [meet, hw, ← hv w.state e]
      exact (and_iff_right rfl).symm
    · rw [meet, if_pos (Option.isSome_iff_ne_none.2 hw)]
      exact (and_iff_left_of_imp fun h => absurd h hw).symm

/-- The walk comes to its end exactly if no element is refused. -/
theorem Document.fault_walk_eq_none_iff {accepted : Element → Prop}
    (hnone : ∀ st e, (visit st e).forChildren = .none)
    (hv : ∀ st e, (visit st e).fault? = none ↔ accepted e) (st : σ) (d : Document) :
    (d.walk visit st).2.fault? = none ↔ ∀ e ∈ d.elements, accepted e := by
  rw [Document.walk_eq_foldl hnone, Walk.fault_foldl_meet_iff hv]
  exact and_iff_right rfl

theorem Walk.state_foldl_meet {st : σ} {es : List Element}
    (h : (es.foldl (Walk.meet visit) ⟨st, none⟩).fault? = none) :
    (es.foldl (Walk.meet visit) ⟨st, none⟩).state = endState visit st es := by
  induction es generalizing st with
  | nil => rfl
  | cons e es ih =>
    have hmeet : Walk.meet visit ⟨st, none⟩ e = ⟨(visit st e).state, (visit st e).fault?⟩ := rfl
    rw [List.foldl_cons, hmeet] at h ⊢
    cases hfault : (visit st e).fault? with
    | none =>
      rw [hfault] at h
      exact ih h
    | some fault =>
      rw [hfault, foldl_meet_of_fault rfl] at h
      exact absurd h (by simp)

/-- The state of a walk that has come to its end. -/
theorem Document.state_walk (hnone : ∀ st e, (visit st e).forChildren = .none) {st : σ}
    {d : Document} (h : (d.walk visit st).2.fault? = none) :
    (d.walk visit st).2.state = endState visit st d.elements := by
  rw [Document.walk_eq_foldl hnone] at h ⊢
  exact Walk.state_foldl_meet h

/-! ### What a walk leaves -/

variable (visit) in
/-- The attributes that visits to elements in turn leave these with. -/
def attributesAfter : σ → List Element → List Attributes
  | _, [] => []
  | st, e :: rest => (visit st e).attributes :: attributesAfter (visit st e).state rest

theorem attributesAfter_append (st : σ) (es es' : List Element) :
    attributesAfter visit st (es ++ es')
      = attributesAfter visit st es ++ attributesAfter visit (endState visit st es) es' := by
  induction es generalizing st with
  | nil => rfl
  | cons e es ih => rw [List.cons_append, attributesAfter, ih]; rfl

/-- Each element is left as its visit leaves it, in the state of the visits before. -/
theorem getElem?_attributesAfter (st : σ) (es : List Element) (i : Nat) :
    (attributesAfter visit st es)[i]?
      = es[i]?.map fun e => (visit (endState visit st (es.take i)) e).attributes := by
  induction es generalizing st i with
  | nil => simp [attributesAfter]
  | cons e es ih =>
    cases i with
    | zero => rfl
    | succ i =>
      rw [attributesAfter, List.getElem?_cons_succ, List.getElem?_cons_succ, ih, List.take_succ_cons]
      rfl

mutual
theorem Element.attributes_walk (hnone : ∀ st e, (visit st e).forChildren = .none)
    (hfault : ∀ st e, (visit st e).fault? = none) (st : σ) : ∀ e : Element,
    (Element.walk visit ⟨st, none⟩ .none e).1.preorder.map Element.attributes
        = attributesAfter visit st e.preorder ∧
      (Element.walk visit ⟨st, none⟩ .none e).2 = ⟨endState visit st e.preorder, none⟩
  | ⟨tag, attributes, children⟩ => by
    obtain ⟨hchildren, hend⟩ := Node.attributes_walkAll hnone hfault
      (visit st ⟨tag, attributes, children⟩).state children
    have hwalk : (visit st ⟨tag, attributes, children⟩).walk
        = ⟨(visit st ⟨tag, attributes, children⟩).state, none⟩ := congrArg (Walk.mk _) (hfault ..)
    rw [Element.walk_eq st rfl, hnone, hwalk]
    exact ⟨congrArg (_ :: ·) hchildren, hend⟩

theorem Node.attributes_walkAll (hnone : ∀ st e, (visit st e).forChildren = .none)
    (hfault : ∀ st e, (visit st e).fault? = none) (st : σ) : ∀ ns : List Node,
    (Node.preorderAll (Node.walkAll visit ⟨st, none⟩ .none ns).1).map Element.attributes
        = attributesAfter visit st (Node.preorderAll ns) ∧
      (Node.walkAll visit ⟨st, none⟩ .none ns).2 = ⟨endState visit st (Node.preorderAll ns), none⟩
  | [] => ⟨rfl, rfl⟩
  | .element e :: rest => by
    obtain ⟨hfirst, hstate⟩ := Element.attributes_walk hnone hfault st e
    obtain ⟨hothers, hend⟩ := Node.attributes_walkAll hnone hfault (endState visit st e.preorder) rest
    rw [Node.walkAll]
    dsimp only
    rw [hstate, Node.preorderAll, Node.preorderAll, List.map_append, hfirst, hothers,
      attributesAfter_append, endState_append]
    exact ⟨rfl, hend⟩
  | .text _ :: rest => Node.attributes_walkAll hnone hfault st rest
  | .expression _ :: rest => Node.attributes_walkAll hnone hfault st rest
end

theorem Segment.attributes_walkAll (hnone : ∀ st e, (visit st e).forChildren = .none)
    (hfault : ∀ st e, (visit st e).fault? = none) (st : σ) (segments : List Segment) :
    (Document.elements ⟨(Segment.walkAll visit ⟨st, none⟩ segments).1⟩).map Element.attributes
      = attributesAfter visit st (Document.elements ⟨segments⟩) := by
  induction segments generalizing st with
  | nil => rfl
  | cons segment rest ih =>
    cases segment with
    | code source => exact ih st
    | markup root =>
      obtain ⟨hroot, hstate⟩ := Element.attributes_walk hnone hfault st root
      rw [Segment.walkAll]
      dsimp only
      rw [hstate, Document.elements_markup, Document.elements_markup, List.map_append, hroot, ih,
        attributesAfter_append]

/-- A walk without faults leaves the elements as visits to them in turn do. -/
theorem Document.attributes_walk (hnone : ∀ st e, (visit st e).forChildren = .none)
    (hfault : ∀ st e, (visit st e).fault? = none) (st : σ) (d : Document) :
    (d.walk visit st).1.elements.map Element.attributes = attributesAfter visit st d.elements :=
  Segment.attributes_walkAll hnone hfault st d.segments

end

/-! ### Passes that complete everywhere -/

/-- A pass that completes on every document, as long as there are no assets. -/
def Pass.Completes (p : Pass) : Prop :=
  ∀ d c, c.assets? = none → ∃ counters, (p.run d c).result = .ok counters

/-- A walk none of whose visits fails completes. -/
theorem Pass.IsWalk.completes {p : Pass} {visit : Context → σ → Element → Visit σ}
    {start : Context → σ} {counters : σ → Counters} (h : p.IsWalk visit start counters)
    (hv : ∀ c st e, (visit c st e).fault? = none) : p.Completes := by
  intro d c _
  rw [h.result_eq, Walk.exists_result_iff]
  exact @Document.walk_invariant _ (visit c) (fun w => w.fault? = none) (fun st e _ => hv c st e)
    _ rfl d

theorem ClassCleanup.fault_visit (st : State) (e : Element) : (visit st e).fault? = none := by
  unfold visit
  dsimp only
  split <;> split <;> rfl

theorem PostFixes.fault_visit (counters : Counters) (e : Element) :
    (visit counters e).fault? = none := by
  unfold visit
  split <;> rfl

theorem ClassOptimizer.fault_visit (counters : Counters) (e : Element) :
    (visit counters e).fault? = none := by
  unfold visit
  split <;> rfl

theorem VectorComposites.completes : pass.Completes := fun d _ hc =>
  let ⟨counters, hr, _⟩ := isIdleOn_of_no_assets d hc
  ⟨counters, hr⟩

/-- The built-in passes after the first complete, whatever they are run on. -/
theorem completes_builtin : ∀ p ∈ builtinPasses.tail, p.Completes := by
  simp only [builtinPasses, List.tail_cons, List.forall_mem_cons]
  exact ⟨ClassCleanup.isWalk.completes fun _ => ClassCleanup.fault_visit,
    VectorComposites.completes, fun _ _ _ => ⟨_, rfl⟩,
    PostFixes.isWalk.completes fun _ => PostFixes.fault_visit,
    CssVariables.isWalk.completes fun _ _ _ => rfl,
    ClassOptimizer.isWalk.completes fun _ => ClassOptimizer.fault_visit, by simp⟩

/-! ### Fonts -/

/-- Whether properties can be put under the `style` attribute: a flag or a text cannot take any. -/
def Attributes.takesStyle (as : Attributes) : Bool :=
  match as.value? "style" with
  | none | some (.style _) | some (.expression _) => true
  | some .flag | some (.text _) => false

theorem Context.mem_addFont {fonts : List FontUse} {font f : FontUse} :
    f ∈ addFont fonts font ↔ f ∈ fonts ∨ f = font := by
  unfold addFont
  split
  · rename_i h
    refine (or_iff_left_of_imp ?_).symm
    rintro rfl
    exact List.contains_iff_mem.1 h
  · simp

namespace FontDetection

/-- The typeface that an element is given, as it is imported. -/
def typeface? (e : Element) : Option FontUse :=
  (firstFont? e.attributes.classes).map fun font => (font.family, font.weight)

/-- An element that can be given its typeface, if it has one. -/
def TakesTypeface (e : Element) : Prop :=
  (typeface? e).isSome → e.attributes.takesStyle

instance (e : Element) : Decidable (TakesTypeface e) :=
  inferInstanceAs (Decidable (_ → _))

theorem fault_visit_eq_none_iff (st : State) (e : Element) :
    (visit st e).fault? = none ↔ TakesTypeface e := by
  unfold visit TakesTypeface typeface? Attributes.takesStyle
  cases firstFont? e.attributes.classes with
  | none => exact iff_of_true rfl (by simp)
  | some font =>
    rw [Attributes.styleOrNew?]
    cases e.attributes.value? "style" with
    | none =>
      refine iff_of_true ?_ fun _ => rfl
      dsimp only
      split <;> rfl
    | some value =>
      cases value with
      | flag => simp [Visit.fail]
      | text value => simp [Visit.fail]
      | expression source => exact iff_of_true rfl fun _ => rfl
      | style s =>
        refine iff_of_true ?_ fun _ => rfl
        dsimp only
        split <;> rfl

theorem fault_visit (st : State) (e : Element) {fault : PassFault}
    (h : (visit st e).fault? = some fault) : fault = .styleWithoutSource := by
  unfold visit at h
  split at h
  · exact absurd h (by simp [Visit.keep, Visit.change])
  · dsimp only at h
    split at h
    · split at h <;> exact absurd h (by simp [Visit.keep, Visit.change])
    · split at h
      · exact absurd h (by simp [Visit.change])
      · exact (Option.some.inj h).symm

theorem fonts_visit (st : State) (e : Element) :
    (visit st e).state.fonts = (typeface? e).elim st.fonts (Context.addFont st.fonts) := by
  unfold visit typeface?
  cases firstFont? e.attributes.classes with
  | none => rfl
  | some font =>
    dsimp only
    split
    · split <;> rfl
    · split <;> rfl

theorem mem_fonts_endState_iff {st : State} {es : List Element} {f : FontUse} :
    f ∈ (endState visit st es).fonts ↔ f ∈ st.fonts ∨ ∃ e ∈ es, typeface? e = some f := by
  induction es generalizing st with
  | nil => simp [endState]
  | cons e es ih =>
    rw [endState_cons, ih, fonts_visit, List.exists_mem_cons_iff, ← or_assoc]
    refine or_congr_left ?_
    cases typeface? e with
    | none => simp
    | some font =>
      rw [Option.elim_some, Context.mem_addFont, Option.some.injEq]
      exact or_congr_right eq_comm

/-- The pass completes exactly if every element can be given its typeface. -/
theorem exists_result_iff (d : Document) (c : Context) :
    (∃ counters, (pass.run d c).result = .ok counters) ↔ ∀ e ∈ d.elements, TakesTypeface e := by
  rw [isWalk.result_eq, Walk.exists_result_iff]
  exact Document.fault_walk_eq_none_iff forChildren_visit fault_visit_eq_none_iff _ d

/-- There is one reason for which the pass fails. -/
theorem eq_of_result_error {d : Document} {c : Context} {fault : PassFault}
    (h : (pass.run d c).result = .error fault) : fault = .styleWithoutSource := by
  have hwalk := @Document.walk_invariant _ visit
    (fun w => ∀ fault, w.fault? = some fault → fault = .styleWithoutSource)
    (fun st e _ fault => fault_visit st e) ⟨c.fonts, []⟩ (fun _ h => absurd h (by simp)) d
  rw [isWalk.result_eq, Walk.result] at h
  split at h
  · rename_i fault' hfault
    rw [← Except.error.inj h]
    exact hwalk fault' hfault
  · exact absurd h (by simp)

/-- Where the pass completes, the typefaces of all elements have been seen, and no others. -/
theorem mem_fonts_run_iff {d : Document} {c : Context} (h : ∀ e ∈ d.elements, TakesTypeface e)
    {f : FontUse} : f ∈ (pass.run d c).context.fonts ↔
      f ∈ c.fonts ∨ ∃ e ∈ d.elements, typeface? e = some f := by
  have hfault := (Document.fault_walk_eq_none_iff forChildren_visit fault_visit_eq_none_iff
    ⟨c.fonts, []⟩ d).2 h
  have hfonts : (pass.run d c).context.fonts = (d.walk visit ⟨c.fonts, []⟩).2.state.fonts := rfl
  rw [hfonts, Document.state_walk forChildren_visit hfault, mem_fonts_endState_iff]

end FontDetection

end MarkupTidy
