import MarkupTidy.Pass.ClassOptimizer
import MarkupTidy.Pass.CssVariables
import MarkupTidy.Proofs.Pass.Cleanup

/-! # Variables and steps that are left alone

* `CssVariables.IsSettled`, `CssVariables.steady`: an element whose tokens stay as they are and
  whose style has its references in clean form.
* `ClassOptimizer.AreOptimal`, `ClassOptimizer.steady`: an element with optimal classes. -/

namespace MarkupTidy

/-! ### Variables -/

namespace CssVariables

/-- A change that leaves its token alone. -/
def TokenChange.IsKept (change : TokenChange) : Prop :=
  change = .plain ∨ change = .placeholder .unrecognized

instance (change : TokenChange) : Decidable change.IsKept :=
  inferInstanceAs (Decidable (_ ∨ _))

theorem TokenChange.IsKept.token_eq {change : TokenChange} (h : change.IsKept) (written : String) :
    change.token written = written := by
  rcases h with rfl | rfl <;> rfl

/-- A change leaves its token alone exactly if it counts nothing but what it has seen. -/
theorem TokenChange.isKept_iff {change : TokenChange} :
    change.IsKept ↔ ∀ key, change.counter? = some key → key ∈ Counters.observational := by
  unfold IsKept
  cases change with
  | plain => simp [counter?]
  | border entry => simp [counter?, Counters.observational]
  | placeholder resolution =>
    cases resolution <;> simp [counter?, Counters.observational]

theorem isIdle_note_iff {st : State} {change : TokenChange} :
    (st.note change).counters.IsIdle ↔ st.counters.IsIdle ∧ change.IsKept := by
  rw [TokenChange.isKept_iff]
  unfold State.note
  cases hc : change.counter? with
  | none => simp
  | some key => simp [Counters.isIdle_count]

theorem isIdle_foldl_note_iff {st : State} {changes : List TokenChange} :
    (changes.foldl State.note st).counters.IsIdle ↔
      st.counters.IsIdle ∧ ∀ change ∈ changes, change.IsKept := by
  induction changes generalizing st with
  | nil => simp
  | cons change rest ih =>
    rw [List.foldl_cons, ih, isIdle_note_iff, List.forall_mem_cons, and_assoc]

theorem arePositive_foldl_note {st : State} (h : st.counters.ArePositive)
    (changes : List TokenChange) : (changes.foldl State.note st).counters.ArePositive := by
  induction changes generalizing st with
  | nil => exact h
  | cons change rest ih =>
    refine ih ?_
    unfold State.note
    cases change.counter? with
    | none => exact h
    | some key => exact h.count key

/-- An element with tokens that stay as they are, and with clean references in its style. -/
structure IsSettled (design : VariableTable) (e : Element) : Prop where
  tokens : ∀ t ∈ e.attributes.classes, (TokenChange.of design t).IsKept
  style : ∀ s, e.attributes.style? = some s → countUnclean s = 0

theorem isSettled_iff {design : VariableTable} {e : Element} :
    IsSettled design e ↔ (∀ t ∈ e.attributes.classes, (TokenChange.of design t).IsKept) ∧
      e.attributes.style?.all (fun s => countUnclean s = 0) = true := by
  have hstyle : e.attributes.style?.all (fun s => countUnclean s = 0) = true ↔
      ∀ s, e.attributes.style? = some s → countUnclean s = 0 := by
    simp [Option.all_eq_true]
  rw [hstyle]
  exact ⟨fun ⟨tokens, style⟩ => ⟨tokens, style⟩, fun ⟨tokens, style⟩ => ⟨tokens, style⟩⟩

instance (design : VariableTable) (e : Element) : Decidable (IsSettled design e) :=
  decidable_of_iff _ isSettled_iff.symm

theorem isIdle_resolveClasses_iff {design : VariableTable} {st : State} {attributes : Attributes} :
    (resolveClasses design st attributes).1.counters.IsIdle ↔
      st.counters.IsIdle ∧ ∀ t ∈ attributes.classes, (TokenChange.of design t).IsKept := by
  unfold resolveClasses
  cases hstatic : attributes.hasStaticClasses with
  | false =>
    rw [Attributes.classes_of_not_static hstatic]
    simp
  | true =>
    rw [if_pos rfl]
    dsimp only
    rw [isIdle_foldl_note_iff, List.forall_mem_map]

theorem resolveClasses_attributes {design : VariableTable} (st : State) {attributes : Attributes}
    (h : ∀ t ∈ attributes.classes, (TokenChange.of design t).IsKept) :
    (resolveClasses design st attributes).2 = attributes := by
  have hresolved : attributes.classes.map (fun t => (TokenChange.of design t).token t)
      = attributes.classes := by
    rw [List.map_congr_left fun t ht => (h t ht).token_eq t, List.map_id']
  unfold resolveClasses
  cases attributes.hasStaticClasses with
  | false => rfl
  | true =>
    rw [if_pos rfl]
    exact if_pos hresolved

theorem isIdle_cleanStyle_iff {counters : Counters} {attributes : Attributes} :
    (cleanStyle counters attributes).1.IsIdle ↔
      counters.IsIdle ∧ ∀ s, attributes.style? = some s → countUnclean s = 0 := by
  have hkey : "styleVarsNormalized" ∉ Counters.observational := by decide
  unfold cleanStyle
  cases attributes.style? with
  | none => simp
  | some s =>
    by_cases hs : countUnclean s = 0
    · simp [hs]
    · simp [hs, Counters.isIdle_add, hkey]

theorem cleanStyle_attributes (counters : Counters) {attributes : Attributes}
    (h : ∀ s, attributes.style? = some s → countUnclean s = 0) :
    (cleanStyle counters attributes).2 = attributes := by
  unfold cleanStyle
  cases hs : attributes.style? with
  | none => rfl
  | some s => simp [h s hs]

/-- A visit counts a change exactly where a token or a style value is replaced. -/
theorem isQuiet_visit_iff {design : VariableTable} {st : State} {e : Element} :
    (visit design st e).walk.IsQuiet (fun st => st.counters.IsIdle) ↔
      st.counters.IsIdle ∧ IsSettled design e := by
  have hvisit : (visit design st e).walk.IsQuiet (fun st => st.counters.IsIdle) ↔
      (cleanStyle (resolveClasses design st e.attributes).1.counters
        (resolveClasses design st e.attributes).2).1.IsIdle := and_iff_right rfl
  rw [hvisit, isIdle_cleanStyle_iff, isIdle_resolveClasses_iff, and_assoc]
  refine and_congr_right fun _ => ?_
  constructor
  · rintro ⟨htokens, hstyle⟩
    rw [resolveClasses_attributes st htokens] at hstyle
    exact ⟨htokens, hstyle⟩
  · rintro ⟨htokens, hstyle⟩
    rw [resolveClasses_attributes st htokens]
    exact ⟨htokens, hstyle⟩

theorem steady (design : VariableTable) :
    IsSteady (visit design) (fun st => st.counters.IsIdle) fun _ => IsSettled design where
  isQuiet_iff := isQuiet_visit_iff
  attributes_eq := by
    intro st e h
    have hvisit : (visit design st e).attributes =
        (cleanStyle (resolveClasses design st e.attributes).1.counters
          (resolveClasses design st e.attributes).2).2 := rfl
    rw [hvisit, resolveClasses_attributes st h.tokens]
    exact cleanStyle_attributes _ h.style
  forChildren_eq := fun _ _ _ => rfl

theorem arePositive_visit (design : VariableTable) (st : State) (e : Element)
    (h : st.counters.ArePositive) : (visit design st e).state.counters.ArePositive := by
  have hresolve : (resolveClasses design st e.attributes).1.counters.ArePositive := by
    unfold resolveClasses
    split
    · exact arePositive_foldl_note h _
    · exact h
  have hvisit : (visit design st e).state.counters =
      (cleanStyle (resolveClasses design st e.attributes).1.counters
        (resolveClasses design st e.attributes).2).1 := rfl
  rw [hvisit]
  unfold cleanStyle
  split
  · exact hresolve
  · split
    · exact hresolve
    · rename_i hne
      exact hresolve.add _ (Int.natCast_pos.2 (Nat.pos_of_ne_zero hne))

theorem isWalk :
    pass.IsWalk (fun c => visit c.design) (fun c => ⟨c.classes, [], []⟩) State.counters :=
  ⟨fun _ _ => rfl, fun _ _ => rfl, fun _ => rfl⟩

theorem isIdleOn_iff (d : Document) (c : Context) :
    pass.IsIdleOn d c ↔ ∀ e ∈ d.elements, IsSettled c.design e :=
  (isWalk.isIdleOn_iff (steady c.design) d).trans areSettled_iff_forall

end CssVariables

/-! ### Standard steps -/

namespace ClassOptimizer

/-- Class tokens that are optimal: none that has a standard step, no square, and none twice. -/
structure AreOptimal (tokens : List String) : Prop where
  stepped : ∀ t ∈ tokens, optimizeToken t = t
  noSquare : ∀ step, ¬ IsSquare tokens step
  distinct : tokens.Nodup

theorem areOptimal_iff {tokens : List String} :
    AreOptimal tokens ↔ optimize tokens = tokens ∧ tokens.Nodup := by
  unfold optimize
  rw [mergeSquare_map_eq_self_iff]
  constructor
  · rintro ⟨hstep, hsquare, hdistinct⟩
    exact ⟨⟨hstep, hsquare⟩, hdistinct⟩
  · rintro ⟨⟨hstep, hsquare⟩, hdistinct⟩
    exact ⟨hstep, hsquare, hdistinct⟩

instance (tokens : List String) : Decidable (AreOptimal tokens) :=
  decidable_of_iff _ areOptimal_iff.symm

/-- An element with optimal class tokens. -/
def IsSettled (e : Element) : Prop :=
  AreOptimal e.attributes.classes

/-- The counters after the classes of an element are optimized. -/
def counted (counters : Counters) (tokens : List String) : Counters :=
  let counters :=
    if optimize tokens = tokens then counters else counters.count "classesOptimized"
  if (dedupe (optimize tokens)).length = (optimize tokens).length then counters
  else counters.count "duplicatesRemoved"

theorem isIdle_counted_iff {counters : Counters} {tokens : List String} :
    (counted counters tokens).IsIdle ↔ counters.IsIdle ∧ AreOptimal tokens := by
  have hoptimized : "classesOptimized" ∉ Counters.observational := by decide
  have hremoved : "duplicatesRemoved" ∉ Counters.observational := by decide
  rw [areOptimal_iff]
  unfold counted
  by_cases ho : optimize tokens = tokens
  · rw [ho, if_pos rfl, ← length_dedupe_eq_iff]
    by_cases hd : (dedupe tokens).length = tokens.length
    · simp [hd]
    · simp [hd, Counters.isIdle_count, hremoved]
  · rw [if_neg ho]
    dsimp only
    split
    · simp [ho, Counters.isIdle_count, hoptimized]
    · simp [ho, Counters.isIdle_count, hoptimized]

theorem visit_of_static {counters : Counters} {e : Element}
    (h : e.attributes.hasStaticClasses = true) :
    visit counters e = .change (counted counters e.attributes.classes)
      (if dedupe (optimize e.attributes.classes) = e.attributes.classes then e.attributes
        else e.attributes.setClasses (dedupe (optimize e.attributes.classes))) := by
  unfold visit
  rw [if_pos h]
  rfl

theorem visit_of_not_static {counters : Counters} {e : Element}
    (h : e.attributes.hasStaticClasses = false) : visit counters e = .keep counters e := by
  unfold visit
  rw [h, if_neg Bool.false_ne_true]

theorem isSettled_of_not_static {e : Element} (h : e.attributes.hasStaticClasses = false) :
    IsSettled e := by
  unfold IsSettled
  rw [Attributes.classes_of_not_static h]
  exact areOptimal_iff.2 ⟨rfl, List.nodup_nil⟩

/-- A visit counts a change exactly where the class tokens are not optimal. -/
theorem isQuiet_visit_iff {counters : Counters} {e : Element} :
    (visit counters e).walk.IsQuiet Counters.IsIdle ↔ counters.IsIdle ∧ IsSettled e := by
  cases hstatic : e.attributes.hasStaticClasses with
  | false =>
    rw [visit_of_not_static hstatic]
    exact (and_iff_right rfl).trans (and_iff_left (isSettled_of_not_static hstatic)).symm
  | true =>
    rw [visit_of_static hstatic]
    exact (and_iff_right rfl).trans isIdle_counted_iff

theorem steady : IsSteady visit Counters.IsIdle fun _ => IsSettled where
  isQuiet_iff := isQuiet_visit_iff
  attributes_eq := by
    intro counters e h
    cases hstatic : e.attributes.hasStaticClasses with
    | false => rw [visit_of_not_static hstatic]; rfl
    | true =>
      obtain ⟨hoptimal, hdistinct⟩ := areOptimal_iff.1 h
      rw [visit_of_static hstatic, hoptimal, if_pos (dedupe_eq_self_iff.2 hdistinct)]
      rfl
  forChildren_eq := by
    intro counters e h child _
    cases hstatic : e.attributes.hasStaticClasses with
    | false => rw [visit_of_not_static hstatic]; rfl
    | true => rw [visit_of_static hstatic]; rfl

theorem arePositive_visit (counters : Counters) (e : Element) (h : counters.ArePositive) :
    (visit counters e).state.ArePositive := by
  cases hstatic : e.attributes.hasStaticClasses with
  | false => rw [visit_of_not_static hstatic]; exact h
  | true =>
    have hoptimized : (if optimize e.attributes.classes = e.attributes.classes then counters
        else counters.count "classesOptimized").ArePositive := by
      split
      · exact h
      · exact h.count _
    have hcounted : (counted counters e.attributes.classes).ArePositive := by
      unfold counted
      dsimp only
      split
      · exact hoptimized
      · exact hoptimized.count _
    rw [visit_of_static hstatic]
    exact hcounted

theorem isWalk : pass.IsWalk (fun _ => visit) (fun _ => []) id :=
  ⟨fun _ _ => rfl, fun _ _ => rfl, fun _ => rfl⟩

theorem isIdleOn_iff (d : Document) (c : Context) :
    pass.IsIdleOn d c ↔ ∀ e ∈ d.elements, IsSettled e :=
  (isWalk.isIdleOn_iff steady d).trans areSettled_iff_forall

end ClassOptimizer

end MarkupTidy
