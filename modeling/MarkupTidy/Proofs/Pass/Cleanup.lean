import MarkupTidy.Pass.ClassCleanup
import MarkupTidy.Pass.FontDetection
import MarkupTidy.Proofs.Pass.Walk
import MarkupTidy.Proofs.Utility.Tokens

/-! # Elements that cleaning leaves alone

* `FontDetection.IsSettled`, `FontDetection.steady`: an element without a typeface to write.
* `ClassCleanup.IsSettled`, `ClassCleanup.steady`: an element with clean classes that contains its
  overflow where it has to. -/

namespace MarkupTidy

theorem Attributes.classes_of_not_static {as : Attributes} (h : as.hasStaticClasses = false) :
    as.classes = [] := by
  unfold hasStaticClasses at h
  unfold classes
  cases htext : as.text? classAttribute with
  | none => rfl
  | some value => simp [htext] at h

/-! ### Fonts -/

namespace FontDetection

/-- An element whose typeface, if it has one, is written already. -/
def IsSettled (e : Element) : Prop :=
  ∀ font, firstFont? e.attributes.classes = some font →
    ∃ s, e.attributes.styleOrNew? = some s ∧ mergeFont s font.style = s

theorem fontsConverted_not_observational : "fontsConverted" ∉ Counters.observational := by
  decide

/-- A visit counts a change, or fails, exactly where there is a typeface to write. -/
theorem isQuiet_visit_iff {st : State} {e : Element} :
    (visit st e).walk.IsQuiet (fun st => st.counters.IsIdle) ↔
      st.counters.IsIdle ∧ IsSettled e := by
  unfold IsSettled visit
  cases hfont : firstFont? e.attributes.classes with
  | none => simp [Visit.keep, Visit.change, Visit.walk, Walk.IsQuiet]
  | some font =>
    cases hs : e.attributes.styleOrNew? with
    | some s =>
      by_cases hm : mergeFont s font.style = s
      · simp [hm, Visit.keep, Visit.change, Visit.walk, Walk.IsQuiet]
      · simp [hm, Visit.change, Visit.walk, Walk.IsQuiet, Counters.isIdle_count,
          fontsConverted_not_observational]
    | none =>
      have hnot : ¬ ∀ f, some font = some f → ∃ s, (none : Option Style) = some s ∧
          mergeFont s f.style = s := fun h => by
        obtain ⟨s, hs, -⟩ := h font rfl
        exact Option.some_ne_none s hs.symm
      refine iff_of_false (fun h => ?_) fun h => hnot h.2
      dsimp only at h
      split at h
      · exact fontsConverted_not_observational (Counters.isIdle_count.1 h.2).2
      · exact Option.some_ne_none _ h.1

theorem steady : IsSteady visit (fun st => st.counters.IsIdle) fun _ => IsSettled where
  isQuiet_iff := isQuiet_visit_iff
  attributes_eq := by
    intro st e h
    unfold visit
    cases hfont : firstFont? e.attributes.classes with
    | none => rfl
    | some font =>
      obtain ⟨s, hs, hm⟩ := h font hfont
      simp [hs, hm, Visit.keep, Visit.change]
  forChildren_eq := by
    intro st e h child hchild
    unfold visit
    cases hfont : firstFont? e.attributes.classes with
    | none => rfl
    | some font =>
      obtain ⟨s, hs, hm⟩ := h font hfont
      simp [hs, hm, Visit.keep, Visit.change, AttributeChange.none]

theorem isWalk : pass.IsWalk (fun _ => visit) (fun c => ⟨c.fonts, []⟩) State.counters :=
  ⟨fun _ _ => rfl, fun _ _ => rfl, fun _ => rfl⟩

/-- The pass has nothing to do exactly where every typeface is written. -/
theorem isIdleOn_iff (d : Document) (c : Context) :
    pass.IsIdleOn d c ↔ ∀ e ∈ d.elements, IsSettled e :=
  (isWalk.isIdleOn_iff steady d).trans areSettled_iff_forall

/-! ### Elements without a typeface -/

theorem firstFont?_eq_none {tokens : List String} (h : ∀ t ∈ tokens, isFontClass t = false) :
    firstFont? tokens = none := by
  unfold firstFont?
  rw [List.findSome?_eq_none_iff]
  intro t ht
  have hsplit : FontClass.split? t.toList = none := by
    simpa [isFontClass] using h t ht
  unfold FontClass.read?
  rw [hsplit]
  rfl

theorem isSettled_of_noFont {e : Element}
    (h : ∀ t ∈ e.attributes.classes, isFontClass t = false) : IsSettled e := by
  intro font hfont
  rw [firstFont?_eq_none h] at hfont
  exact absurd hfont (by simp)

/-- Where no element has a typeface, none is added to those that were seen. -/
theorem fonts_run {d : Document} (c : Context)
    (h : ∀ e ∈ d.elements, ∀ t ∈ e.attributes.classes, isFontClass t = false) :
    (pass.run d c).context.fonts = c.fonts := by
  have hwalk := Document.walk_of_areSettled steady ⟨c.fonts, []⟩ Counters.isIdle_nil
    (areSettled_iff_forall.2 fun e he => isSettled_of_noFont (h e he))
  have hend : endState visit ⟨c.fonts, []⟩ d.elements = ⟨c.fonts, []⟩ := by
    refine endState_eq_self fun e he => ?_
    unfold visit
    rw [firstFont?_eq_none (h e he)]
    rfl
  have hfonts : (pass.run d c).context.fonts = (d.walk visit ⟨c.fonts, []⟩).2.state.fonts := rfl
  rw [hfonts, hwalk, hend]

theorem arePositive_visit (st : State) (e : Element) (h : st.counters.ArePositive) :
    (visit st e).state.counters.ArePositive := by
  unfold visit
  split
  · exact h
  · dsimp only
    split
    · split
      · exact h
      · exact h.count _
    · split
      · exact h.count _
      · exact h

end FontDetection

/-! ### Classes -/

namespace ClassCleanup

/-- Class tokens that need no cleaning: no font class, no line pair, no text size that has a
standard name, and a width where the element grows from nothing. -/
structure AreClean (tokens : List String) : Prop where
  noFont : ∀ t ∈ tokens, isFontClass t = false
  noLinePair : ¬ linePair <:+: tokens
  sized : ∀ t ∈ tokens, convertTextSize t = t
  wide : needsFullWidth tokens = false

theorem areClean_iff {tokens : List String} :
    AreClean tokens ↔ stripArtifacts tokens = tokens ∧ tokens.map convertTextSize = tokens ∧
      needsFullWidth tokens = false := by
  rw [stripArtifacts_eq_self_iff, map_convertTextSize_eq_self_iff]
  constructor
  · rintro ⟨hfont, hpair, hsized, hwide⟩
    exact ⟨⟨hfont, hpair⟩, hsized, hwide⟩
  · rintro ⟨⟨hfont, hpair⟩, hsized, hwide⟩
    exact ⟨hfont, hpair, hsized, hwide⟩

instance (tokens : List String) : Decidable (AreClean tokens) :=
  decidable_of_iff _ areClean_iff.symm

/-- What comes out of cleaning went in and is no font class, or it is a standard size or the width that
is added. -/
theorem mem_cleanTokens_cases {counters : Counters} {tokens : List String} {t : String}
    (h : t ∈ (cleanTokens counters tokens).2) :
    t ∈ tokens ∧ isFontClass t = false ∨ (∃ size ∈ textSizes, t = size.2) ∨ t = "w-full" := by
  have hconverted : t ∈ (stripArtifacts tokens).map convertTextSize ∨ t = "w-full" := by
    unfold cleanTokens at h
    dsimp only at h
    split at h
    · exact (List.mem_append.1 h).imp_right List.mem_singleton.1
    · exact .inl h
  obtain hmem | hfull := hconverted
  · obtain ⟨kept, hkept, rfl⟩ := List.mem_map.1 hmem
    obtain hsame | hsize := convertTextSize_cases kept
    · rw [hsame]
      exact .inl ⟨(stripArtifacts_sublist tokens).subset hkept,
        isFontClass_of_mem_stripArtifacts hkept⟩
    · exact .inr (.inl hsize)
  · exact .inr (.inr hfull)

/-- An element with clean classes that contains its overflow if it is the container that has to. -/
def IsSettled (st : State) (e : Element) : Prop :=
  e.attributes.hasStaticClasses = true →
    AreClean e.attributes.classes ∧
      (isRootContainer st e = true → overflowClass ∈ e.attributes.classes)

theorem isIdle_countIf {p : Prop} [Decidable p] {key : String} {counters : Counters}
    (hkey : key ∉ Counters.observational) :
    (countIf (decide p) key counters).IsIdle ↔ counters.IsIdle ∧ ¬ p := by
  unfold countIf
  split
  · rename_i h
    have hp : p := by simpa using h
    rw [Counters.isIdle_count]
    exact iff_of_false (fun h => hkey h.2) fun h => h.2 hp
  · rename_i h
    have hp : ¬ p := by simpa using h
    exact (and_iff_left hp).symm

/-- Cleaning counts nothing exactly where there is nothing to clean. -/
theorem isIdle_cleanTokens_iff {counters : Counters} {tokens : List String} :
    (cleanTokens counters tokens).1.IsIdle ↔ counters.IsIdle ∧ AreClean tokens := by
  have hsteps : (countIf ((stripArtifacts tokens).map convertTextSize ≠ stripArtifacts tokens)
      "textSizesConverted" (countIf (stripArtifacts tokens ≠ tokens) "classesFixed" counters)).IsIdle
      ↔ counters.IsIdle ∧ stripArtifacts tokens = tokens ∧ tokens.map convertTextSize = tokens := by
    rw [isIdle_countIf (by decide), isIdle_countIf (by decide), Classical.not_not, Classical.not_not, and_assoc]
    refine and_congr_right fun _ => and_congr_right fun hs => ?_
    rw [hs]
  rw [areClean_iff]
  unfold cleanTokens
  dsimp only
  split
  · rename_i hw
    refine iff_of_false (fun h => ?_) fun h => ?_
    · exact absurd (Counters.isIdle_count.1 h).2 (by decide)
    · obtain ⟨-, hs, hc, hwide⟩ := h
      rw [hs, hc, hwide] at hw
      exact Bool.false_ne_true hw
  · rename_i hw
    rw [hsteps]
    constructor
    · rintro ⟨h, hs, hc⟩
      rw [hs, hc, Bool.not_eq_true] at hw
      exact ⟨h, hs, hc, hw⟩
    · rintro ⟨h, hs, hc, -⟩
      exact ⟨h, hs, hc⟩

theorem cleanTokens_of_areClean {tokens : List String} (h : AreClean tokens)
    (counters : Counters) : cleanTokens counters tokens = (counters, tokens) := by
  obtain ⟨hs, hc, hwide⟩ := areClean_iff.1 h
  simp [cleanTokens, countIf, hs, hc, hwide]

theorem rootContained_noteSections (st : State) (children : List Node) :
    (st.noteSections children).rootContained = st.rootContained := by
  unfold State.noteSections
  induction children generalizing st with
  | nil => rfl
  | cons child rest ih =>
    rw [List.foldl_cons, ih]
    split <;> rfl

theorem isIdle_noteSections_iff {st : State} {children : List Node} :
    (st.noteSections children).counters.IsIdle ↔ st.counters.IsIdle := by
  unfold State.noteSections
  induction children generalizing st with
  | nil => rfl
  | cons child rest ih =>
    rw [List.foldl_cons, ih]
    split
    · rw [Counters.isIdle_count]
      exact and_iff_left (by decide)
    · rfl

/-- The state once the origin and the sections of an element are noted. -/
def noted (st : State) (e : Element) : State :=
  (if e.attributes.has "data-node-id" then
      { st with counters := st.counters.count "nodesAnalyzed" } else st).noteSections e.children

theorem rootContained_noted (st : State) (e : Element) :
    (noted st e).rootContained = st.rootContained := by
  unfold noted
  rw [rootContained_noteSections]
  split <;> rfl

theorem isIdle_noted_iff {st : State} {e : Element} :
    (noted st e).counters.IsIdle ↔ st.counters.IsIdle := by
  unfold noted
  rw [isIdle_noteSections_iff]
  split
  · rw [Counters.isIdle_count]
    exact and_iff_left (by decide)
  · rfl

theorem isRootContainer_noted (st : State) (e : Element) :
    isRootContainer (noted st e) e = isRootContainer st e := by
  unfold isRootContainer
  rw [rootContained_noted]

theorem isIdle_containOverflow_iff {st : State} {e : Element} :
    (containOverflow st e).1.counters.IsIdle ↔
      st.counters.IsIdle ∧ (isRootContainer st e = true → overflowClass ∈ e.attributes.classes) := by
  unfold containOverflow
  by_cases hroot : isRootContainer st e = true
  · by_cases hc : overflowClass ∈ e.attributes.classes
    · simp [hroot, hc]
    · have hcount : "overflowAdded" ∉ Counters.observational := by decide
      simp [hroot, hc, Counters.isIdle_count, hcount]
  · simp [hroot]

theorem containOverflow_attributes {st : State} {e : Element}
    (h : isRootContainer st e = true → overflowClass ∈ e.attributes.classes) :
    (containOverflow st e).2 = e.attributes := by
  unfold containOverflow
  by_cases hroot : isRootContainer st e = true
  · simp [hroot, h hroot]
  · simp [hroot]

theorem visit_of_static {st : State} {e : Element} (h : e.attributes.hasStaticClasses = true) :
    visit st e =
      let (contained, attributes) := containOverflow (noted st e) e
      let (counters, cleaned) := cleanTokens contained.counters attributes.classes
      .change { contained with counters }
        (if cleaned = attributes.classes then attributes else attributes.setClasses cleaned) := by
  unfold visit noted
  simp only [h, if_true]

theorem visit_of_not_static {st : State} {e : Element}
    (h : e.attributes.hasStaticClasses = false) : visit st e = .keep (noted st e) e := by
  unfold visit noted
  simp only [h, Bool.false_eq_true, if_false]

/-- A visit counts a change exactly where there is something to clean. -/
theorem isQuiet_visit_iff {st : State} {e : Element} :
    (visit st e).walk.IsQuiet (fun st => st.counters.IsIdle) ↔
      st.counters.IsIdle ∧ IsSettled st e := by
  unfold IsSettled
  cases hstatic : e.attributes.hasStaticClasses with
  | false =>
    rw [visit_of_not_static hstatic]
    have hkeep : (Visit.keep (noted st e) e).walk.IsQuiet (fun st => st.counters.IsIdle) ↔
        (noted st e).counters.IsIdle := and_iff_right rfl
    rw [hkeep, isIdle_noted_iff]
    simp
  | true =>
    have hchange : (visit st e).walk.IsQuiet (fun st => st.counters.IsIdle) ↔
        (cleanTokens (containOverflow (noted st e) e).1.counters
          (containOverflow (noted st e) e).2.classes).1.IsIdle := by
      rw [visit_of_static hstatic]
      exact and_iff_right rfl
    rw [hchange, isIdle_cleanTokens_iff, isIdle_containOverflow_iff, isIdle_noted_iff,
      isRootContainer_noted, and_assoc]
    refine and_congr_right fun _ => ?_
    constructor
    · rintro ⟨hroot, hclean⟩ -
      rw [containOverflow_attributes (by rwa [isRootContainer_noted])] at hclean
      exact ⟨hclean, hroot⟩
    · intro h
      obtain ⟨hclean, hroot⟩ := h rfl
      rw [containOverflow_attributes (by rwa [isRootContainer_noted])]
      exact ⟨hroot, hclean⟩

theorem attributes_visit_of_isSettled {st : State} {e : Element} (h : IsSettled st e) :
    (visit st e).attributes = e.attributes := by
  cases hstatic : e.attributes.hasStaticClasses with
  | false => rw [visit_of_not_static hstatic]; rfl
  | true =>
    obtain ⟨hclean, hroot⟩ := h hstatic
    have hcontain : (containOverflow (noted st e) e).2 = e.attributes :=
      containOverflow_attributes (by rwa [isRootContainer_noted])
    rw [visit_of_static hstatic]
    dsimp only
    rw [hcontain, cleanTokens_of_areClean hclean, if_pos rfl]
    rfl

theorem forChildren_visit (st : State) (e : Element) : (visit st e).forChildren = .none := by
  cases hstatic : e.attributes.hasStaticClasses with
  | false => rw [visit_of_not_static hstatic]; rfl
  | true => rw [visit_of_static hstatic]; rfl

theorem steady : IsSteady visit (fun st => st.counters.IsIdle) IsSettled where
  isQuiet_iff := isQuiet_visit_iff
  attributes_eq := attributes_visit_of_isSettled
  forChildren_eq := by
    intro st e _ child _
    rw [forChildren_visit]
    rfl

/-- Whether an element may be the container that has to contain overflow. -/
def isContainer (e : Element) : Bool :=
  e.attributes.hasStaticClasses && e.tag = "div" && e.attributes.has "data-name"

/-- A visit passes the first container, whether it has had to change it or not. -/
theorem rootContained_visit (st : State) (e : Element) :
    (visit st e).state.rootContained = (st.rootContained || isContainer e) := by
  unfold isContainer
  cases hstatic : e.attributes.hasStaticClasses with
  | false =>
    rw [visit_of_not_static hstatic]
    simp [Visit.keep, Visit.change, rootContained_noted]
  | true =>
    rw [visit_of_static hstatic]
    have hcontain : (containOverflow (noted st e) e).1.rootContained =
        (st.rootContained || (decide (e.tag = "div") && e.attributes.has "data-name")) := by
      unfold containOverflow
      rw [isRootContainer_noted]
      cases hroot : isRootContainer st e with
      | true =>
        unfold isRootContainer at hroot
        simp only [Bool.and_eq_true] at hroot
        rw [if_pos rfl, hroot.1.2, hroot.2, Bool.and_self, Bool.or_true]
        dsimp only
        split <;> rfl
      | false =>
        unfold isRootContainer at hroot
        rw [if_neg Bool.false_ne_true]
        dsimp only
        rw [rootContained_noted]
        cases hst : st.rootContained with
        | true => rfl
        | false => simpa [hst] using hroot.symm
    simpa [Visit.change] using hcontain

theorem areClean_nil : AreClean [] := areClean_iff.2 ⟨rfl, rfl, rfl⟩

theorem isSettled_iff {st : State} {e : Element} :
    IsSettled st e ↔ AreClean e.attributes.classes ∧
      (st.rootContained = false → isContainer e = true →
        overflowClass ∈ e.attributes.classes) := by
  unfold IsSettled isRootContainer isContainer
  cases hstatic : e.attributes.hasStaticClasses with
  | false =>
    rw [Attributes.classes_of_not_static hstatic]
    simp [areClean_nil]
  | true => simp [and_imp]

/-- Only the first container has to contain its overflow, and only if none did before. -/
theorem areSettled_iff {st : State} {es : List Element} :
    AreSettled visit IsSettled st es ↔ (∀ e ∈ es, AreClean e.attributes.classes) ∧
      (st.rootContained = false →
        ∀ e, es.find? isContainer = some e → overflowClass ∈ e.attributes.classes) := by
  induction es generalizing st with
  | nil => simp [AreSettled]
  | cons e es ih =>
    rw [AreSettled, isSettled_iff, ih, rootContained_visit, List.forall_mem_cons, List.find?_cons]
    cases hcontainer : isContainer e with
    | false =>
      simp only [Bool.or_false, Bool.false_eq_true, false_imp_iff, imp_true_iff, and_true, and_assoc]
    | true =>
      simp only [Bool.or_true, Bool.true_eq_false, false_imp_iff, and_true, true_imp_iff,
        Option.some.injEq, forall_eq']
      rw [and_assoc, and_assoc, and_comm (a := _ → _)]

theorem isWalk :
    pass.IsWalk (fun _ => visit) (fun c => ⟨c.rootContained, c.sections, []⟩) State.counters :=
  ⟨fun _ _ => rfl, fun _ _ => rfl, fun _ => rfl⟩

/-- The pass has nothing to do exactly where all classes are clean and the first container contains its
overflow. -/
theorem isIdleOn_iff (d : Document) (c : Context) :
    pass.IsIdleOn d c ↔ (∀ e ∈ d.elements, AreClean e.attributes.classes) ∧
      (c.rootContained = false →
        ∀ e, d.elements.find? isContainer = some e → overflowClass ∈ e.attributes.classes) :=
  (isWalk.isIdleOn_iff steady d).trans areSettled_iff

theorem arePositive_noteSections {st : State} (h : st.counters.ArePositive)
    (children : List Node) : (st.noteSections children).counters.ArePositive := by
  unfold State.noteSections
  induction children generalizing st with
  | nil => exact h
  | cons child rest ih =>
    rw [List.foldl_cons]
    refine ih ?_
    split
    · exact h.count _
    · exact h

theorem arePositive_noted {st : State} (h : st.counters.ArePositive) (e : Element) :
    (noted st e).counters.ArePositive := by
  unfold noted
  refine arePositive_noteSections ?_ e.children
  split
  · exact h.count _
  · exact h

theorem arePositive_containOverflow {st : State} (h : st.counters.ArePositive) (e : Element) :
    (containOverflow st e).1.counters.ArePositive := by
  unfold containOverflow
  split
  · dsimp only
    split
    · exact h
    · exact h.count _
  · exact h

theorem arePositive_countIf {counters : Counters} (h : counters.ArePositive) (changed : Bool)
    (key : String) : (countIf changed key counters).ArePositive := by
  unfold countIf
  split
  · exact h.count key
  · exact h

theorem arePositive_cleanTokens {counters : Counters} (h : counters.ArePositive)
    (tokens : List String) : (cleanTokens counters tokens).1.ArePositive := by
  have hsteps := fun changed changed' => arePositive_countIf
    (arePositive_countIf h changed "classesFixed") changed' "textSizesConverted"
  unfold cleanTokens
  dsimp only
  split
  · exact (hsteps _ _).count _
  · exact hsteps _ _

theorem arePositive_visit (st : State) (e : Element) (h : st.counters.ArePositive) :
    (visit st e).state.counters.ArePositive := by
  have hnoted := arePositive_noted h e
  cases hstatic : e.attributes.hasStaticClasses with
  | false =>
    rw [visit_of_not_static hstatic]
    exact hnoted
  | true =>
    rw [visit_of_static hstatic]
    exact arePositive_cleanTokens (arePositive_containOverflow hnoted e) _

end ClassCleanup

end MarkupTidy
