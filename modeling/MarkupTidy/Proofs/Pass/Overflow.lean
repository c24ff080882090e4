import MarkupTidy.Proofs.Pass.Completion
import MarkupTidy.Proofs.Pass.Telling

/-! # Containing overflow once

The first container of a document is made to contain its overflow, and once there has been one, no other
is.  The flag in the context that says so threads through the elements of a document and through the runs
of passes, next to other changes of the same class lists, which leave this class alone.

* `ClassCleanup.adds`: whether a visit adds the class; `ClassCleanup.count_overflowAdded_visit`: it does
  so once, and counts it.
* `ClassCleanup.overflowAdded_endState`, `ClassCleanup.adds_endState_iff`: what visits to elements in turn
  count, and which of them adds the class.
* `ClassCleanup.containsOverflow_once`: the class is added to the first container only, and never again
  until the context is reset. -/

namespace MarkupTidy.ClassCleanup

open MarkupTidy.Attributes

/-! ### The class among others -/

theorem count_dropLinePairs (tokens : List String) :
    (dropLinePairs tokens).count overflowClass = tokens.count overflowClass := by
  have hpair : "text-nowrap" ≠ overflowClass ∧ "whitespace-pre" ≠ overflowClass := by decide
  fun_induction dropLinePairs tokens with
  | case1 => rfl
  | case2 => rfl
  | case3 t u rest h ih =>
    simp only [Bool.and_eq_true, decide_eq_true_eq] at h
    rw [h.1, h.2, List.count_cons_of_ne hpair.1, List.count_cons_of_ne hpair.2, ih]
  | case4 t u rest h ih => rw [List.count_cons, List.count_cons, ih]

/-- Cleaning neither adds nor removes the class. -/
theorem count_cleanTokens (counters : Counters) (tokens : List String) :
    (cleanTokens counters tokens).2.count overflowClass = tokens.count overflowClass := by
  have hstrip : (stripArtifacts tokens).count overflowClass = tokens.count overflowClass := by
    rw [stripArtifacts, count_dropLinePairs, List.count_filter (by decide +kernel)]
  have hsizes : ∀ t, convertTextSize t = overflowClass ↔ t = overflowClass := by
    have hself : convertTextSize overflowClass = overflowClass := by decide
    have hne : ∀ size ∈ textSizes, size.2 ≠ overflowClass := by decide
    intro t
    obtain heq | ⟨size, hsize, heq⟩ := convertTextSize_cases t
    · rw [heq]
    · refine iff_of_false (fun h => hne size hsize (heq.symm.trans h)) ?_
      rintro rfl
      exact hne size hsize (heq.symm.trans hself)
  have hconvert (kept : List String) :
      (kept.map convertTextSize).count overflowClass = kept.count overflowClass := by
    rw [List.count_eq_countP, List.count_eq_countP, List.countP_map]
    exact List.countP_congr fun t _ => by simpa using hsizes t
  have hfull : [("w-full" : String)].count overflowClass = 0 := by decide
  unfold cleanTokens
  dsimp only
  split
  · rw [List.count_append, hfull, Nat.add_zero, hconvert, hstrip]
  · rw [hconvert, hstrip]

/-! ### A visit -/

/-- Whether a visit adds the class: no container has been met before, and the element is one that does not
have the class yet. -/
def adds (st : State) (e : Element) : Bool :=
  !st.rootContained && isContainer e && !e.attributes.classes.contains overflowClass

/-- How often the class has been added. -/
def overflowAdded (counters : Counters) : Int :=
  (counters.get? "overflowAdded").getD 0

theorem overflowAdded_count_self (counters : Counters) :
    overflowAdded (counters.count "overflowAdded") = overflowAdded counters + 1 := by
  unfold overflowAdded Counters.count Counters.add
  rw [OrderedMap.get?_insert_self, Option.getD_some]

theorem overflowAdded_count {key : String} (h : key ≠ "overflowAdded") (counters : Counters) :
    overflowAdded (counters.count key) = overflowAdded counters := by
  unfold overflowAdded Counters.count Counters.add
  rw [OrderedMap.get?_insert_ne _ _ h]

theorem overflowAdded_noted (st : State) (e : Element) :
    overflowAdded (noted st e).counters = overflowAdded st.counters := by
  have hsections (st : State) (children : List Node) :
      overflowAdded (st.noteSections children).counters = overflowAdded st.counters := by
    unfold State.noteSections
    induction children generalizing st with
    | nil => rfl
    | cons child rest ih =>
      rw [List.foldl_cons, ih]
      split
      · exact overflowAdded_count (by decide) _
      · rfl
  unfold noted
  rw [hsections]
  split
  · exact overflowAdded_count (by decide) _
  · rfl

theorem overflowAdded_cleanTokens (counters : Counters) (tokens : List String) :
    overflowAdded (cleanTokens counters tokens).1 = overflowAdded counters := by
  have hcountIf {key : String} (hkey : key ≠ "overflowAdded") (changed : Bool) (counters : Counters) :
      overflowAdded (countIf changed key counters) = overflowAdded counters := by
    unfold countIf
    split
    · exact overflowAdded_count hkey counters
    · rfl
  unfold cleanTokens
  dsimp only
  split
  · rw [overflowAdded_count (by decide), hcountIf (by decide), hcountIf (by decide)]
  · rw [hcountIf (by decide), hcountIf (by decide)]

/-- The class is added to a container that is met first and does not have it, and this is counted. -/
theorem containOverflow_noted {st : State} {e : Element} (h : e.attributes.hasStaticClasses = true) :
    (containOverflow (noted st e) e).2.classes.count overflowClass
        = e.attributes.classes.count overflowClass + (if adds st e then 1 else 0) ∧
      overflowAdded (containOverflow (noted st e) e).1.counters
        = overflowAdded st.counters + (if adds st e then 1 else 0) := by
  have hroot : isRootContainer st e = (!st.rootContained && isContainer e) := by
    unfold isRootContainer isContainer
    rw [h, Bool.true_and, Bool.and_assoc]
  have htoken : IsToken overflowClass := by decide
  unfold containOverflow adds
  rw [isRootContainer_noted, hroot]
  cases !st.rootContained && isContainer e with
  | false => simp [overflowAdded_noted]
  | true =>
    rw [if_pos rfl, Bool.true_and]
    dsimp only
    cases hclass : e.attributes.classes.contains overflowClass with
    | true => simp [overflowAdded_noted]
    | false =>
      have htokens : ∀ t ∈ e.attributes.classes ++ [overflowClass], IsToken t :=
        List.forall_mem_append.2 ⟨fun t => isToken_of_mem_classes, List.forall_mem_singleton.2 htoken⟩
      rw [if_neg Bool.false_ne_true, Bool.not_false, if_pos rfl, if_pos rfl]
      dsimp only
      rw [classes_setClasses htokens, List.count_append, List.count_singleton_self,
        overflowAdded_count_self, overflowAdded_noted]
      exact ⟨rfl, rfl⟩

theorem count_overflowAdded_visit (st : State) (e : Element) :
    (visit st e).attributes.classes.count overflowClass
        = e.attributes.classes.count overflowClass + (if adds st e then 1 else 0) ∧
      overflowAdded (visit st e).state.counters
        = overflowAdded st.counters + (if adds st e then 1 else 0) := by
  cases hstatic : e.attributes.hasStaticClasses with
  | false =>
    have hadds : adds st e = false := by simp [adds, isContainer, hstatic]
    rw [visit_of_not_static hstatic, hadds]
    exact ⟨rfl, (overflowAdded_noted st e).trans (by simp)⟩
  | true =>
    obtain ⟨hcount, hadded⟩ := @containOverflow_noted st e hstatic
    rw [visit_of_static hstatic]
    dsimp only [Visit.change]
    generalize containOverflow (noted st e) e = contained at hcount hadded ⊢
    have htokens := isToken_cleanTokens contained.1.counters
      fun t (ht : t ∈ contained.2.classes) => isToken_of_mem_classes ht
    refine ⟨?_, by rw [overflowAdded_cleanTokens, hadded]⟩
    rw [← hcount, ← count_cleanTokens contained.1.counters contained.2.classes]
    split
    · rename_i hsame
      rw [hsame]
    · rw [classes_setClasses htokens]

/-! ### Visits in turn -/

/-- Whether the first container among elements does not have the class. -/
def isLacking (es : List Element) : Bool :=
  (es.find? isContainer).any fun e => !e.attributes.classes.contains overflowClass

theorem rootContained_endState (st : State) (es : List Element) :
    (endState visit st es).rootContained = (st.rootContained || es.any isContainer) := by
  induction es generalizing st with
  | nil => simp [endState]
  | cons e es ih => rw [endState_cons, ih, rootContained_visit, List.any_cons, Bool.or_assoc]

/-- The class is added once if the first container lacks it and none was met before, and not at all
otherwise. -/
theorem overflowAdded_endState (st : State) (es : List Element) :
    overflowAdded (endState visit st es).counters
      = overflowAdded st.counters + (if !st.rootContained && isLacking es then 1 else 0) := by
  induction es generalizing st with
  | nil => simp [endState, isLacking]
  | cons e es ih =>
    rw [endState_cons, ih, (count_overflowAdded_visit st e).2, rootContained_visit, isLacking,
      isLacking, List.find?_cons, adds, add_assoc]
    cases isContainer e <;> simp

/-- The visit that adds the class is that of the first container. -/
theorem adds_endState_iff {st : State} {es : List Element} {i : Nat} {e : Element}
    (h : es[i]? = some e) : adds (endState visit st (es.take i)) e = true ↔
      st.rootContained = false ∧ i = es.findIdx isContainer ∧ overflowClass ∉ e.attributes.classes := by
  obtain ⟨hi, rfl⟩ := List.getElem?_eq_some_iff.1 h
  have hfirst : i = es.findIdx isContainer ↔
      isContainer es[i] = true ∧ (es.take i).any isContainer = false := by
    rw [eq_comm, List.findIdx_eq hi]
    refine and_congr_right fun _ => ?_
    rw [List.any_eq_false]
    constructor
    · intro hbefore e he
      obtain ⟨j, hj, rfl⟩ := List.mem_take_iff_getElem.1 he
      simpa using hbefore j (by omega)
    · intro hbefore j hj
      simpa using hbefore es[j] (List.mem_take_iff_getElem.2 ⟨j, by omega, rfl⟩)
  rw [adds, rootContained_endState, hfirst]
  simp only [Bool.and_eq_true, Bool.not_eq_true', Bool.or_eq_false_iff, List.contains_eq_mem,
    decide_eq_false_iff_not, and_assoc, and_left_comm, and_comm]

/-! ### Runs -/

theorem walk_run (d : Document) (st : State) :
    (d.walk visit st).2 = ⟨endState visit st d.elements, none⟩ := by
  have hfault : (d.walk visit st).2.fault? = none :=
    (Document.fault_walk_eq_none_iff forChildren_visit
      (fun st e => iff_of_true (fault_visit st e) trivial) st d).2 fun _ _ => trivial
  rw [← Document.state_walk forChildren_visit hfault, ← hfault]

theorem result_run (d : Document) (c : Context) : (pass.run d c).result
    = .ok (endState visit ⟨c.rootContained, c.sections, []⟩ d.elements).counters := by
  rw [isWalk.result_eq, Walk.result, walk_run]

/-- The flag is set once a container has been met. -/
theorem rootContained_run (d : Document) (c : Context) :
    (pass.run d c).context.rootContained = (c.rootContained || d.elements.any isContainer) := by
  have hend : (pass.run d c).context.rootContained
      = (d.walk visit ⟨c.rootContained, c.sections, []⟩).2.state.rootContained := rfl
  rw [hend, walk_run, rootContained_endState]

/-- The class stands in each element as often as before, and once more where it has been added. -/
theorem count_run {d : Document} {c : Context} {i : Nat} {e e' : Element} (he : d.elements[i]? = some e)
    (he' : (pass.run d c).document.elements[i]? = some e') :
    e'.attributes.classes.count overflowClass = e.attributes.classes.count overflowClass +
      (if adds (endState visit ⟨c.rootContained, c.sections, []⟩ (d.elements.take i)) e then 1 else 0) := by
  have hafter : (attributesAfter visit _ d.elements)[i]? = _ :=
    getElem?_attributesAfter ⟨c.rootContained, c.sections, []⟩ d.elements i
  rw [← Document.attributes_walk forChildren_visit fault_visit, ← isWalk.document_eq, List.getElem?_map,
    he', he] at hafter
  rw [Option.some.inj hafter, (count_overflowAdded_visit _ e).1]

theorem length_elements_run (d : Document) (c : Context) :
    (pass.run d c).document.elements.length = d.elements.length := by
  have hlength (st : State) (es : List Element) : (attributesAfter visit st es).length = es.length := by
    induction es generalizing st with
    | nil => rfl
    | cons e es ih => rw [attributesAfter, List.length_cons, List.length_cons, ih]
  rw [isWalk.document_eq, ← List.length_map (f := Element.attributes),
    Document.attributes_walk forChildren_visit fault_visit, hlength]

/-- An element that has got the class, or has got it once more. -/
def Gains (e e' : Element) : Prop :=
  e.attributes.classes.count overflowClass < e'.attributes.classes.count overflowClass

/-- An element that gains the class is the first container, and none was met before. -/
theorem of_gains {d : Document} {c : Context} {i : Nat} {e e' : Element} (he : d.elements[i]? = some e)
    (he' : (pass.run d c).document.elements[i]? = some e') (h : Gains e e') :
    c.rootContained = false ∧ i = d.elements.findIdx isContainer := by
  rw [Gains, count_run he he'] at h
  split at h
  · rename_i hadds
    obtain ⟨hflag, hfirst, -⟩ := (adds_endState_iff he).1 hadds
    exact ⟨hflag, hfirst⟩
  · exact absurd h (Nat.lt_irrefl _)

/-- The first container has the class afterwards, if none was met before. -/
theorem overflowClass_mem_run {d : Document} {c : Context} {i : Nat} {e e' : Element}
    (hflag : c.rootContained = false) (he : d.elements[i]? = some e)
    (he' : (pass.run d c).document.elements[i]? = some e')
    (hfirst : i = d.elements.findIdx isContainer) : overflowClass ∈ e'.attributes.classes := by
  have hcount := count_run he he'
  rw [← List.count_pos_iff, hcount]
  by_cases hclass : overflowClass ∈ e.attributes.classes
  · have := List.count_pos_iff.2 hclass
    omega
  · rw [if_pos ((adds_endState_iff he).2 ⟨hflag, hfirst, hclass⟩)]
    exact Nat.succ_pos _

/-- A run that adds the class to no element, and counts no addition. -/
def AddsNothing (d : Document) (c : Context) : Prop :=
  (∃ counters, (pass.run d c).result = .ok counters ∧ overflowAdded counters = 0) ∧
    ∀ (i : Nat) (e e' : Element), d.elements[i]? = some e →
      (pass.run d c).document.elements[i]? = some e' → ¬Gains e e'

theorem addsNothing_of_rootContained {c : Context} (h : c.rootContained = true) (d : Document) :
    AddsNothing d c := by
  refine ⟨⟨_, result_run d c, ?_⟩, fun i e e' he he' hgains => ?_⟩
  · have hnone : overflowAdded [] = 0 := rfl
    rw [overflowAdded_endState, h, hnone]
    rfl
  · rw [(of_gains he he' hgains).1] at h
    exact Bool.noConfusion h

/-- The context after runs of passes over documents, one after the other. -/
def contextAfterRuns (c : Context) (runs : List (Pass × Document)) : Context :=
  runs.foldl (fun c run => (run.1.run run.2 c).context) c

/-- No built-in pass clears the flag. -/
theorem rootContained_builtin : ∀ p ∈ builtinPasses, ∀ d c, c.rootContained = true →
    (p.run d c).context.rootContained = true := by
  simp only [builtinPasses, List.forall_mem_cons]
  refine ⟨fun _ _ h => h, fun d c h => ?_, fun _ _ h => h, fun _ _ h => h, fun _ _ h => h,
    fun _ _ h => h, fun _ _ h => h, by simp⟩
  rw [rootContained_run, h, Bool.true_or]

theorem rootContained_contextAfterRuns {c : Context} (h : c.rootContained = true)
    {runs : List (Pass × Document)} (hruns : ∀ run ∈ runs, run.1 ∈ builtinPasses) :
    (contextAfterRuns c runs).rootContained = true := by
  induction runs generalizing c with
  | nil => exact h
  | cons run rest ih =>
    obtain ⟨hrun, hrest⟩ := List.forall_mem_cons.1 hruns
    exact ih (rootContained_builtin run.1 hrun run.2 c h) hrest

/-- While the flag is clear, a run adds the class at most once, to no element but the first container,
which has it afterwards.  A container sets the flag.  Once it is set, no run adds the class, whatever
passes have been run in between, until a reset clears it. -/
theorem containsOverflow_once :
    (∀ d c, c.rootContained = false →
      (∃ counters, (pass.run d c).result = .ok counters ∧ overflowAdded counters ≤ 1 ∧
        (overflowAdded counters = 1 ↔ isLacking d.elements = true)) ∧
      (pass.run d c).document.elements.length = d.elements.length ∧
      ∀ (i : Nat) (e e' : Element), d.elements[i]? = some e →
        (pass.run d c).document.elements[i]? = some e' →
        (Gains e e' → i = d.elements.findIdx isContainer) ∧
        (i = d.elements.findIdx isContainer → overflowClass ∈ e'.attributes.classes)) ∧
    (∀ d c, (pass.run d c).context.rootContained = (c.rootContained || d.elements.any isContainer)) ∧
    (∀ c runs, c.rootContained = true → (∀ run ∈ runs, run.1 ∈ builtinPasses) →
      (contextAfterRuns c runs).rootContained = true ∧ ∀ d, AddsNothing d (contextAfterRuns c runs)) ∧
    ∀ c : Context, c.reset.rootContained = false := by
  refine ⟨fun d c hflag => ⟨⟨_, result_run d c, ?_⟩, length_elements_run d c, fun i e e' he he' => ?_⟩,
    rootContained_run, fun c runs hflag hruns => ?_, fun _ => rfl⟩
  · have hnone : overflowAdded [] = 0 := rfl
    rw [overflowAdded_endState, hflag, hnone]
    cases isLacking d.elements <;> simp
  · exact ⟨fun hgains => (of_gains he he' hgains).2, overflowClass_mem_run hflag he he'⟩
  · have hset := rootContained_contextAfterRuns hflag hruns
    exact ⟨hset, addsNothing_of_rootContained hset⟩

end MarkupTidy.ClassCleanup
