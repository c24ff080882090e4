import MarkupTidy.Proofs.Pass.Edits
import MarkupTidy.Proofs.Pass.Graphics
import MarkupTidy.Proofs.Pass.Resolving
import MarkupTidy.Run.Pipeline

/-! # The passes of a run

What the passes of a run keep, each of them and all in turn, and when none of them has anything
to do.

* `Pipeline.runPasses_keeps`: what every pass keeps of the document and the context, a run keeps.
* `Pipeline.runPasses_append`: passes that complete in two parts.
* `Pipeline.isIdle_runPasses_cons_iff`: one pass is idle, and so are the others after it.
* `Document.IsSettled`, `Pipeline.isIdle_runPasses_builtin_iff`: the documents on which the
  built-in passes have nothing to do.
* `Pipeline.document_runPasses_of_isIdle`, `Pipeline.fonts_runPasses_of_isSettled`: what such a run
  leaves.
* `Pipeline.edits_runPasses`, `Pipeline.inert_kept`: a run of passes over attributes makes edits and
  nothing else, and loses no inert class token. -/

namespace MarkupTidy

open Attributes

/-! ### One pass -/

/-- What no pass touches of the context: the variables, the assets, and the statistics, which a
run writes. -/
structure Pass.IsFramed (p : Pass) : Prop where
  design_eq : ∀ d c, (p.run d c).context.design = c.design
  assets_eq : ∀ d c, (p.run d c).context.assets? = c.assets?
  stats_eq : ∀ d c, (p.run d c).context.stats = c.stats

/-- The built-in passes touch neither the variables nor the assets nor the statistics. -/
theorem isFramed_builtin : ∀ p ∈ builtinPasses, p.IsFramed := by
  simp only [builtinPasses, List.forall_mem_cons]
  exact ⟨⟨fun _ _ => rfl, fun _ _ => rfl, fun _ _ => rfl⟩,
    ⟨fun _ _ => rfl, fun _ _ => rfl, fun _ _ => rfl⟩,
    ⟨fun _ _ => rfl, fun _ _ => rfl, fun _ _ => rfl⟩,
    ⟨fun _ _ => rfl, fun _ _ => rfl, fun _ _ => rfl⟩,
    ⟨fun _ _ => rfl, fun _ _ => rfl, fun _ _ => rfl⟩,
    ⟨fun _ _ => rfl, fun _ _ => rfl, fun _ _ => rfl⟩,
    ⟨fun _ _ => rfl, fun _ _ => rfl, fun _ _ => rfl⟩, by simp⟩

/-- Only the first of the built-in passes adds typefaces. -/
theorem fonts_run_builtin :
    ∀ p ∈ builtinPasses.tail, ∀ d c, (p.run d c).context.fonts = c.fonts := by
  simp only [builtinPasses, List.tail_cons, List.forall_mem_cons]
  exact ⟨fun _ _ => rfl, fun _ _ => rfl, fun _ _ => rfl, fun _ _ => rfl, fun _ _ => rfl,
    fun _ _ => rfl, by simp⟩

theorem countsUp_builtin : ∀ p ∈ builtinPasses, p.CountsUp := by
  simp only [builtinPasses, List.forall_mem_cons]
  exact ⟨FontDetection.isWalk.countsUp fun _ => FontDetection.arePositive_visit,
    ClassCleanup.isWalk.countsUp fun _ => ClassCleanup.arePositive_visit,
    VectorComposites.countsUp, VectorWrappers.countsUp,
    PostFixes.isWalk.countsUp fun _ => PostFixes.arePositive_visit,
    CssVariables.isWalk.countsUp fun c => CssVariables.arePositive_visit c.design,
    ClassOptimizer.isWalk.countsUp fun _ => ClassOptimizer.arePositive_visit, by simp⟩

/-- A pass that counts nothing but what it has seen has not changed the document, as long as there
are no assets. -/
def Pass.IsTruthful (p : Pass) : Prop :=
  ∀ d c, c.assets? = none → p.IsIdleOn d c → (p.run d c).document = d

/-- The built-in passes change nothing without counting it. -/
theorem isTruthful_builtin : ∀ p ∈ builtinPasses, p.IsTruthful := by
  simp only [builtinPasses, List.forall_mem_cons]
  refine ⟨?_, ?_, ?_, ?_, ?_, ?_, ?_, by simp⟩
  · exact fun _ _ _ h => FontDetection.isWalk.document_of_isIdleOn FontDetection.steady h
  · exact fun _ _ _ h => ClassCleanup.isWalk.document_of_isIdleOn ClassCleanup.steady h
  · exact fun d c hc _ => VectorComposites.run_document d hc
  · exact fun d c _ h => VectorWrappers.run_document c ((VectorWrappers.isIdleOn_iff d c).1 h)
  · exact fun _ _ _ h => PostFixes.isWalk.document_of_isIdleOn PostFixes.steady h
  · exact fun _ c _ h => CssVariables.isWalk.document_of_isIdleOn (CssVariables.steady c.design) h
  · exact fun _ _ _ h => ClassOptimizer.isWalk.document_of_isIdleOn ClassOptimizer.steady h

/-- The context once a pass has ended and a run has noted how. -/
def PlannedPass.contextAfter (p : PlannedPass) (d : Document) (c : Context) : Context :=
  match (p.pass.run d c).result with
  | .ok counters => (p.pass.run d c).context.recordPass p.name counters
  | .error fault => (p.pass.run d c).context.recordFailure p.name fault.message

namespace PlannedPass

/-- What does not depend on the statistics is as the pass leaves it. -/
theorem contextAfter_eq {α : Type} (p : PlannedPass) (d : Document) (c : Context)
    (f : Context → α) (hf : ∀ (c : Context) stats, f { c with stats } = f c) :
    f (p.contextAfter d c) = f (p.pass.run d c).context := by
  unfold contextAfter
  split <;> exact hf ..

theorem design_contextAfter {p : PlannedPass} (hp : p.pass.IsFramed) (d : Document)
    (c : Context) : (p.contextAfter d c).design = c.design :=
  (p.contextAfter_eq d c Context.design fun _ _ => rfl).trans (hp.design_eq d c)

theorem assets_contextAfter {p : PlannedPass} (hp : p.pass.IsFramed) (d : Document)
    (c : Context) : (p.contextAfter d c).assets? = c.assets? :=
  (p.contextAfter_eq d c Context.assets? fun _ _ => rfl).trans (hp.assets_eq d c)

theorem contextAfter_of_ok {p : PlannedPass} {d : Document} {c : Context} {counters : Counters}
    (h : (p.pass.run d c).result = .ok counters) :
    p.contextAfter d c = (p.pass.run d c).context.recordPass p.name counters := by
  unfold contextAfter
  rw [h]

theorem contextAfter_of_error {p : PlannedPass} {d : Document} {c : Context} {fault : PassFault}
    (h : (p.pass.run d c).result = .error fault) :
    p.contextAfter d c = (p.pass.run d c).context.recordFailure p.name fault.message := by
  unfold contextAfter
  rw [h]

theorem arePositive_contextAfter {p : PlannedPass} (hp : p.pass.IsFramed)
    (hcounts : p.pass.CountsUp) (d : Document) {c : Context} (hc : c.stats.ArePositive) :
    (p.contextAfter d c).stats.ArePositive := by
  have hstats : (p.pass.run d c).context.stats.ArePositive := by rwa [hp.stats_eq d c]
  cases hr : (p.pass.run d c).result with
  | ok counters =>
    rw [contextAfter_of_ok hr]
    exact hstats.record p.name (hcounts d c counters hr)
  | error fault =>
    rw [contextAfter_of_error hr]
    exact hstats

end PlannedPass

/-! ### All passes -/

theorem PassRun.preceded_preceded (r : PassRun) (events events' : List Event)
    (notices notices' : List Notice) :
    (r.preceded events notices).preceded events' notices'
      = r.preceded (events' ++ events) (notices' ++ notices) := by
  simp [preceded]

namespace Pipeline

variable {name : String} {passes : List PlannedPass}

theorem runPasses_cons_of_ok {p : PlannedPass} {d : Document} {c : Context} {counters : Counters}
    (h : (p.pass.run d c).result = .ok counters) (continueOnError : Bool) :
    runPasses continueOnError name (p :: passes) d c =
      (runPasses continueOnError name passes (p.pass.run d c).document
        (p.contextAfter d c)).preceded
          [.passStarted p.name p.priority, .passCompleted p.name counters]
          (p.pass.run d c).notices := by
  rw [runPasses, PlannedPass.contextAfter_of_ok h]
  dsimp only
  rw [h]

theorem runPasses_cons_of_continued {p : PlannedPass} {d : Document} {c : Context}
    {fault : PassFault} (h : (p.pass.run d c).result = .error fault) :
    runPasses true name (p :: passes) d c =
      (runPasses true name passes (p.pass.run d c).document (p.contextAfter d c)).preceded
        [.passStarted p.name p.priority, .passFailed p.name fault.message true]
        ((p.pass.run d c).notices ++ [.passSkipped p.name name]) := by
  rw [runPasses, PlannedPass.contextAfter_of_error h]
  dsimp only
  rw [h]
  rfl

theorem runPasses_cons_of_aborted {p : PlannedPass} {d : Document} {c : Context}
    {fault : PassFault} (h : (p.pass.run d c).result = .error fault) :
    runPasses false name (p :: passes) d c =
      ⟨(p.pass.run d c).document, p.contextAfter d c,
        [.passStarted p.name p.priority, .passFailed p.name fault.message false,
          .runFailed name fault.message],
        (p.pass.run d c).notices ++ [.passAborted p.name name fault.message],
        some (.passFailed p.name fault)⟩ := by
  rw [runPasses, PlannedPass.contextAfter_of_error h]
  dsimp only
  rw [h]
  rfl

theorem context_runPasses_cons_of_error {p : PlannedPass} {d : Document} {c : Context}
    {fault : PassFault} (h : (p.pass.run d c).result = .error fault) (continueOnError : Bool) :
    (runPasses continueOnError name (p :: passes) d c).context =
      if continueOnError then
        (runPasses continueOnError name passes (p.pass.run d c).document
          (p.contextAfter d c)).context
      else p.contextAfter d c := by
  rw [runPasses, PlannedPass.contextAfter_of_error h]
  dsimp only
  rw [h]
  cases continueOnError <;> rfl

theorem fault_runPasses_cons_of_error {p : PlannedPass} {d : Document} {c : Context}
    {fault : PassFault} (h : (p.pass.run d c).result = .error fault) :
    (runPasses false name (p :: passes) d c).fault? = some (.passFailed p.name fault) := by
  rw [runPasses]
  dsimp only
  rw [h]
  rfl

theorem document_runPasses_cons_of_error {p : PlannedPass} {d : Document} {c : Context}
    {fault : PassFault} (h : (p.pass.run d c).result = .error fault) (continueOnError : Bool) :
    (runPasses continueOnError name (p :: passes) d c).document =
      if continueOnError then
        (runPasses continueOnError name passes (p.pass.run d c).document
          (p.contextAfter d c)).document
      else (p.pass.run d c).document := by
  rw [runPasses, PlannedPass.contextAfter_of_error h]
  dsimp only
  rw [h]
  cases continueOnError <;> rfl

/-- What every pass keeps of the document and the context, a run keeps, however it ends. -/
theorem runPasses_keeps {invariant : Document → Context → Prop}
    (hp : ∀ p ∈ passes, ∀ d c, invariant d c →
      invariant (p.pass.run d c).document (p.contextAfter d c))
    (continueOnError : Bool) {d : Document} {c : Context} (h : invariant d c) :
    invariant (runPasses continueOnError name passes d c).document
      (runPasses continueOnError name passes d c).context := by
  induction passes generalizing d c with
  | nil => exact h
  | cons p rest ih =>
    obtain ⟨hfirst, hothers⟩ := List.forall_mem_cons.1 hp
    have hafter := hfirst d c h
    have hrest := ih hothers hafter
    cases hr : (p.pass.run d c).result with
    | ok counters =>
      rw [runPasses_cons_of_ok hr]
      exact hrest
    | error fault =>
      rw [context_runPasses_cons_of_error hr, document_runPasses_cons_of_error hr]
      split
      · exact hrest
      · exact hafter

/-- Passes that complete do so in two parts, of which the second begins with what the first has
left. -/
theorem runPasses_append {first second : List PlannedPass} {continueOnError : Bool} {d : Document}
    {c : Context} (h : (runPasses continueOnError name (first ++ second) d c).fault? = none) :
    (runPasses continueOnError name first d c).fault? = none ∧
      runPasses continueOnError name (first ++ second) d c =
        (runPasses continueOnError name second (runPasses continueOnError name first d c).document
          (runPasses continueOnError name first d c).context).preceded
            (runPasses continueOnError name first d c).events
            (runPasses continueOnError name first d c).notices := by
  induction first generalizing d c with
  | nil => exact ⟨rfl, rfl⟩
  | cons p rest ih =>
    rw [List.cons_append] at h ⊢
    cases hr : (p.pass.run d c).result with
    | ok counters =>
      rw [runPasses_cons_of_ok hr] at h ⊢
      rw [runPasses_cons_of_ok hr]
      obtain ⟨hnone, heq⟩ := ih h
      exact ⟨hnone, by rw [heq, PassRun.preceded_preceded]; rfl⟩
    | error fault =>
      cases continueOnError with
      | false =>
        rw [fault_runPasses_cons_of_error hr] at h
        exact absurd h (by simp)
      | true =>
        rw [runPasses_cons_of_continued hr] at h ⊢
        rw [runPasses_cons_of_continued hr]
        obtain ⟨hnone, heq⟩ := ih h
        exact ⟨hnone, by rw [heq, PassRun.preceded_preceded]; rfl⟩

/-- What every pass keeps of the context, a run keeps, however it ends. -/
theorem runPasses_invariant {invariant : Context → Prop}
    (hp : ∀ p ∈ passes, ∀ d c, invariant c → invariant (p.contextAfter d c))
    (continueOnError : Bool) (d : Document) {c : Context} (hc : invariant c) :
    invariant (runPasses continueOnError name passes d c).context :=
  @runPasses_keeps name passes (fun _ => invariant) hp continueOnError d c hc

/-- A run of one pass leaves the document as the pass does. -/
theorem document_runPasses_singleton (continueOnError : Bool) (p : PlannedPass) (d : Document)
    (c : Context) :
    (runPasses continueOnError name [p] d c).document = (p.pass.run d c).document := by
  cases hr : (p.pass.run d c).result with
  | ok counters =>
    rw [runPasses_cons_of_ok hr]
    rfl
  | error fault =>
    rw [document_runPasses_cons_of_error hr]
    split <;> rfl

/-- Passes that do not touch the variables keep them. -/
theorem design_runPasses (hp : ∀ p ∈ passes, p.pass.IsFramed) (continueOnError : Bool)
    (d : Document) (c : Context) :
    (runPasses continueOnError name passes d c).context.design = c.design := by
  have hkeeps : ∀ p ∈ passes, ∀ d c', c'.design = c.design →
      (p.contextAfter d c').design = c.design := fun p hmem d c' h =>
    (PlannedPass.design_contextAfter (hp p hmem) d c').trans h
  exact runPasses_invariant hkeeps continueOnError d rfl

end Pipeline

/-- The passes of a run have all completed, and have counted nothing but what they have seen. -/
def PassRun.IsIdle (r : PassRun) : Prop :=
  r.fault? = none ∧ r.context.stats.IsIdle

namespace Pipeline

variable {name : String} {passes : List PlannedPass}

theorem isIdle_runPasses_nil {d : Document} {c : Context} :
    (runPasses false name [] d c).IsIdle ↔ c.stats.IsIdle := and_iff_right rfl

theorem isIdle_of_runPasses (hp : ∀ p ∈ passes, p.pass.IsFramed) {d : Document} {c : Context}
    (h : (runPasses false name passes d c).IsIdle) : c.stats.IsIdle := by
  induction passes generalizing d c with
  | nil => exact h.2
  | cons p rest ih =>
    have hstats := (hp p List.mem_cons_self).stats_eq d c
    cases hr : (p.pass.run d c).result with
    | ok counters =>
      rw [runPasses_cons_of_ok hr] at h
      have hafter := ih (fun q hq => hp q (List.mem_cons_of_mem _ hq)) h
      rw [PlannedPass.contextAfter_of_ok hr] at hafter
      rw [← hstats]
      exact (Stats.isIdle_record.1 hafter).1
    | error fault =>
      have hfault := h.1
      rw [fault_runPasses_cons_of_error hr] at hfault
      exact absurd hfault (by simp)

/-- A run is idle exactly if its first pass is, and so are the others after it. -/
theorem isIdle_runPasses_cons_iff {p : PlannedPass}
    (hp : ∀ q ∈ p :: passes, q.pass.IsFramed) {d : Document} {c : Context} :
    (runPasses false name (p :: passes) d c).IsIdle ↔
      p.pass.IsIdleOn d c ∧
        (runPasses false name passes (p.pass.run d c).document (p.contextAfter d c)).IsIdle := by
  cases hr : (p.pass.run d c).result with
  | ok counters =>
    rw [runPasses_cons_of_ok hr]
    refine ⟨fun h => ⟨⟨counters, hr, ?_⟩, h⟩, fun h => h.2⟩
    have hafter := isIdle_of_runPasses (fun q hq => hp q (List.mem_cons_of_mem _ hq)) h
    rw [PlannedPass.contextAfter_of_ok hr] at hafter
    exact (Stats.isIdle_record.1 hafter).2
  | error fault =>
    refine iff_of_false (fun h => ?_) fun h => ?_
    · have hfault := h.1
      rw [fault_runPasses_cons_of_error hr] at hfault
      exact absurd hfault (by simp)
    · obtain ⟨⟨counters, hok, -⟩, -⟩ := h
      rw [hr] at hok
      exact absurd hok (by simp)

/-- Passes that are idle on one document, each in the context that those before it leave. -/
def AreIdleInTurn (d : Document) : List PlannedPass → Context → Prop
  | [], _ => True
  | p :: rest, c => p.pass.IsIdleOn d c ∧ AreIdleInTurn d rest (p.contextAfter d c)

/-- A run is idle exactly if its passes are, on the document that it has begun with. -/
theorem isIdle_runPasses_iff (hp : ∀ p ∈ passes, p.pass.IsFramed)
    (htruth : ∀ p ∈ passes, p.pass.IsTruthful) {d : Document} {c : Context}
    (hc : c.assets? = none) :
    (runPasses false name passes d c).IsIdle ↔ c.stats.IsIdle ∧ AreIdleInTurn d passes c := by
  induction passes generalizing c with
  | nil => exact isIdle_runPasses_nil.trans (and_iff_left trivial).symm
  | cons p rest ih =>
    obtain ⟨hfirst, hrest⟩ := List.forall_mem_cons.1 hp
    have hassets := (PlannedPass.assets_contextAfter hfirst d c).trans hc
    have hpasses := ih hrest (List.forall_mem_cons.1 htruth).2 hassets
    rw [isIdle_runPasses_cons_iff hp, AreIdleInTurn, and_left_comm]
    refine and_congr_right fun hidle => ?_
    rw [htruth p List.mem_cons_self d c hc hidle, hpasses]
    refine and_congr_left fun _ => ?_
    obtain ⟨counters, hr, hcounters⟩ := hidle
    rw [PlannedPass.contextAfter_of_ok hr, ← hfirst.stats_eq d c]
    exact Stats.isIdle_record.trans (and_iff_left hcounters)

/-- A run in which no pass does anything leaves the document as it was. -/
theorem document_runPasses_of_isIdle (hp : ∀ p ∈ passes, p.pass.IsFramed)
    (htruth : ∀ p ∈ passes, p.pass.IsTruthful) {d : Document} {c : Context}
    (hc : c.assets? = none) (h : (runPasses false name passes d c).IsIdle) :
    (runPasses false name passes d c).document = d := by
  induction passes generalizing c with
  | nil => rfl
  | cons p rest ih =>
    obtain ⟨hidle, hrest⟩ := (isIdle_runPasses_cons_iff hp).1 h
    have hassets := (PlannedPass.assets_contextAfter (hp p List.mem_cons_self) d c).trans hc
    have hdoc := htruth p List.mem_cons_self d c hc hidle
    obtain ⟨counters, hr, -⟩ := hidle
    rw [hdoc] at hrest
    rw [runPasses_cons_of_ok hr, hdoc]
    exact ih (fun q hq => hp q (List.mem_cons_of_mem _ hq))
      (fun q hq => htruth q (List.mem_cons_of_mem _ hq)) hassets hrest

end Pipeline

/-! ### The usual plan -/

/-- The plan of the built-in passes for settings that say nothing. -/
def usualPlan : Plan :=
  ⟨builtinPasses.map fun p => ⟨p, p.priority, true⟩, []⟩

theorem plan_builtin_usual : Registry.builtin.plan .usual = usualPlan := by
  have hsorted : usualPlan.entries.mergeSort (fun a b => a.priority ≤ b.priority)
      = usualPlan.entries := List.mergeSort_of_pairwise (by decide)
  exact congrArg (Plan.mk · []) hsorted

/-- The pipeline of the built-in passes for settings that say nothing. -/
def Pipeline.usual : Pipeline :=
  ⟨false, usualPlan, []⟩

theorem ofRegistry_builtin_usual : Pipeline.ofRegistry .builtin .usual = .ok .usual := by
  unfold Pipeline.ofRegistry
  rw [plan_builtin_usual]
  rfl

theorem forall_enabled_usualPlan {p : Pass → Prop} (h : ∀ pass ∈ builtinPasses, p pass) :
    ∀ planned ∈ usualPlan.enabled, p planned.pass := by
  intro planned hplanned
  obtain ⟨pass, hpass, rfl⟩ := List.mem_map.1 (List.mem_filter.1 hplanned).1
  exact h pass hpass

/-- The first pass of the usual plan is the one for fonts. -/
theorem enabled_usualPlan :
    usualPlan.enabled = ⟨FontDetection.pass, 0, true⟩ :: usualPlan.enabled.tail := rfl

theorem pass_mem_tail_builtinPasses {p : PlannedPass} (hp : p ∈ usualPlan.enabled.tail) :
    p.pass ∈ builtinPasses.tail := by
  have htail : usualPlan.enabled.tail = builtinPasses.tail.map fun p => ⟨p, p.priority, true⟩ := rfl
  rw [htail] at hp
  obtain ⟨pass, hpass, rfl⟩ := List.mem_map.1 hp
  exact hpass

/-- An element that no built-in pass changes, wherever it stands. -/
structure Element.IsSettled (design : VariableTable) (e : Element) : Prop where
  clean : ClassCleanup.AreClean e.attributes.classes
  flat : VectorWrappers.isWrapper e = false
  corrected : PostFixes.IsSettled e
  resolved : CssVariables.IsSettled design e
  optimal : ClassOptimizer.AreOptimal e.attributes.classes

instance (design : VariableTable) (e : Element) : Decidable (e.IsSettled design) :=
  decidable_of_iff (ClassCleanup.AreClean e.attributes.classes ∧
      VectorWrappers.isWrapper e = false ∧ PostFixes.IsSettled e ∧
      CssVariables.IsSettled design e ∧ ClassOptimizer.AreOptimal e.attributes.classes)
    ⟨fun ⟨clean, flat, corrected, resolved, optimal⟩ =>
        ⟨clean, flat, corrected, resolved, optimal⟩,
      fun ⟨clean, flat, corrected, resolved, optimal⟩ =>
        ⟨clean, flat, corrected, resolved, optimal⟩⟩

/-- A document that no built-in pass changes: no element of it is changed for itself, and the first
container contains its overflow. -/
structure Document.IsSettled (design : VariableTable) (d : Document) : Prop where
  elements : ∀ e ∈ d.elements, e.IsSettled design
  contained : ∀ e, d.elements.find? ClassCleanup.isContainer = some e →
    ClassCleanup.overflowClass ∈ e.attributes.classes

theorem Document.isSettled_iff {design : VariableTable} {d : Document} :
    d.IsSettled design ↔ (∀ e ∈ d.elements, e.IsSettled design) ∧
      (d.elements.find? ClassCleanup.isContainer).all
        (fun e => ClassCleanup.overflowClass ∈ e.attributes.classes) = true := by
  have hcontained : (d.elements.find? ClassCleanup.isContainer).all
      (fun e => ClassCleanup.overflowClass ∈ e.attributes.classes) = true ↔
      ∀ e, d.elements.find? ClassCleanup.isContainer = some e →
        ClassCleanup.overflowClass ∈ e.attributes.classes := by
    simp [Option.all_eq_true]
  rw [hcontained]
  exact ⟨fun ⟨elements, contained⟩ => ⟨elements, contained⟩,
    fun ⟨elements, contained⟩ => ⟨elements, contained⟩⟩

instance (design : VariableTable) (d : Document) : Decidable (d.IsSettled design) :=
  decidable_of_iff _ Document.isSettled_iff.symm

namespace Pipeline

variable {name : String} {d : Document} {c : Context}

/-- Idle passes of which each looks at nothing but the document, or needs no more of the context
than a run keeps: these are the settled documents. -/
theorem areIdleInTurn_builtin_iff (hc : c.assets? = none) (hroot : c.rootContained = false) :
    AreIdleInTurn d usualPlan.enabled c ↔ d.IsSettled c.design := by
  have hframed := isFramed_builtin
  simp only [builtinPasses, List.forall_mem_cons] at hframed
  obtain ⟨hfonts, hcleanup, hcomposites, hwrappers, hfixes, -⟩ := hframed
  let c₁ := PlannedPass.contextAfter ⟨FontDetection.pass, 0, true⟩ d c
  let c₂ := PlannedPass.contextAfter ⟨ClassCleanup.pass, 10, true⟩ d c₁
  let c₃ := PlannedPass.contextAfter ⟨VectorComposites.pass, 15, true⟩ d c₂
  let c₄ := PlannedPass.contextAfter ⟨VectorWrappers.pass, 20, true⟩ d c₃
  let c₅ := PlannedPass.contextAfter ⟨PostFixes.pass, 25, true⟩ d c₄
  have hturn : AreIdleInTurn d usualPlan.enabled c ↔
      FontDetection.pass.IsIdleOn d c ∧ ClassCleanup.pass.IsIdleOn d c₁ ∧
      VectorComposites.pass.IsIdleOn d c₂ ∧ VectorWrappers.pass.IsIdleOn d c₃ ∧
      PostFixes.pass.IsIdleOn d c₄ ∧ CssVariables.pass.IsIdleOn d c₅ ∧
      ClassOptimizer.pass.IsIdleOn d (PlannedPass.contextAfter ⟨CssVariables.pass, 30, true⟩ d c₅) ∧
      True := Iff.rfl
  have hroot₁ : c₁.rootContained = false :=
    (PlannedPass.contextAfter_eq _ d c Context.rootContained fun _ _ => rfl).trans hroot
  have hassets₂ : c₂.assets? = none := by
    rw [PlannedPass.assets_contextAfter hcleanup, PlannedPass.assets_contextAfter hfonts, hc]
  have hdesign₅ : c₅.design = c.design := by
    rw [PlannedPass.design_contextAfter hfixes, PlannedPass.design_contextAfter hwrappers,
      PlannedPass.design_contextAfter hcomposites, PlannedPass.design_contextAfter hcleanup,
      PlannedPass.design_contextAfter hfonts]
  rw [hturn, FontDetection.isIdleOn_iff, ClassCleanup.isIdleOn_iff, VectorWrappers.isIdleOn_iff,
    PostFixes.isIdleOn_iff, CssVariables.isIdleOn_iff, ClassOptimizer.isIdleOn_iff, hroot₁,
    hdesign₅]
  constructor
  · rintro ⟨-, ⟨hclean, hcontained⟩, -, hflat, hcorrected, hresolved, hoptimal, -⟩
    exact ⟨fun e he => ⟨hclean e he, hflat e he, hcorrected e he, hresolved e he, hoptimal e he⟩,
      hcontained rfl⟩
  · rintro ⟨helements, hcontained⟩
    exact ⟨fun e he => FontDetection.isSettled_of_noFont (helements e he).clean.noFont,
      ⟨fun e he => (helements e he).clean, fun _ => hcontained⟩,
      VectorComposites.isIdleOn_of_no_assets d hassets₂, fun e he => (helements e he).flat,
      fun e he => (helements e he).corrected, fun e he => (helements e he).resolved,
      fun e he => (helements e he).optimal, trivial⟩

/-- The built-in passes have nothing to do exactly on settled documents. -/
theorem isIdle_runPasses_builtin_iff (hc : c.assets? = none) (hroot : c.rootContained = false)
    (hstats : c.stats.IsIdle) :
    (runPasses false name usualPlan.enabled d c).IsIdle ↔ d.IsSettled c.design := by
  rw [isIdle_runPasses_iff (forall_enabled_usualPlan isFramed_builtin)
    (forall_enabled_usualPlan isTruthful_builtin) hc, and_iff_right hstats]
  exact areIdleInTurn_builtin_iff hc hroot

/-- Built-in passes that have nothing to do leave the document as it was. -/
theorem document_runPasses_builtin_of_isIdle (hc : c.assets? = none)
    (h : (runPasses false name usualPlan.enabled d c).IsIdle) :
    (runPasses false name usualPlan.enabled d c).document = d :=
  document_runPasses_of_isIdle (forall_enabled_usualPlan isFramed_builtin)
    (forall_enabled_usualPlan isTruthful_builtin) hc h

/-- The passes after the first add no typefaces. -/
theorem fonts_runPasses_tail (continueOnError : Bool) :
    (runPasses continueOnError name usualPlan.enabled.tail d c).context.fonts = c.fonts := by
  have hothers : ∀ p ∈ usualPlan.enabled.tail, ∀ d' c', c'.fonts = c.fonts →
      (p.contextAfter d' c').fonts = c.fonts := by
    intro p hp d' c' h
    rw [PlannedPass.contextAfter_eq _ d' c' Context.fonts fun _ _ => rfl]
    exact (fonts_run_builtin p.pass (pass_mem_tail_builtinPasses hp) d' c').trans h
  exact runPasses_invariant hothers continueOnError d rfl

/-- The typefaces of a run are those that its first pass has seen. -/
theorem fonts_runPasses_builtin {counters : Counters}
    (h : (FontDetection.pass.run d c).result = .ok counters) :
    (runPasses false name usualPlan.enabled d c).context.fonts
      = (FontDetection.pass.run d c).context.fonts := by
  rw [enabled_usualPlan, runPasses_cons_of_ok h]
  refine (fonts_runPasses_tail false).trans ?_
  exact PlannedPass.contextAfter_eq _ d c Context.fonts fun _ _ => rfl

/-- No typeface is seen in a settled document. -/
theorem fonts_runPasses_of_isSettled {design : VariableTable} (hs : d.IsSettled design) :
    (runPasses false name usualPlan.enabled d c).context.fonts = c.fonts := by
  have hnoFont : ∀ e ∈ d.elements, ∀ t ∈ e.attributes.classes, isFontClass t = false :=
    fun e he => (hs.elements e he).clean.noFont
  obtain ⟨counters, hr, -⟩ := (FontDetection.isIdleOn_iff d c).2 fun e he =>
    FontDetection.isSettled_of_noFont (hnoFont e he)
  rw [fonts_runPasses_builtin hr, FontDetection.fonts_run c hnoFont]

/-- All counters of a run have counted something. -/
theorem arePositive_runPasses_builtin (continueOnError : Bool) (hc : c.stats.ArePositive) :
    (runPasses continueOnError name usualPlan.enabled d c).context.stats.ArePositive := by
  have hp : ∀ p ∈ usualPlan.enabled, ∀ d c, c.stats.ArePositive →
      (p.contextAfter d c).stats.ArePositive := fun p hp d c h =>
    PlannedPass.arePositive_contextAfter (forall_enabled_usualPlan isFramed_builtin p hp)
      (forall_enabled_usualPlan countsUp_builtin p hp) d h
  exact runPasses_invariant hp continueOnError d hc

/-- A run keeps its variables. -/
theorem design_runPasses_builtin (continueOnError : Bool) :
    (runPasses continueOnError name usualPlan.enabled d c).context.design = c.design :=
  design_runPasses (forall_enabled_usualPlan isFramed_builtin) continueOnError d c

end Pipeline

/-! ### Passes over attributes -/

namespace Pipeline

variable {name : String} {passes : List PlannedPass}

/-- A run of passes over attributes makes edits and nothing else, however it ends. -/
theorem edits_runPasses (hp : ∀ p ∈ passes, p.pass ∈ attributePasses) (continueOnError : Bool)
    (d : Document) (c : Context) :
    d.Matches Edits (runPasses continueOnError name passes d c).document := by
  have hkeeps : ∀ p ∈ passes, ∀ (d' : Document) (c' : Context), d.Matches Edits d' →
      d.Matches Edits (p.pass.run d' c').document :=
    fun p hmem d' c' h => h.trans (edits_attributePasses p.pass (hp p hmem) d' c')
  exact @runPasses_keeps name passes (fun d' _ => d.Matches Edits d') hkeeps continueOnError d c
    (Document.matches_refl d)

/-- Passes over attributes lose no class token that none of them looks for, in whatever order they
run and however they end. -/
theorem inert_kept (hp : ∀ p ∈ passes, p.pass ∈ attributePasses) (continueOnError : Bool)
    (d : Document) (c : Context) :
    d.Matches KeepsInert (runPasses continueOnError name passes d c).document :=
  (edits_runPasses hp continueOnError d c).mono fun _ _ h => h.keepsInert

end Pipeline

/-- A container with a typeface, a square and a text size around a line of no height. -/
def mixedClasses : Document :=
  ⟨[.markup ⟨"div",
    [⟨"className", .text "font-['Inter:Bold'] flex w-[8px] h-[8px] text-[16px] flex"⟩,
      ⟨"data-name", .text "Card"⟩],
    [.element ⟨"hr", [⟨"data-name", .text "line"⟩, ⟨"className", .text "block h-0 gap-[var(--x)]"⟩],
      []⟩]⟩]⟩

/-- The passes over attributes in their usual order. -/
def attributePlan : List PlannedPass :=
  attributePasses.map fun p => ⟨p, p.priority, true⟩

/-- In their usual order the passes complete; the inert tokens are among the others afterwards. -/
theorem Pipeline.mixedClasses_inert_kept :
    (∀ p ∈ attributePlan, p.pass ∈ attributePasses) ∧ (∀ t ∈ ["flex", "block"], IsInert t) ∧
      (runPasses false "" attributePlan mixedClasses (.new .empty none)).fault? = none ∧
      mixedClasses.Matches KeepsInert
        (runPasses false "" attributePlan mixedClasses (.new .empty none)).document ∧
      (runPasses false "" attributePlan mixedClasses (.new .empty none)).document.elements.map
          (fun e => e.attributes.classes)
        = [["flex", "size-2", "text-base", "overflow-x-hidden"], ["block", "h-px", "gap-x"]] := by
  have hplan : ∀ p ∈ attributePlan, p.pass ∈ attributePasses := by
    intro p hp
    obtain ⟨pass, hpass, rfl⟩ := List.mem_map.1 hp
    exact hpass
  exact ⟨hplan, by decide +kernel, by decide +kernel, inert_kept hplan false _ _, by decide +kernel⟩

end MarkupTidy
