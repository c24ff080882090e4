import MarkupTidy.Proofs.Run.Acceptance
import MarkupTidy.Proofs.Run.Completion

/-! # Runs do not leak into each other

One context may serve for many runs.  However they end, they keep the variables and the assets, and
the next run clears everything else before it begins.

* `Context.through`: a context after runs, one after the other.
* `Pipeline.design_context_run`, `Pipeline.assets_context_run`: what a run keeps of its context.
* `Pipeline.run_through`: a run after others is the same as one in a new context. -/

namespace MarkupTidy

/-- A run that a pipeline is asked for. -/
structure RunRequest where
  pipeline : Pipeline
  source : String
  name : String

namespace RunRequest

/-- The pipeline is one of the built-in passes. -/
def IsBuiltin (r : RunRequest) : Prop :=
  ∃ settings, Pipeline.ofRegistry .builtin settings = .ok r.pipeline

/-- The run that is asked for. -/
def run (r : RunRequest) (c : Context) : RunOutcome :=
  r.pipeline.run c r.source r.name

end RunRequest

/-- A context after runs that have used it one after the other. -/
def Context.through (c : Context) (history : List RunRequest) : Context :=
  history.foldl (fun c r => (r.run c).context) c

namespace Pipeline

variable {p : Pipeline} {c : Context} {source name : String}

/-- What every pass keeps of the context and what does not depend on the generated classes, a run
keeps, however it ends. -/
theorem context_run_keeps {α : Type} (f : Context → α)
    (hclasses : ∀ (c : Context) classes, f { c with classes } = f c)
    (hpasses : ∀ e ∈ p.plan.enabled, ∀ d c, f (e.contextAfter d c) = f c) :
    f (p.run c source name).context = f c.reset := by
  have hkeeps : ∀ d, f (runPasses p.continueOnError name p.plan.enabled d c.reset).context
      = f c.reset := fun d =>
    runPasses_invariant (fun e he d c h => (hpasses e he d c).trans h) p.continueOnError d rfl
  cases hread : Document.read source with
  | error error => rw [run_of_error hread]
  | ok d =>
    cases hfault : (runPasses p.continueOnError name p.plan.enabled d c.reset).fault? with
    | some cause =>
      rw [run_of_fault hread hfault]
      exact hkeeps d
    | none =>
      rw [run_of_completed hread hfault]
      refine Eq.trans ?_ (hkeeps d)
      unfold finish
      dsimp only
      split
      · exact hclasses ..
      · exact hclasses ..

theorem isFramed_of_isBuiltin {settings : Settings} (hp : ofRegistry .builtin settings = .ok p) :
    ∀ e ∈ p.plan.enabled, e.pass.IsFramed := by
  intro e he
  rw [plan_ofRegistry hp] at he
  exact isFramed_builtin e.pass (pass_mem_builtinPasses he)

theorem design_context_run {settings : Settings} (hp : ofRegistry .builtin settings = .ok p) :
    (p.run c source name).context.design = c.design :=
  context_run_keeps Context.design (fun _ _ => rfl) fun e he =>
    PlannedPass.design_contextAfter (isFramed_of_isBuiltin hp e he)

theorem assets_context_run {settings : Settings} (hp : ofRegistry .builtin settings = .ok p) :
    (p.run c source name).context.assets? = c.assets? :=
  context_run_keeps Context.assets? (fun _ _ => rfl) fun e he =>
    PlannedPass.assets_contextAfter (isFramed_of_isBuiltin hp e he)

/-- What a context is given stays, whatever runs have used it. -/
theorem reset_through {history : List RunRequest} (h : ∀ r ∈ history, r.IsBuiltin) (c : Context) :
    (c.through history).reset = c.reset := by
  induction history generalizing c with
  | nil => rfl
  | cons r rest ih =>
    obtain ⟨⟨settings, hr⟩, hrest⟩ := List.forall_mem_cons.1 h
    have hafter : (r.run c).context.reset = c.reset := by
      unfold Context.reset RunRequest.run
      rw [design_context_run hr, assets_context_run hr]
    exact (ih hrest _).trans hafter

/-- After any runs through a context, a run has the outcome that it has in a new context with the
same variables and assets. -/
theorem run_through {history : List RunRequest} (h : ∀ r ∈ history, r.IsBuiltin) (p : Pipeline)
    (c : Context) (source name : String) :
    p.run (c.through history) source name = p.run (.new c.design c.assets?) source name := by
  rw [← run_reset, reset_through h]
  exact run_reset p (.new c.design c.assets?) source name

/-- A source that cannot be read. -/
def cutOffTag : String := "<p"

/-- A run after one that could not read its source, one in which a pass has failed, and one that has
completed. -/
theorem run_through_faults :
    let history : List RunRequest :=
      [⟨usual, cutOffTag, "a"⟩, ⟨usual, textStyle, "b"⟩, ⟨usual, styledCaption, "c"⟩]
    Document.read cutOffTag = .error (.malformed .unexpectedInTag ⟨1, 3⟩) ∧
      (usual.run (.new .empty none) textStyle "b").result
        = .error (.passFailed "font-detection" .styleWithoutSource) ∧
      (∀ r ∈ history, r.IsBuiltin) ∧
      usual.run ((Context.new .empty none).through history) styledCaption "d"
        = usual.run (.new .empty none) styledCaption "d" := by
  have hopen : Document.read cutOffTag = .error (.malformed .unexpectedInTag ⟨1, 3⟩) := by
    with_unfolding_all rfl
  have hread : Document.read textStyle = .ok textStyleModule := by with_unfolding_all rfl
  have hpass : (FontDetection.pass.run textStyleModule (.new .empty none)).result
      = .error .styleWithoutSource := by with_unfolding_all rfl
  have hbuiltin : ∀ source name, (⟨usual, source, name⟩ : RunRequest).IsBuiltin := fun _ _ =>
    ⟨.usual, ofRegistry_builtin_usual⟩
  have hhistory : ∀ r ∈ ([⟨usual, cutOffTag, "a"⟩, ⟨usual, textStyle, "b"⟩,
      ⟨usual, styledCaption, "c"⟩] : List RunRequest), r.IsBuiltin := by
    simp only [List.forall_mem_cons, hbuiltin, true_and]
    exact List.forall_mem_nil _
  exact ⟨hopen, result_run_of_fault hread (fault_runPasses_usual_of_error hpass), hhistory,
    run_through hhistory usual (.new .empty none) styledCaption "d"⟩

end Pipeline

end MarkupTidy
