import MarkupTidy.Proofs.Plan.Order
import MarkupTidy.Proofs.Run.Trace

/-! # Runs follow their plan

A plan holds what was registered, a plan that is out of order is refused, and the runs of a plan
that is not refused start every pass after those that have to precede it.

* `Pipeline.HasEnded`: a pass has been started and has ended among events.
* `Pipeline.exists_ended_run`: the passes that a run has gone through are first in its plan.
* `Registry.plan_exact`: plan, check and run. -/

namespace MarkupTidy

/-- A pass has been started, and has completed or failed. -/
def HasEnded (events : List Event) (pass : String) : Prop :=
  (∃ priority, .passStarted pass priority ∈ events) ∧
    ((∃ counters, .passCompleted pass counters ∈ events) ∨
      ∃ error continued, .passFailed pass error continued ∈ events)

namespace EndedPass

variable {continueOnError : Bool}

theorem hasEnded_events (continueOnError : Bool) (e : EndedPass) :
    HasEnded (e.events continueOnError) e.planned.name := by
  unfold events
  refine ⟨⟨_, List.mem_cons_self⟩, ?_⟩
  cases e.result with
  | ok counters => exact Or.inl ⟨counters, List.mem_cons_of_mem _ List.mem_cons_self⟩
  | error fault =>
    exact Or.inr ⟨fault.message, continueOnError, List.mem_cons_of_mem _ List.mem_cons_self⟩

/-- Passes that have ended are told of one after the other: where one is started, all before it have
been told of, and nothing else. -/
theorem exists_of_passStarted {tail : List Event} (htail : ∀ e ∈ tail, e.kind ≠ .passStarted)
    {ended : List EndedPass} {before after : List Event} {name : String} {priority : Int}
    (h : ended.flatMap (·.events continueOnError) ++ tail
      = before ++ .passStarted name priority :: after) :
    ∃ earlier e later, ended = earlier ++ e :: later ∧ e.planned.name = name ∧
      before = earlier.flatMap (·.events continueOnError) := by
  induction ended generalizing before with
  | nil =>
    have hmem : Event.passStarted name priority ∈ tail := by
      rw [List.flatMap_nil, List.nil_append] at h
      rw [h]
      exact List.mem_append_right _ List.mem_cons_self
    exact absurd rfl (htail _ hmem)
  | cons e rest ih =>
    rw [List.flatMap_cons, List.append_assoc] at h
    unfold events at h
    rw [List.cons_append, List.cons_append, List.nil_append] at h
    match before with
    | [] =>
      rw [List.nil_append, List.cons.injEq, Event.passStarted.injEq] at h
      exact ⟨[], e, rest, rfl, h.1.1, rfl⟩
    | [_] =>
      rw [List.singleton_append, List.cons.injEq, List.cons.injEq] at h
      have hsecond := h.2.1
      split at hsecond
      · exact absurd hsecond (by simp)
      · exact absurd hsecond (by simp)
    | first :: second :: before =>
      rw [List.cons_append, List.cons_append, List.cons.injEq, List.cons.injEq] at h
      obtain ⟨rfl, rfl, h⟩ := h
      obtain ⟨earlier, x, later, rfl, hname, rfl⟩ := ih h
      exact ⟨e :: earlier, x, later, rfl, hname, rfl⟩

end EndedPass

theorem HasEnded.mono {events more : List Event} {pass : String} (h : HasEnded events pass)
    (hmore : ∀ e ∈ events, e ∈ more) : HasEnded more pass := by
  obtain ⟨⟨priority, hstarted⟩, hended⟩ := h
  refine ⟨⟨priority, hmore _ hstarted⟩, ?_⟩
  obtain ⟨counters, h⟩ | ⟨error, continued, h⟩ := hended
  · exact Or.inl ⟨counters, hmore _ h⟩
  · exact Or.inr ⟨error, continued, hmore _ h⟩

namespace Pipeline

variable {p : Pipeline} {c : Context} {source name : String}

theorem kind_sweptEvents (found : Nat) (fixed : Int) :
    ∀ e ∈ sweptEvents found fixed, e.kind ≠ .passStarted := by
  intro e he
  unfold sweptEvents at he
  split at he
  · exact absurd he List.not_mem_nil
  · rw [List.mem_singleton.1 he]
    simp [Event.kind]

theorem exists_check_of_ofRegistry {registry : Registry} {settings : Settings}
    (h : ofRegistry registry settings = .ok p) :
    ∃ findings, (registry.plan settings).check = .ok findings := by
  unfold ofRegistry at h
  dsimp only at h
  split at h
  · exact ⟨_, ‹_›⟩
  · exact absurd h (by simp)

/-- The passes that a run has gone through are the first ones of its plan, in their order. -/
theorem exists_ended_run (p : Pipeline) (c : Context) (source name : String) :
    ∃ (ended : List EndedPass) (tail : List Event), (p.run c source name).events
        = p.started name :: (ended.flatMap (·.events p.continueOnError) ++ tail) ∧
      ended.map EndedPass.planned <+: p.plan.enabled ∧ ∀ e ∈ tail, e.kind ≠ .passStarted := by
  cases hread : Document.read source with
  | error error =>
    refine ⟨[], [.runFailed name error.message], (isUnread_run hread).events,
      List.nil_prefix, ?_⟩
    exact List.forall_mem_singleton.2 (by simp [Event.kind])
  | ok d =>
    cases hfault : (runPasses p.continueOnError name p.plan.enabled d c.reset).fault? with
    | some cause =>
      obtain ⟨ended, failed, fault, h⟩ := exists_isAborted_run hread hfault
      refine ⟨ended ++ [⟨failed, .error fault⟩], [.runFailed name fault.message],
        h.events.trans (List.cons_append ..), ?_, ?_⟩
      · rw [List.map_append]
        exact h.passes
      · exact List.forall_mem_singleton.2 (by simp [Event.kind])
    | none =>
      obtain ⟨ended, hended, -, hevents, -⟩ := exists_ended_of_completed hfault
      have hrun : (p.run c source name).events = _ :=
        congrArg RunOutcome.events (run_of_completed hread hfault)
      refine ⟨ended, _, hrun.trans (congrArg (fun events => _ :: (events ++ _)) hevents), ?_, ?_⟩
      · exact hended ▸ List.prefix_rfl
      · obtain ⟨-, out, -, -, hfinish⟩ | ⟨family, found, fixed, -, -, hfinish⟩ := finish_cases name
          (runPasses p.continueOnError name p.plan.enabled d c.reset)
        · rw [hfinish, List.forall_mem_append]
          exact ⟨kind_sweptEvents _ _, List.forall_mem_singleton.2 (by simp [Event.kind])⟩
        · rw [hfinish]
          exact kind_sweptEvents found fixed

/-- A pass is started after those that have to precede it have ended. -/
theorem hasEnded_of_passStarted (hnames : (p.plan.enabled.map PlannedPass.name).Nodup)
    {findings : List Finding} (hcheck : p.plan.check = .ok findings) {a : PlannedPass}
    (ha : a ∈ p.plan.enabled) {later : String} (hlater : later ∈ a.pass.mustPrecede)
    {before after : List Event} {priority : Int}
    (h : (p.run c source name).events = before ++ .passStarted later priority :: after) :
    HasEnded before a.name := by
  obtain ⟨ended, tail, hevents, ⟨rest, hplan⟩, htail⟩ := exists_ended_run p c source name
  rw [hevents] at h
  cases before with
  | nil => exact absurd (List.cons.inj h).1 (by simp [started])
  | cons first before =>
    rw [List.cons_append, List.cons.injEq] at h
    obtain ⟨earlier, e, others, rfl, rfl, rfl⟩ := EndedPass.exists_of_passStarted htail h.2
    rw [List.map_append, List.map_cons, List.append_assoc] at hplan
    obtain ⟨x, hx, rfl⟩ := List.mem_map.1 (Plan.mem_of_check_ok hnames hcheck hplan.symm ha hlater)
    refine (x.hasEnded_events p.continueOnError).mono fun event hevent => ?_
    exact List.mem_cons_of_mem _ (List.mem_flatMap.2 ⟨x, hx, hevent⟩)

end Pipeline

/-- The plan of passes that were registered in turn holds each name once, with the last pass, the
effective priority, and in the order of priorities and first registrations; it is refused exactly if
passes that run are out of order; and if it is not, no run starts a pass before those that have to
precede it have ended. -/
theorem Registry.plan_exact (passes : List Pass) (settings : Settings) :
    let plan := (ofPasses passes).plan settings
    plan.IsPlanOf passes settings ∧
      ((∃ refusal, plan.check = .error refusal) ↔ ∃ here there, plan.IsOutOfOrder here there) ∧
      ∀ p, Pipeline.ofRegistry (ofPasses passes) settings = .ok p → ∀ c source name,
        ∀ a ∈ plan.enabled, ∀ later ∈ a.pass.mustPrecede, ∀ before priority after,
          (p.run c source name).events = before ++ .passStarted later priority :: after →
            HasEnded before a.name := by
  have hnames := nodup_enabled_plan passes settings
  refine ⟨isPlanOf_plan passes settings, Plan.exists_refusal_iff hnames, ?_⟩
  intro p hp c source name a ha later hlater before priority after h
  obtain ⟨findings, hcheck⟩ := Pipeline.exists_check_of_ofRegistry hp
  rw [← Pipeline.plan_ofRegistry hp] at ha hnames hcheck
  exact Pipeline.hasEnded_of_passStarted hnames hcheck ha hlater h

/-- A run of the built-in passes optimizes classes after variables have been resolved. -/
theorem Registry.builtin_plan_exact : ∃ before after,
    Pipeline.ofRegistry (ofPasses builtinPasses) .usual = .ok .usual ∧
      (Pipeline.usual.run (.new .empty none) "<p />" "").events
        = before ++ .passStarted "tailwind-optimizer" 40 :: after ∧
      HasEnded before "css-vars" := by
  have hpipeline : Pipeline.ofRegistry (ofPasses builtinPasses) .usual = .ok .usual :=
    ofRegistry_builtin_usual
  have hevents : (Pipeline.usual.run (.new .empty none) "<p />" "").events
      = (Pipeline.usual.run (.new .empty none) "<p />" "").events.take 13 ++
        .passStarted "tailwind-optimizer" 40 ::
          (Pipeline.usual.run (.new .empty none) "<p />" "").events.drop 14 := by decide +kernel
  have hmem : (⟨CssVariables.pass, 30, true⟩ : PlannedPass) ∈
      ((ofPasses builtinPasses).plan .usual).enabled := by
    have hplan : (ofPasses builtinPasses).plan .usual = usualPlan := plan_builtin_usual
    rw [hplan]
    exact List.mem_of_getElem? (show usualPlan.enabled[5]? = _ from rfl)
  refine ⟨_, _, hpipeline, hevents, ?_⟩
  exact (plan_exact builtinPasses .usual).2.2 .usual hpipeline _ _ _ ⟨CssVariables.pass, 30, true⟩
    hmem "tailwind-optimizer" (by decide) _ 40 _ hevents

end MarkupTidy
