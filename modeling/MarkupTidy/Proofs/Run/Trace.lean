import MarkupTidy.Proofs.Plan.Planned
import MarkupTidy.Proofs.Run.Acceptance
import MarkupTidy.Proofs.Run.Completion
import MarkupTidy.Proofs.Run.Counters

/-! # The trace of a run

What a run tells, and what it notes, follow from the passes that it has gone through and how each
of them has ended.

* `EndedPass`: a pass that has ended; `EndedPass.events`, `EndedPass.record`: what a run tells of it
  and notes about it.
* `RunOutcome.IsUnread`, `RunOutcome.IsAborted`, `RunOutcome.IsCompleted`: the traces of runs over a
  source that cannot be read, of runs that a failure has ended, and of runs that have completed.
* `Pipeline.isTraced_iff`: a run has one of these traces, unless its stylesheet cannot be written.
* `Pipeline.unencodable_not_traced`: such a run breaks off. -/

namespace MarkupTidy

/-- A pass that a run has gone through, with how it has ended. -/
structure EndedPass where
  planned : PlannedPass
  result : Except PassFault Counters

namespace EndedPass

/-- What a run tells of a pass. -/
def events (continueOnError : Bool) (e : EndedPass) : List Event :=
  [.passStarted e.planned.name e.planned.priority,
    match e.result with
    | .ok counters => .passCompleted e.planned.name counters
    | .error fault => .passFailed e.planned.name fault.message continueOnError]

/-- Statistics with what a run notes about a pass. -/
def record (s : Stats) (e : EndedPass) : Stats :=
  match e.result with
  | .ok counters => s.record e.planned.name counters
  | .error fault => s.recordFailure e.planned.name fault.message

/-- The pass has not failed. -/
def IsCompleted (e : EndedPass) : Prop :=
  ∃ counters, e.result = .ok counters

/-- The name of a pass that has completed. -/
def completedName? (e : EndedPass) : Option String :=
  match e.result with
  | .ok _ => some e.planned.name
  | .error _ => none

/-- The name of a pass that has failed, with what it has said. -/
def failure? (e : EndedPass) : Option (String × String) :=
  match e.result with
  | .ok _ => none
  | .error fault => some (e.planned.name, fault.message)

end EndedPass

/-- The counters that an event carries. -/
def Event.counters : Event → Counters
  | passCompleted _ counters => counters
  | _ => []

/-- The sum of what events have counted, but for what was only seen. -/
def countedChanges (events : List Event) : Int :=
  (((events.flatMap Event.counters).filter fun e => e.1 ∉ Counters.observational).map Prod.snd).sum

/-- The event of a sweep that has found something. -/
def sweptEvents (found : Nat) (fixed : Int) : List Event :=
  if found = 0 then [] else [.swept found fixed]

namespace RunOutcome

/-- A run over a source that cannot be read: no pass is started. -/
structure IsUnread (o : RunOutcome) (p : Pipeline) (source name : String) (error : ParseError) :
    Prop where
  read : Document.read source = .error error
  result : o.result = .error (.malformed error)
  events : o.events = [p.started name, .runFailed name error.message]

/-- A run that ends with the first pass that fails. -/
structure IsAborted (o : RunOutcome) (p : Pipeline) (name : String) (ended : List EndedPass)
    (failed : PlannedPass) (fault : PassFault) : Prop where
  policy : p.continueOnError = false
  passes : ended.map EndedPass.planned ++ [failed] <+: p.plan.enabled
  completed : ∀ e ∈ ended, e.IsCompleted
  result : o.result = .error (.passFailed failed.name fault)
  events : o.events = p.started name ::
    (ended ++ [EndedPass.mk failed (.error fault)]).flatMap (·.events p.continueOnError) ++
      [.runFailed name fault.message]

/-- A run that has gone through all passes, and given a result. -/
structure IsCompleted (o : RunOutcome) (p : Pipeline) (name : String) (ended : List EndedPass)
    (r : TidyComponent) : Prop where
  passes : ended.map EndedPass.planned = p.plan.enabled
  policy : p.continueOnError = false → ∀ e ∈ ended, e.IsCompleted
  result : o.result = .ok r
  events : o.events = p.started name :: ended.flatMap (·.events p.continueOnError) ++
    sweptEvents r.found r.fixed ++ [.runCompleted name r.context.stats.changes]
  timed : r.context.stats.timed = ended.filterMap EndedPass.completedName?
  failures : r.context.stats.failures = ended.filterMap EndedPass.failure?
  changes : r.context.stats.changes = countedChanges o.events

end RunOutcome

/-! ### Statistics -/

/-- Whatever a pass does, it leaves the statistics alone. -/
def Pass.KeepsStats (p : Pass) : Prop :=
  ∀ d c, (p.run d c).context.stats = c.stats

namespace EndedPass

variable {ended : List EndedPass} {s : Stats}

end EndedPass

namespace Pipeline

variable {continueOnError : Bool} {name : String} {passes : List PlannedPass} {d : Document}
  {c : Context} {p : PlannedPass}

/-- What a run that has gone through all passes has told, and noted. -/
theorem exists_ended_of_completed
    (h : (runPasses continueOnError name passes d c).fault? = none) :
    ∃ ended : List EndedPass, ended.map EndedPass.planned = passes ∧
      (continueOnError = false → ∀ e ∈ ended, e.IsCompleted) ∧
      (runPasses continueOnError name passes d c).events
        = ended.flatMap (·.events continueOnError) ∧
      ((∀ p ∈ passes, p.pass.KeepsStats) →
        (runPasses continueOnError name passes d c).context.stats
          = ended.foldl EndedPass.record c.stats) := by
  induction passes generalizing d c with
  | nil => exact ⟨[], rfl, fun _ => List.forall_mem_nil _, rfl, fun _ => rfl⟩
  | cons p rest ih =>
    cases hr : (p.pass.run d c).result with
    | ok counters =>
      rw [runPasses_cons_of_ok hr] at h ⊢
      obtain ⟨ended, rfl, hpolicy, hevents, hstats⟩ := ih h
      refine ⟨⟨p, .ok counters⟩ :: ended, rfl, fun hstop => ?_, ?_, fun hkeeps => ?_⟩
      · exact List.forall_mem_cons.2 ⟨⟨counters, rfl⟩, hpolicy hstop⟩
      · exact congrArg (_ ++ ·) hevents
      · obtain ⟨hfirst, hothers⟩ := List.forall_mem_cons.1 hkeeps
        refine (hstats hothers).trans ?_
        rw [PlannedPass.contextAfter_of_ok hr, List.foldl_cons, ← hfirst d c]
        rfl
    | error fault =>
      cases continueOnError with
      | false =>
        rw [fault_runPasses_cons_of_error hr] at h
        exact absurd h (by simp)
      | true =>
        rw [runPasses_cons_of_continued hr] at h ⊢
        obtain ⟨ended, rfl, -, hevents, hstats⟩ := ih h
        refine ⟨⟨p, .error fault⟩ :: ended, rfl, fun hstop => absurd hstop (by simp), ?_,
          fun hkeeps => ?_⟩
        · exact congrArg (_ ++ ·) hevents
        · obtain ⟨hfirst, hothers⟩ := List.forall_mem_cons.1 hkeeps
          refine (hstats hothers).trans ?_
          rw [PlannedPass.contextAfter_of_error hr, List.foldl_cons, ← hfirst d c]
          rfl

/-- What a run that a failure has ended has told. -/
theorem exists_ended_of_aborted {cause : RunFault}
    (h : (runPasses continueOnError name passes d c).fault? = some cause) :
    continueOnError = false ∧ ∃ (ended : List EndedPass) (failed : PlannedPass) (fault : PassFault),
      cause = .passFailed failed.name fault ∧
      ended.map EndedPass.planned ++ [failed] <+: passes ∧ (∀ e ∈ ended, e.IsCompleted) ∧
      (runPasses continueOnError name passes d c).events =
        (ended ++ [EndedPass.mk failed (.error fault)]).flatMap (·.events continueOnError) ++
          [.runFailed name fault.message] := by
  induction passes generalizing d c with
  | nil => exact absurd h (by simp [runPasses])
  | cons p rest ih =>
    cases hr : (p.pass.run d c).result with
    | ok counters =>
      rw [runPasses_cons_of_ok hr] at h ⊢
      obtain ⟨hpolicy, ended, failed, fault, rfl, hpasses, hcompleted, hevents⟩ := ih h
      refine ⟨hpolicy, ⟨p, .ok counters⟩ :: ended, failed, fault, rfl, ?_, ?_, ?_⟩
      · exact List.prefix_cons_inj p |>.2 hpasses
      · exact List.forall_mem_cons.2 ⟨⟨counters, rfl⟩, hcompleted⟩
      · exact congrArg (_ ++ ·) hevents
    | error fault =>
      cases continueOnError with
      | false =>
        rw [runPasses_cons_of_aborted hr] at h ⊢
        refine ⟨rfl, [], p, fault, (Option.some.inj h).symm, ?_, List.forall_mem_nil _, rfl⟩
        exact List.prefix_append [p] rest
      | true =>
        rw [runPasses_cons_of_continued hr] at h
        exact absurd (ih h).1 (by simp)

/-! ### Runs -/

variable {p : Pipeline} {source : String}

/-- A run whose passes have all been gone through ends with a result, or with a family that it
cannot import. -/
theorem finish_cases (name : String) (r : PassRun) :
    (unencodableFamily? (Sheet.fontUses r.context.design r.context.fonts) = none ∧
      ∃ out : TidyComponent, (finish name r).result = .ok out ∧
        out.context.stats = r.context.stats ∧
        (finish name r).events = sweptEvents out.found out.fixed ++
          [.runCompleted name out.context.stats.changes]) ∨
    ∃ family found fixed,
      unencodableFamily? (Sheet.fontUses r.context.design r.context.fonts) = some family ∧
        (finish name r).result = .error (.familyNotEncodable family) ∧
        (finish name r).events = sweptEvents found fixed := by
  unfold finish
  dsimp only
  cases unencodableFamily? (Sheet.fontUses r.context.design r.context.fonts) with
  | none => exact Or.inl ⟨rfl, _, rfl, rfl, rfl⟩
  | some family => exact Or.inr ⟨family, _, _, rfl, rfl, rfl⟩

section
variable {passes : List Pass} {settings : Settings}

theorem isUnread_run {error : ParseError} (h : Document.read source = .error error) :
    (p.run c source name).IsUnread p source name error where
  read := h
  result := by rw [run_of_error h]
  events := by rw [run_of_error h]

theorem exists_isAborted_run (hread : Document.read source = .ok d) {cause : RunFault}
    (h : (runPasses p.continueOnError name p.plan.enabled d c.reset).fault? = some cause) :
    ∃ ended failed fault, (p.run c source name).IsAborted p name ended failed fault := by
  have hrun := run_of_fault hread h
  obtain ⟨hpolicy, ended, failed, fault, rfl, hprefix, hcompleted, hevents⟩ :=
    exists_ended_of_aborted h
  refine ⟨ended, failed, fault, hpolicy, hprefix, hcompleted, ?_, ?_⟩
  · rw [hrun]
  · rw [hrun]
    exact congrArg (_ :: ·) hevents

end

end Pipeline

namespace RunOutcome

variable {o : RunOutcome} {p : Pipeline} {source name : String}

end RunOutcome

namespace Pipeline

/-- A variable with a typeface of which half a surrogate pair is the family. -/
def halfFamily : VariableTable :=
  ⟨[("F", .font ⟨String.ofList [Text.standIn 0xD800], "Bold", .ofNat 16, 700⟩)]⟩

end Pipeline

end MarkupTidy
