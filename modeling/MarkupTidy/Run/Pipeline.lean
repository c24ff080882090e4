import MarkupTidy.Json.Value
import MarkupTidy.Markup.Printer
import MarkupTidy.Markup.Reader
import MarkupTidy.Plan.Rules
import MarkupTidy.Run.Bus
import MarkupTidy.Sheet.Printer
import MarkupTidy.Text.Quoted
import MarkupTidy.Utility.Sweep

/-! # Runs

A run reads a component, lets the passes of a plan change it in turn, prints it, sweeps what is
left in the printed code, and writes the stylesheet that belongs to it.  The plan is checked
before anything is read.

* `Pipeline.ofRegistry`: a pipeline, unless its plan is refused.
* `Pipeline.runPasses`: the passes of a plan, one after the other.
* `Pipeline.run`: a run over a component.
* `TidyComponent.report`: what a run has counted, as a JSON object. -/

namespace MarkupTidy

open MarkupTidy.Text

/-- A checked plan, and what to do when a pass fails. -/
structure Pipeline where
  continueOnError : Bool
  plan : Plan
  /-- What the rules for plans have found. -/
  findings : List Finding

/-- Why a run has ended without a result. -/
inductive RunFault where
  | malformed (error : ParseError)
  | passFailed (pass : String) (fault : PassFault)
  /-- A family that the stylesheet would have to import has no encoding. -/
  | familyNotEncodable (family : String)
deriving DecidableEq, Repr

/-- The wording of a fault. -/
def RunFault.message : RunFault → String
  | malformed error => error.message
  | passFailed pass fault => "Pass '" ++ pass ++ "' failed: " ++ fault.message
  | familyNotEncodable family =>
    "Cannot import the font family " ++ quotedText family

/-- A component that a run has tidied. -/
structure TidyComponent where
  code : String
  stylesheet : String
  /-- What the passes and the sweep have left behind. -/
  context : Context
  found : Nat
  fixed : Int

/-- How far the passes of a plan have come. -/
structure PassRun where
  document : Document
  context : Context
  events : List Event
  notices : List Notice
  fault? : Option RunFault

/-- A run with what came before it told. -/
def PassRun.preceded (events : List Event) (notices : List Notice) (r : PassRun) : PassRun :=
  { r with events := events ++ r.events, notices := notices ++ r.notices }

/-- The outcome of a run, with all that it has told. -/
structure RunOutcome where
  context : Context
  events : List Event
  notices : List Notice
  result : Except RunFault TidyComponent

namespace Context

/-- Notes that a pass has ended. -/
def recordPass (c : Context) (pass : String) (counters : Counters) : Context :=
  { c with stats := c.stats.record pass counters }

/-- Notes that a pass has failed. -/
def recordFailure (c : Context) (pass error : String) : Context :=
  { c with stats := c.stats.recordFailure pass error }

/-- The stylesheet for what a run has gathered. -/
def stylesheet (c : Context) : String :=
  (Sheet.build c.design c.classes c.fonts).print Sheet.heading

end Context

namespace Pipeline

/-- The pipeline of the registered passes, unless their plan is refused. -/
def ofRegistry (registry : Registry) (settings : Settings) : Except PlanRefusal Pipeline :=
  let plan := registry.plan settings
  match plan.check with
  | .ok findings => .ok ⟨settings.continueOnError, plan, findings⟩
  | .error refusal => .error refusal

/-- The warnings about a plan that is not refused. -/
def warnings (p : Pipeline) : List Notice :=
  (p.findings.filter (·.severity = .warning)).map fun f => .planFinding f.text

/-- Lets passes change a document in turn, for a run over a source of the given name.  A pass that
fails ends the run unless the run is to go on; what the pass has done so far stays. -/
def runPasses (continueOnError : Bool) (name : String) :
    List PlannedPass → Document → Context → PassRun
  | [], document, context => ⟨document, context, [], [], none⟩
  | p :: rest, document, context =>
    let started := .passStarted p.name p.priority
    let o := p.pass.run document context
    match o.result with
    | .ok counters =>
      let context := o.context.recordPass p.name counters
      (runPasses continueOnError name rest o.document context).preceded
        [started, .passCompleted p.name counters] o.notices
    | .error fault =>
      let context := o.context.recordFailure p.name fault.message
      let failed := .passFailed p.name fault.message continueOnError
      if continueOnError then
        (runPasses continueOnError name rest o.document context).preceded [started, failed]
          (o.notices ++ [.passSkipped p.name name])
      else
        ⟨o.document, context, [started, failed, .runFailed name fault.message],
          o.notices ++ [.passAborted p.name name fault.message], some (.passFailed p.name fault)⟩

/-- Ends a run whose passes have all been gone through. -/
def finish (name : String) (r : PassRun) : RunOutcome :=
  let s := sweep r.context.design r.context.classes r.document.print
  let context := { r.context with classes := s.table }
  let swept := if s.found = 0 then [] else [.swept s.found s.fixed]
  match unencodableFamily? (Sheet.fontUses context.design context.fonts) with
  | some family => ⟨context, swept, s.notices, .error (.familyNotEncodable family)⟩
  | none =>
    ⟨context, swept ++ [.runCompleted name context.stats.changes], s.notices,
      .ok ⟨String.ofList s.code, context.stylesheet, context, s.found, s.fixed⟩⟩

/-- A run over a source; what an earlier run has left in the context is cleared first. -/
def run (p : Pipeline) (context : Context) (source name : String) : RunOutcome :=
  let context := context.reset
  let started := .runStarted name (p.plan.enabled.map PlannedPass.name)
  match Document.read source with
  | .error error =>
    ⟨context, [started, .runFailed name error.message], [.sourceMalformed name error.message],
      .error (.malformed error)⟩
  | .ok document =>
    let r := runPasses p.continueOnError name p.plan.enabled document context
    match r.fault? with
    | some fault => ⟨r.context, started :: r.events, r.notices, .error fault⟩
    | none =>
      let o := finish name r
      { o with events := started :: r.events ++ o.events, notices := r.notices ++ o.notices }

theorem run_reset (p : Pipeline) (context : Context) (source name : String) :
    p.run context.reset source name = p.run context source name := rfl

end Pipeline

/-! ### Reports -/

/-- Counters as a JSON object. -/
def Counters.report (c : Counters) : Json.Value :=
  .object (c.map fun (key, amount) => (key, .int amount))

/-- What a sweep has found and fixed, as a JSON object. -/
def sweepReport (found fixed : Int) : Json.Value :=
  .object [("found", .int found), ("fixed", .int fixed)]

namespace Stats

/-- The counters of passes, how long they took, and their failures, as entries of a JSON object.  No
clock is read, so every time is zero. -/
def reportEntries (s : Stats) : List (String × Json.Value) := [
  ("passes", .object (s.counters.map fun (pass, counters) => (pass, counters.report))),
  ("timings", .object (s.timed.map fun pass => (pass, .float (.ofNat 0)))),
  ("failures", .object (s.failures.map fun (pass, error) => (pass, .text error)))]

end Stats

namespace TidyComponent

/-- The report of a run. -/
def report (r : TidyComponent) : Json.Value :=
  let stats := r.context.stats
  .object (stats.reportEntries ++ [
    ("totals", stats.totals.report),
    ("totalFixes", .int stats.changes),
    ("customClassesGenerated", .int r.context.classes.entries.length),
    ("safetyNet", sweepReport r.found r.fixed),
    ("sections", .array (r.context.sections.map .text))])

end TidyComponent

end MarkupTidy
