import MarkupTidy.Pass.Walk
import MarkupTidy.Run.Context

/-! # Passes

A pass changes a document, may use and change the context of the run, and counts what it does.  If
it fails, what it has done to document and context so far stays. -/

namespace MarkupTidy

/-- The outcome of a pass. -/
structure PassOutcome where
  document : Document
  context : Context
  result : Except PassFault Counters
  notices : List Notice

/-- A pass: its name, its place in the usual order, and the passes that have to come after it
because they read what it writes, or delete what it reads. -/
structure Pass where
  name : String
  priority : Int
  mustPrecede : List String
  run : Document → Context → PassOutcome

/-- How a pattern that a pass looks for was met with. -/
inductive Verdict where
  | applied
  | unrecognized
  | skipped
deriving DecidableEq, Repr

/-- Counts a verdict; what was skipped does not count. -/
def Verdict.tally (v : Verdict) (counters : Counters) (applied unrecognized : String) : Counters :=
  match v with
  | .applied => counters.count applied
  | .unrecognized => counters.count unrecognized
  | .skipped => counters

/-- The result of a walk that has ended. -/
def Walk.result {σ : Type} (w : Walk σ) (counters : σ → Counters) : Except PassFault Counters :=
  match w.fault? with
  | some fault => .error fault
  | none => .ok (counters w.state)

end MarkupTidy
