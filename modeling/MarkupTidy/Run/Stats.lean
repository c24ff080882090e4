import MarkupTidy.OrderedMap
import MarkupTidy.Text.Quoted

/-! # Counters

What passes count, by pass and by kind of change.  Some counters only tell what a pass has seen;
the others add up to the number of changes. -/

namespace MarkupTidy

/-- Counts by what is counted. -/
abbrev Counters := OrderedMap String Int

namespace Counters

/-- Counts so many more of a kind. -/
def add (c : Counters) (key : String) (amount : Int) : Counters :=
  c.insert key ((c.get? key).getD 0 + amount)

/-- Counts one more of a kind. -/
def count (c : Counters) (key : String) : Counters :=
  c.add key 1

/-- Adds all counts of another collection. -/
def merge (c other : Counters) : Counters :=
  other.foldl (fun c (key, amount) => c.add key amount) c

/-- What is counted because it was seen, not because it was changed. -/
def observational : List String := [
  "blendModesVerified", "blendModesUnrecognized", "gradientsUnrecognized", "shapesUnrecognized",
  "compositesUnrecognized", "placeholdersUnrecognized", "nodesAnalyzed", "sectionsDetected"]

/-- The number of changes among the counts. -/
def changes (c : Counters) : Int :=
  c.foldl (fun total (key, amount) =>
    if observational.contains key then total else total + amount) 0

end Counters

/-- The counters of a run. -/
structure Stats where
  counters : OrderedMap String Counters
  /-- The passes that have been timed. -/
  timed : List String
  /-- What the passes that failed have said. -/
  failures : OrderedMap String String

namespace Stats

/-- Nothing has been counted. -/
def empty : Stats := ⟨[], [], []⟩

/-- The counters of a pass. -/
def forPass (s : Stats) (pass : String) : Counters :=
  (s.counters.get? pass).getD []

/-- Counts for a pass. -/
def add (s : Stats) (pass key : String) (amount : Int) : Stats :=
  { s with counters := s.counters.insert pass ((s.forPass pass).add key amount) }

/-- Adds the counters of a pass that has ended. -/
def record (s : Stats) (pass : String) (counters : Counters) : Stats :=
  { s with
    counters := s.counters.insert pass ((s.forPass pass).merge counters)
    timed := if s.timed.contains pass then s.timed else s.timed ++ [pass] }

/-- Notes what a failed pass has said. -/
def recordFailure (s : Stats) (pass error : String) : Stats :=
  { s with failures := s.failures.insert pass error }

/-- The counters of all passes together. -/
def totals (s : Stats) : Counters :=
  s.counters.foldl (fun total (_, counters) => total.merge counters) []

/-- The number of changes that all passes have made. -/
def changes (s : Stats) : Int :=
  s.totals.changes

/-- The passes that have counted, and the number of changes, in one line. -/
def summary (s : Stats) : String :=
  "Stats(passes=[" ++ ", ".intercalate (s.counters.keys.map Text.quotedText) ++ "], changes="
    ++ toString s.changes ++ ")"

end Stats

end MarkupTidy
