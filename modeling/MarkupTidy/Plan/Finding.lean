import MarkupTidy.Plan.Basic

/-! # Findings about plans

A finding is kept as its cause, with the passes it is about; its severity and wording follow from
that.

* `Finding.severity`, `Finding.message`, `Finding.pass?`, `Finding.remedy?`, `Finding.text`.
* `bySeverity`: findings with the gravest first. -/

namespace MarkupTidy

/-- How grave a finding is. -/
inductive Severity where
  | error
  | warning
  | info
deriving DecidableEq, Repr

namespace Severity

/-- The place of a severity; the gravest comes first. -/
def rank : Severity → Nat
  | error => 0
  | warning => 1
  | info => 2

/-- The name of a severity. -/
def name : Severity → String
  | error => "ERROR"
  | warning => "WARNING"
  | info => "INFO"

end Severity

/-- A finding about a plan, as its cause. -/
inductive Finding where
  /-- A pass does not run before another one that it has to run before. -/
  | outOfOrder (earlier : String) (earlierPriority : Int) (later : String) (laterPriority : Int)
  /-- The settings name a pass that is not registered. -/
  | unknownPass (name : String)
  /-- No pass runs. -/
  | noneEnabled
  /-- A pass runs, and one that has to run before it does not. -/
  | producerDisabled (producer consumer : String)
  /-- Passes that run have one priority. -/
  | priorityShared (passes : List String) (priority : Int)
  /-- A finding of a rule from elsewhere. -/
  | stated (severity : Severity) (message : String)
deriving DecidableEq, Repr

namespace Finding

/-- How grave a finding is. -/
def severity : Finding → Severity
  | outOfOrder .. => .error
  | unknownPass _ => .warning
  | noneEnabled => .warning
  | producerDisabled .. => .info
  | priorityShared .. => .info
  | stated severity _ => severity

/-- The wording of a finding. -/
def message : Finding → String
  | outOfOrder earlier earlierPriority later laterPriority =>
    "Pass '" ++ earlier ++ "' (priority " ++ toString earlierPriority ++ ") must run before '" ++
      later ++ "' (priority " ++ toString laterPriority ++ ")."
  | unknownPass name => "Configuration names unknown pass '" ++ name ++ "'; it is ignored."
  | noneEnabled => "Every pass is disabled; output only gets the safety-net sweep."
  | producerDisabled producer consumer =>
    "'" ++ consumer ++ "' runs while '" ++ producer ++ "' is disabled."
  | priorityShared passes priority =>
    "Passes " ++ ", ".intercalate passes ++ " share priority " ++ toString priority ++
      "; registration order applies."
  | stated _ message => message

/-- The pass that a finding is attached to. -/
def pass? : Finding → Option String
  | outOfOrder earlier .. => some earlier
  | unknownPass name => some name
  | producerDisabled _ consumer => some consumer
  | _ => none

/-- What can be done about a finding. -/
def remedy? : Finding → Option String
  | outOfOrder earlier _ later _ =>
    some ("Give '" ++ earlier ++ "' a lower priority than '" ++ later ++ "'.")
  | _ => none

/-- A finding as one line. -/
def text (f : Finding) : String :=
  let place := match f.pass? with
    | some pass => if pass = "" then "" else " [pass=" ++ pass ++ "]"
    | none => ""
  f.severity.name ++ place ++ ": " ++ f.message

end Finding

/-- Findings with the gravest first; those of one severity keep their order. -/
def bySeverity (findings : List Finding) : List Finding :=
  findings.mergeSort fun a b => a.severity.rank ≤ b.severity.rank

end MarkupTidy
