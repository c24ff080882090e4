import MarkupTidy.Plan.Finding

/-! # Rules for plans

A plan is refused if a pass that runs does not run before every other one that runs and that it
has to precede.  Other rules only point out what may be a mistake.

* `planRules`: the rules, in the order in which their findings are given.
* `Plan.findings`: the findings of these rules and of further ones.
* `Plan.check`: refuses a plan, or gives what was found about it. -/

namespace MarkupTidy

/-- What a rule finds about a plan. -/
abbrev PlanRule := Plan → List Finding

namespace Plan

/-- The finding, if there is one, about a pass that has to run before another one. -/
def orderFinding? (p : Plan) (entry : PlannedPass) (later : String) : Option Finding :=
  match p.position? entry.name, p.position? later, p.get? later with
  | some here, some there, some other =>
    if here < there then none
    else some (.outOfOrder entry.name entry.priority later other.priority)
  | _, _, _ => none

/-- Every pass that runs comes before those that it has to precede. -/
def orderFindings : PlanRule := fun p =>
  p.enabled.flatMap fun entry => entry.pass.mustPrecede.filterMap (p.orderFinding? entry)

/-- The settings name registered passes only. -/
def unknownFindings : PlanRule := fun p =>
  p.unknown.map .unknownPass

/-- Some pass runs. -/
def enabledFindings : PlanRule := fun p =>
  if !p.entries.isEmpty && p.enabled.isEmpty then [.noneEnabled] else []

/-- A pass does not run without those that have to run before it. -/
def producerFindings : PlanRule := fun p =>
  (p.entries.filter fun entry => !entry.enabled).flatMap fun entry =>
    (entry.pass.mustPrecede.filter fun later => (p.position? later).isSome).map
      (.producerDisabled entry.name)

/-- The passes that run, by priority. -/
def byPriority (p : Plan) : OrderedMap Int (List String) :=
  p.enabled.foldl (fun groups entry =>
    groups.insert entry.priority ((groups.get? entry.priority).getD [] ++ [entry.name])) []

/-- No two passes that run have one priority. -/
def priorityFindings : PlanRule := fun p =>
  p.byPriority.filterMap fun (priority, passes) =>
    if passes.length > 1 then some (.priorityShared passes priority) else none

end Plan

/-- The rules for plans. -/
def planRules : List PlanRule :=
  [Plan.orderFindings, Plan.unknownFindings, Plan.enabledFindings, Plan.producerFindings,
    Plan.priorityFindings]

/-- A refused plan: the errors that were found. -/
structure PlanRefusal where
  errors : List Finding
deriving DecidableEq, Repr

/-- The wording of a refusal. -/
def PlanRefusal.message (r : PlanRefusal) : String :=
  "Pass plan is invalid with " ++ toString r.errors.length ++ " error(s): " ++
    "; ".intercalate (r.errors.map Finding.text)

namespace Plan

/-- What the rules, and further ones, find about a plan. -/
def findings (p : Plan) (further : List PlanRule) : List Finding :=
  (planRules ++ further).flatMap fun rule => rule p

/-- The findings about a plan that is not refused. -/
def check (p : Plan) : Except PlanRefusal (List Finding) :=
  let findings := p.findings []
  match findings.filter (·.severity = .error) with
  | [] => .ok findings
  | errors => .error ⟨errors⟩

end Plan

end MarkupTidy
