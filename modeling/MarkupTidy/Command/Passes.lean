import MarkupTidy.Command.Basic
import MarkupTidy.Plan.Rules

/-! # Showing the plan

The command `passes` lists the passes in the order in which they run, and what was found about
their plan.  It fails if the plan would be refused. -/

namespace MarkupTidy.Command

/-- A text with spaces before it up to a width. -/
def padLeft (width : Nat) (text : String) : String :=
  String.ofList (List.replicate (width - text.length) ' ') ++ text

/-- A text with spaces after it up to a width. -/
def padRight (width : Nat) (text : String) : String :=
  text ++ String.ofList (List.replicate (width - text.length) ' ')

/-- The line for a planned pass. -/
def planLine (p : PlannedPass) : String :=
  let precedes := match p.pass.mustPrecede with
    | [] => []
    | later => ["before: " ++ ", ".intercalate later]
  "  ".intercalate (
    ["  " ++ padLeft 4 (toString p.priority) ++ "  " ++ padRight 20 p.name,
      if p.enabled then "enabled " else "disabled"] ++ precedes)

/-- The lines for findings, the gravest first. -/
def findingLines (findings : List Finding) : List String :=
  if findings.isEmpty then []
  else "" :: (bySeverity findings).flatMap fun f =>
    f.text :: (f.remedy?.map ("    fix: " ++ ·)).toList

/-- The lines that show a plan. -/
def showPlan (settings : Settings) (plan : Plan) : List String :=
  ("On pass failure: " ++ if settings.continueOnError then "continue" else "abort")
    :: "" :: plan.entries.map planLine ++ findingLines (plan.findings [])

/-- A wish of the command. -/
inductive PassesWish where
  | plan (wish : PlanWish)
  | help

/-- The options of the command. -/
def PassesWish.specs : List (OptionSpec PassesWish) :=
  PlanWish.specs .plan ++ [⟨"--help", .plain .help⟩]

/-- Shows the plan that is asked for. -/
def showRequested (tree : FileTree) (r : PlanRequest) : Outcome :=
  match r.settings tree with
  | .error fault => .refused tree 1 ("Config error: " ++ fault.message)
  | .ok settings =>
    let plan := Registry.builtin.plan settings
    let status := if (plan.findings []).any (·.severity = .error) then 1 else 0
    .printed tree status (showPlan settings plan)

/-- The command `passes`. -/
def passes (tree : FileTree) (arguments : List String) : Outcome :=
  match readArguments PassesWish.specs true arguments with
  | .error fault => .misused tree fault
  | .ok ⟨wishes, operands⟩ =>
    if wishes.any fun | .help => true | .plan _ => false then
      .printed tree 0 ["Usage: figfix passes [OPTIONS]"]
    else
      let wishes := wishes.filterMap fun | .plan wish => some wish | .help => none
      match checkFiles tree (wishes.filterMap PlanWish.file?) *> takeNone operands with
      | .error fault => fault.outcome tree
      | .ok () => showRequested tree (PlanRequest.ofWishes wishes)

end MarkupTidy.Command
