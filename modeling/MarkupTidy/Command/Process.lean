import MarkupTidy.Chunk.Run
import MarkupTidy.Command.Basic
import MarkupTidy.Json.Printer
import MarkupTidy.Run.Bus

/-! # Tidying from the command line

The command `process` tidies a component, or a design in chunks, and tells what it has done.

* `ProcessRequest`, `readRequest`: what a command line asks for.
* `ProcessRequest.prepare`: variables and pipeline; nothing is tidied before both are there.
* `process`: the command. -/

namespace MarkupTidy.Command

open MarkupTidy.Text

/-- A wish of the command. -/
inductive ProcessWish where
  | plan (wish : PlanWish)
  | variableFile (path : String)
  | statistics (path : String)
  | ignoreChunks
  | verbose
  | help

/-- The file that a wish names. -/
def ProcessWish.file? : ProcessWish → Option (FileRole × String)
  | plan wish => wish.file?
  | variableFile path => some (.variables, path)
  | statistics path => some (.statistics, path)
  | ignoreChunks | verbose | help => none

/-- The options of the command. -/
def ProcessWish.specs : List (OptionSpec ProcessWish) :=
  PlanWish.specs .plan ++ [
    ⟨"--variables", .valued .variableFile⟩,
    ⟨"--stats-json", .valued .statistics⟩,
    ⟨"--no-chunks", .plain .ignoreChunks⟩,
    ⟨"-v", .plain .verbose⟩,
    ⟨"--verbose", .plain .verbose⟩,
    ⟨"--help", .plain .help⟩]

/-- What a command line asks for. -/
structure ProcessRequest where
  input : String
  output : String
  plan : PlanRequest
  variableFile? : Option String
  statistics? : Option String
  ignoreChunks : Bool

namespace ProcessRequest

/-- Adds a wish. -/
def add (r : ProcessRequest) : ProcessWish → ProcessRequest
  | .plan wish => { r with plan := r.plan.add wish }
  | .variableFile path => { r with variableFile? := some path }
  | .statistics path => { r with statistics? := some path }
  | .ignoreChunks => { r with ignoreChunks := true }
  | .verbose | .help => r

/-- The request for two files with further wishes. -/
def ofWishes (input output : String) (wishes : List ProcessWish) : ProcessRequest :=
  wishes.foldl add ⟨input, output, PlanRequest.ofWishes [], none, none, false⟩

/-- The file with the variables: the one that is named, or the one beside the input. -/
def variablesPath (r : ProcessRequest) : Path :=
  match r.variableFile? with
  | some path => if path = "" then beside else Path.ofString path
  | none => beside
where
  /-- The usual file. -/
  beside : Path := (Path.ofString r.input).parent.child "variables.json"

end ProcessRequest

/-- What keeps a request from being met before anything is tidied. -/
inductive SetupFault where
  | settings (fault : SettingsFault)
  | variableFile (fault : VariableFault)
  | plan (refusal : PlanRefusal)

/-- The outcome of a request that is not met. -/
def SetupFault.outcome (tree : FileTree) : SetupFault → Outcome
  | settings fault => .refused tree 1 ("Config error: " ++ fault.message)
  | variableFile (.access error) => .failed tree (.access error)
  | variableFile (.badFontSize fault) => .failed tree (.variableFile (.badFontSize fault))
  | variableFile fault => .refused tree 1 ("Config error: " ++ fault.message)
  | plan refusal => .refused tree 1 ("Invalid pass plan: " ++ refusal.message)

/-- The variables and the pipeline for a request. -/
def ProcessRequest.prepare (r : ProcessRequest) (tree : FileTree) :
    Except SetupFault (VariableTable × Pipeline) := do
  let settings ← (r.plan.settings tree).mapError .settings
  let design ← (VariableTable.load tree r.variablesPath).mapError .variableFile
  let pipeline ← (Pipeline.ofRegistry .builtin settings).mapError .plan
  return (design, pipeline)

/-- Adds a line for a pass that has failed without ending the run. -/
def hearFailure : Event → List String → List String × Option Empty
  | .passFailed pass error true, told =>
    (told ++ ["Warning: pass " ++ pass ++ " failed, continuing: " ++ error], none)
  | _, told => (told, none)

/-- Adds a line for what the sweep has found. -/
def hearSweep : Event → List String → List String × Option Empty
  | .swept found fixed, told =>
    (told ++ ["Safety net: fixed " ++ toString fixed ++ " of " ++ toString found
      ++ " residual placeholder(s)"], none)
  | _, told => (told, none)

/-- The listeners that tell of a run while it goes on. -/
def progress : Bus (List String) Empty :=
  (Bus.empty.subscribe .passFailed hearFailure).subscribe .swept hearSweep

/-- What a run was told to have done so far. -/
def progressLines (events : List Event) : List String :=
  (progress.emitAll events []).1

/-- What is told of a component or a design that has been tidied. -/
structure Summary where
  done : String
  changes : Int
  classes : Nat
  report : Json.Value

/-- The summary of a component. -/
def Summary.ofComponent (output : Path) (r : TidyComponent) : Summary where
  done := "Wrote " ++ output.toString ++ " and " ++ (stylesheetPath? output).elim "" Path.name
  changes := r.context.stats.changes
  classes := r.context.classes.entries.length
  report := r.report

/-- The summary of a design in chunks. -/
def Summary.ofChunks (output : Path) (r : ChunkRun) : Summary where
  done := "Processed " ++ toString r.chunks.length ++ " chunk(s) into " ++ output.toString
  changes := r.changes
  classes := r.classes
  report := r.report

namespace FileOutcome

/-- The outcome of working on files with its result seen in another way. -/
def map {α β : Type} (f : α → β) (o : FileOutcome α) : FileOutcome β :=
  ⟨o.tree, o.events, o.notices, o.result.map f⟩

end FileOutcome

/-- Tidies what is asked for: the chunks beside the input if there are any, the input itself
otherwise. -/
def ProcessRequest.tidy (r : ProcessRequest) (tree : FileTree) (design : VariableTable)
    (p : Pipeline) : FileOutcome Summary :=
  let input := Path.ofString r.input
  let output := Path.ofString r.output
  match if r.ignoreChunks then .ok [] else Chunk.find tree input with
  | .error e => .withoutAccess tree e
  | .ok [] => FileOutcome.map (.ofComponent output) (p.tidyFile tree design input output)
  | .ok (_ :: _) => FileOutcome.map (.ofChunks output) (p.tidyChunks tree design input output)

/-- The text of a statistics file. -/
def Summary.statistics (s : Summary) : String :=
  String.ofList (s.report.print 0) ++ "\n"

/-- Writes the statistics file that is asked for. -/
def ProcessRequest.writeStatistics (r : ProcessRequest) (tree : FileTree) (s : Summary) :
    FileTree × Option AccessError :=
  match r.statistics? with
  | none => (tree, none)
  | some path =>
    if path = "" then (tree, none) else tree.writeAll [(Path.ofString path, s.statistics)]

/-- The lines that sum up what has been tidied. -/
def Summary.lines (s : Summary) : List String :=
  [s.done, "Changes: " ++ toString s.changes ++ "  Custom classes: " ++ toString s.classes]

/-- Meets a request with what has been prepared for it. -/
def ProcessRequest.run (r : ProcessRequest) (tree : FileTree) (design : VariableTable)
    (p : Pipeline) : Outcome :=
  let o := r.tidy tree design p
  let told := progressLines o.events
  let notices := p.warnings ++ o.notices
  match o.result with
  | .error (.access e) => ⟨1, "", errorLines told, o.tree, notices, some (.access e)⟩
  | .error (.run (.familyNotEncodable _)) =>
    ⟨1, "", errorLines told, o.tree, notices, some .notEncodable⟩
  | .error (.run (.malformed e)) =>
    ⟨1, "", errorLines (told ++ ["Parse error: " ++ e.message]), o.tree, notices, none⟩
  | .error (.run fault) =>
    ⟨1, "", errorLines (told ++ ["Pipeline aborted: " ++ fault.message]), o.tree, notices, none⟩
  | .ok summary =>
    if isWellFormed summary.done.toList then
      let (tree, error?) := r.writeStatistics o.tree summary
      ⟨if error?.isSome then 1 else 0, lines summary.lines, errorLines told, tree, notices,
        error?.map .access⟩
    else ⟨1, "", errorLines told, o.tree, notices, some .notEncodable⟩

/-- The request that wishes and operands come to, if all files that it names may be used. -/
def readRequest (tree : FileTree) (wishes : List ProcessWish) (operands : List String) :
    Except ArgumentFault ProcessRequest := do
  checkFiles tree (wishes.filterMap ProcessWish.file?)
  let (input, operands) ← takePath tree "INPUT_FILE" true operands
  let (output, operands) ← takePath tree "OUTPUT_FILE" false operands
  takeNone operands
  return .ofWishes input output wishes

/-- The command `process`. -/
def process (tree : FileTree) (arguments : List String) : Outcome :=
  match readArguments ProcessWish.specs true arguments with
  | .error fault => .misused tree fault
  | .ok ⟨wishes, operands⟩ =>
    if wishes.any fun | .help => true | _ => false then
      .printed tree 0 ["Usage: figfix process [OPTIONS] INPUT_FILE OUTPUT_FILE"]
    else
      match readRequest tree wishes operands with
      | .error fault => fault.outcome tree
      | .ok request =>
        match request.prepare tree with
        | .error fault => fault.outcome tree
        | .ok (design, pipeline) => request.run tree design pipeline

end MarkupTidy.Command
