import MarkupTidy.Command.Option
import MarkupTidy.File.Tree
import MarkupTidy.Plan.Basic
import MarkupTidy.Plan.SettingsFile
import MarkupTidy.Text.ControlSequence
import MarkupTidy.Text.Surrogate
import MarkupTidy.Variable.File

/-! # Commands

What a command leaves behind: its exit status, what it has printed, and the files as they are then.
Both commands take the same options for the settings of a run.

* `checkFiles`, `takePath`, `takeNone`: the checks of what a command was given.  The files that
  options name come first, then the operands.
* `PlanWish.specs`, `PlanRequest.ofWishes`: these options, and what they come to.
* `PlanRequest.settings`: the settings of a file with the wishes of a command line on top. -/

namespace MarkupTidy.Command

open MarkupTidy.Text

/-- What has ended a command without a message of its own. -/
inductive Failure where
  | access (error : AccessError)
  | variableFile (fault : VariableFault)
  /-- What was to be printed or imported has no encoding. -/
  | notEncodable
deriving DecidableEq, Repr

/-- The wording of a failure. -/
def Failure.message : Failure → String
  | access error => error.message
  | variableFile fault => fault.message
  | notEncodable => "The text holds half of a surrogate pair"

/-- Lines of output, each with its end.  Control sequences are left out, since no terminal is known
to show them. -/
def lines (ls : List String) : String :=
  String.join (ls.map fun l => String.ofList (withoutControls l.toList) ++ "\n")

/-- Lines of error output.  What has no encoding stands there as an escape. -/
def errorLines (ls : List String) : String :=
  String.ofList (escapeHalves (lines ls).toList)

/-- What a command leaves behind. -/
structure Outcome where
  status : Nat
  output : String
  errors : String
  tree : FileTree
  notices : List Notice
  failure? : Option Failure

namespace Outcome

/-- The outcome of a command that prints lines and leaves all files alone.  A line that has no
encoding ends it. -/
def printed (tree : FileTree) (status : Nat) (output : List String) : Outcome :=
  let shown := output.takeWhile fun line => isWellFormed line.toList
  if shown.length = output.length then ⟨status, lines shown, "", tree, [], none⟩
  else ⟨1, lines shown, "", tree, [], some .notEncodable⟩

/-- The outcome of a command that only reports an error. -/
def refused (tree : FileTree) (status : Nat) (error : String) : Outcome :=
  ⟨status, "", errorLines [error], tree, [], none⟩

/-- The outcome of a command line that is refused. -/
def misused (tree : FileTree) (fault : UsageFault) : Outcome :=
  refused tree 2 ("Error: " ++ fault.message)

/-- The outcome of a command that a failure has ended. -/
def failed (tree : FileTree) (failure : Failure) : Outcome :=
  ⟨1, "", "", tree, [], some failure⟩

end Outcome

/-- Why what a command was given is refused. -/
inductive ArgumentFault where
  | usage (fault : UsageFault)
  | name (fault : NameFault)

/-- The outcome of a command that refuses what it was given. -/
def ArgumentFault.outcome (tree : FileTree) : ArgumentFault → Outcome
  | usage fault => .misused tree fault
  | name fault => .failed tree (.access (.name fault))

/-- Whether a path as written ends in a slash or a point, and so can only mean a folder. -/
def endsAsFolder (path : String) : Bool :=
  match path.toList.reverse with
  | '/' :: _ => true
  | '.' :: '/' :: _ => true
  | ['.'] => true
  | _ => false

/-- What a path as written leads to, if it leads anywhere. -/
def kindOf? (tree : FileTree) (path : String) : Option PlaceKind :=
  if path = "" || Path.isLongText path then none
  else
    match tree.kind? (Path.ofString path) with
    | .ok (some .file) => if endsAsFolder path then none else some .file
    | .ok kind? => kind?
    | .error _ => none

/-- Checks a path from a command line: it must not lead to a folder, and may have to lead to a
file. -/
def checkPath (tree : FileTree) (required : Bool) (path : String) : Except ArgumentFault Unit :=
  match nameFault? path with
  | some fault => .error (.name fault)
  | none =>
    match kindOf? tree path with
    | some .folder => .error (.usage (.notFile path))
    | some .file => .ok ()
    | none => if required then .error (.usage (.notFile path)) else .ok ()

/-- The next operand, a path of the given name that is checked, and the operands after it. -/
def takePath (tree : FileTree) (name : String) (required : Bool) :
    List String → Except ArgumentFault (String × List String)
  | [] => .error (.usage (.operandMissing name))
  | path :: rest => (checkPath tree required path).map fun () => (path, rest)

/-- Checks that no operand is left. -/
def takeNone : List String → Except ArgumentFault Unit
  | [] => .ok ()
  | operand :: _ => .error (.usage (.operandUnexpected operand))

/-- What an option names a file for. -/
inductive FileRole where
  | settings
  | variables
  | statistics
deriving DecidableEq, Repr

/-- Checks the files that options name, in the order in which their options first stand on the
command line.  Of an option that stands there more than once the last path counts. -/
def checkFiles (tree : FileTree) (files : List (FileRole × String)) : Except ArgumentFault Unit :=
  (OrderedMap.ofEntries files).forM fun (role, path) => checkPath tree (role = .settings) path

/-- A wish about the settings of a run. -/
inductive PlanWish where
  | settingsFile (path : String)
  | disable (pass : String)
  | priority (wish : String)
  | continueOnError (continues : Bool)

/-- The options about the settings of a run, as options of a command. -/
def PlanWish.specs {α : Type} (wish : PlanWish → α) : List (OptionSpec α) := [
  ⟨"--config", .valued fun path => wish (.settingsFile path)⟩,
  ⟨"--disable", .valued fun pass => wish (.disable pass)⟩,
  ⟨"--priority", .valued fun text => wish (.priority text)⟩,
  ⟨"--continue-on-error", .plain (wish (.continueOnError true))⟩,
  ⟨"--abort-on-error", .plain (wish (.continueOnError false))⟩]

/-- The file that a wish names. -/
def PlanWish.file? : PlanWish → Option (FileRole × String)
  | settingsFile path => some (.settings, path)
  | disable _ | priority _ | continueOnError _ => none

/-- What a command line asks for about the settings of a run. -/
structure PlanRequest where
  settingsFile? : Option String
  disable : List String
  priorities : List String
  continue? : Option Bool

namespace PlanRequest

/-- Adds a wish. -/
def add (r : PlanRequest) : PlanWish → PlanRequest
  | .settingsFile path => { r with settingsFile? := some path }
  | .disable pass => { r with disable := r.disable ++ [pass] }
  | .priority wish => { r with priorities := r.priorities ++ [wish] }
  | .continueOnError continues => { r with continue? := some continues }

/-- What wishes come to; of two that exclude each other the later counts. -/
def ofWishes (wishes : List PlanWish) : PlanRequest :=
  wishes.foldl add ⟨none, [], [], none⟩

/-- The settings of a file, if one was named. -/
def baseSettings (r : PlanRequest) (tree : FileTree) : Except SettingsFault Settings :=
  match r.settingsFile? with
  | none => .ok .usual
  | some path => Settings.load tree (Path.ofString path)

/-- The settings that are asked for. -/
def settings (r : PlanRequest) (tree : FileTree) : Except SettingsFault Settings := do
  let base ← r.baseSettings tree
  let priorities ← r.priorities.mapM readPriority
  return base.override ⟨r.disable, OrderedMap.ofEntries priorities, r.continue?⟩

end PlanRequest

end MarkupTidy.Command
