import MarkupTidy.File.Tree
import MarkupTidy.Json.Reader
import MarkupTidy.Number.Reader
import MarkupTidy.Plan.Settings
import MarkupTidy.Text.Blank
import MarkupTidy.Text.Quoted

/-! # Settings files

A settings file is a JSON object.  Under `transforms` it holds the settings of passes, each of them
a truth value or an object with `enabled` and `priority`; under `continueOnError`, there or beside
it, whether a run goes on after a pass has failed.

* `Settings.ofEntries`: the settings of a JSON object.
* `Settings.load`: the settings of a file.
* `readPriority`: a wish of the form `PASS=N`. -/

namespace MarkupTidy

open MarkupTidy.Text

/-- What is wrong with settings. -/
inductive SettingsFault where
  | unreadable (path : String)
  | fileNotObject (path : String)
  | passesNotObject
  | continueNotBoolean
  | passNotObject (pass : String) (kind : String)
  | enabledNotBoolean (pass : String)
  | priorityNotInteger (pass : String)
  /-- A priority without a name before an equals sign. -/
  | wishWithoutName (wish : String)
  | wishNotInteger (wish : String)
deriving DecidableEq, Repr

/-- The wording of a fault. -/
def SettingsFault.message : SettingsFault → String
  | unreadable path => "Cannot read settings file " ++ path
  | fileNotObject path => "Settings file " ++ path ++ " must contain a JSON object"
  | passesNotObject => "'transforms' must be an object"
  | continueNotBoolean => "'continueOnError' must be a boolean"
  | passNotObject pass kind =>
    "Settings for pass " ++ quotedText pass ++ " must be an object, got " ++ kind
  | enabledNotBoolean pass => "'enabled' for pass " ++ quotedText pass ++ " must be a boolean"
  | priorityNotInteger pass => "'priority' for pass " ++ quotedText pass ++ " must be an integer"
  | wishWithoutName wish => "Priority override " ++ quotedText wish ++ " must look like PASS=N"
  | wishNotInteger wish => "Priority override " ++ quotedText wish ++ " has a non-integer priority"

/-- The kind of a JSON value as messages name it. -/
def kindName : Json.Value → String
  | .null => "NoneType"
  | .bool _ => "bool"
  | .int _ => "int"
  | .float _ => "float"
  | .text _ => "str"
  | .array _ => "list"
  | .object _ => "dict"

/-- Whether a pass is on, by its entries. -/
def readEnabled (pass : String) (entries : List (String × Json.Value)) :
    Except SettingsFault Bool :=
  match OrderedMap.get? entries "enabled" with
  | none => .ok true
  | some (.bool enabled) => .ok enabled
  | some _ => .error (.enabledNotBoolean pass)

/-- The priority of a pass, by its entries. -/
def readPassPriority (pass : String) (entries : List (String × Json.Value)) :
    Except SettingsFault (Option Int) :=
  match OrderedMap.get? entries "priority" with
  | none | some .null => .ok none
  | some (.int priority) => .ok (some priority)
  | some _ => .error (.priorityNotInteger pass)

/-- The settings that a JSON value gives a pass. -/
def PassSettings.ofValue (pass : String) : Json.Value → Except SettingsFault PassSettings
  | .bool enabled => .ok ⟨enabled, none⟩
  | .object entries => do
    let enabled ← readEnabled pass entries
    let priority? ← readPassPriority pass entries
    return ⟨enabled, priority?⟩
  | value => .error (.passNotObject pass (kindName value))

namespace Settings

/-- The settings of passes, by their entries. -/
def readPasses : List (String × Json.Value) →
    Except SettingsFault (OrderedMap String PassSettings)
  | [] => .ok []
  | (pass, value) :: rest => do
    let settings ← PassSettings.ofValue pass value
    return (pass, settings) :: (← readPasses rest)

/-- The entries under `transforms`. -/
def passEntries (entries : List (String × Json.Value)) :
    Except SettingsFault (List (String × Json.Value)) :=
  match OrderedMap.get? entries "transforms" with
  | none => .ok []
  | some (.object passes) => .ok passes
  | some _ => .error .passesNotObject

/-- Whether a run goes on after a pass has failed; what stands beside the passes counts before what
stands among them. -/
def readContinue (entries passes : List (String × Json.Value)) : Except SettingsFault Bool :=
  match (OrderedMap.get? entries "continueOnError").or (OrderedMap.get? passes "continueOnError")
    with
  | none => .ok false
  | some (.bool continues) => .ok continues
  | some _ => .error .continueNotBoolean

/-- The settings of a JSON object. -/
def ofEntries (entries : List (String × Json.Value)) : Except SettingsFault Settings := do
  let passes ← passEntries entries
  let continues ← readContinue entries passes
  let passes ← readPasses (passes.filter fun (name, _) => name ≠ "continueOnError")
  return ⟨passes, continues⟩

/-- The settings of a file. -/
def load (tree : FileTree) (path : Path) : Except SettingsFault Settings :=
  match tree.readText path with
  | .error _ => .error (.unreadable path.toString)
  | .ok source =>
    match Json.Value.read? source.toList with
    | none => .error (.unreadable path.toString)
    | some (.object entries) => ofEntries entries
    | some _ => .error (.fileNotObject path.toString)

end Settings

/-- A wish for a priority, of the form `PASS=N`. -/
def readPriority (wish : String) : Except SettingsFault (String × Int) :=
  match cutAt? '=' wish.toList with
  | none => .error (.wishWithoutName wish)
  | some (name, value) =>
    if (trim name).isEmpty then .error (.wishWithoutName wish)
    else
      match Number.readInt? (trim value) with
      | some priority => .ok (String.ofList (trim name), priority)
      | none => .error (.wishNotInteger wish)

end MarkupTidy
