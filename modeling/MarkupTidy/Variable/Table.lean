import MarkupTidy.Json.Value
import MarkupTidy.Number.DecimalText
import MarkupTidy.Variable.Font
import MarkupTidy.Variable.Name

/-! # Variable tables

Design variables by hierarchical name, each a literal or a typography descriptor.

* `VariableTable.ofEntries`: the table of a JSON object; texts, numbers and truth values count,
  everything else is passed over.
* `VariableTable.find?`: the first variable declared by a custom property.
* `VariableTable.properties`: the declarations of all literals. -/

namespace MarkupTidy

open MarkupTidy.Text MarkupTidy.Variable

/-- The value of a design variable. -/
inductive VariableValue where
  | literal (value : String)
  | font (descriptor : FontDescriptor)
deriving DecidableEq, Repr

/-- Design variables in the order in which they were first named. -/
structure VariableTable where
  entries : OrderedMap String VariableValue

namespace VariableTable

/-- The table without variables. -/
def empty : VariableTable := ⟨[]⟩

/-- The text of a JSON value that may be the value of a variable. -/
def scalarText? : Json.Value → Option (List Char)
  | .text value => some value.toList
  | .int value => some (toString value).toList
  | .float value => some value.shortest
  | .bool value => some (if value then "True".toList else "False".toList)
  | _ => none

/-- The value that a text gives a variable. -/
def readValue (cs : List Char) : Except FontDescriptor.BadSize VariableValue :=
  let source := trim cs
  if startsWith "Font(".toList source then
    match FontDescriptor.read source with
    | .error e => .error e
    | .ok (some descriptor) => .ok (.font descriptor)
    | .ok none => .ok (.literal (String.ofList source))
  else .ok (.literal (String.ofList source))

/-- Adds the variables of JSON entries to a table. -/
def addEntries (table : VariableTable) :
    List (String × Json.Value) → Except FontDescriptor.BadSize VariableTable
  | [] => .ok table
  | (name, value) :: rest =>
    match scalarText? value with
    | none => addEntries table rest
    | some source =>
      match readValue source with
      | .error e => .error e
      | .ok v => addEntries ⟨table.entries.insert name v⟩ rest

/-- The table of a JSON object. -/
def ofEntries (entries : List (String × Json.Value)) :
    Except FontDescriptor.BadSize VariableTable :=
  addEntries empty entries

/-- The number of variables. -/
def size (t : VariableTable) : Nat :=
  t.entries.length

/-- The value of a variable by its hierarchical name. -/
def get? (t : VariableTable) (name : String) : Option VariableValue :=
  t.entries.get? name

/-- The value of the first variable that a custom property declares. -/
def find? (t : VariableTable) (property : List Char) : Option VariableValue :=
  (t.entries.find? fun (name, _) => customProperty name.toList = property).map Prod.snd

/-- Digits, optionally with a point and more digits. -/
def isUnitless (cs : List Char) : Bool :=
  match cs.dropWhile isDecimalDigit with
  | [] => !cs.isEmpty
  | '.' :: fraction =>
    !(cs.takeWhile isDecimalDigit).isEmpty && !fraction.isEmpty && fraction.all isDecimalDigit
  | _ => false

/-- The declared value of a literal: a plain number is a length in pixels unless the property
names a colour. -/
def declaredValue (property value : List Char) : List Char :=
  if isUnitless value && !containsText "color".toList property then value ++ ['p', 'x'] else value

/-- The declarations of all literals; of two with one property the later value counts, in the
place of the earlier. -/
def properties (t : VariableTable) : OrderedMap String String :=
  t.entries.foldl (fun declared (name, value) =>
    match value with
    | .font _ => declared
    | .literal literal =>
      let property := customProperty name.toList
      declared.insert (String.ofList property)
        (String.ofList (declaredValue property literal.toList))) []

/-- The typography descriptors. -/
def fonts (t : VariableTable) : List FontDescriptor :=
  t.entries.filterMap fun (_, value) =>
    match value with
    | .font descriptor => some descriptor
    | .literal _ => none

end VariableTable

end MarkupTidy
