import MarkupTidy.File.Tree
import MarkupTidy.Json.Reader
import MarkupTidy.Variable.Table

/-! # Variable files

A variable file is a JSON object with the values of design variables by name.  Without the file
there are no variables; whether a path that is too long leads to one cannot be told, so it fails. -/

namespace MarkupTidy

/-- What is wrong with a variable file. -/
inductive VariableFault where
  | access (error : AccessError)
  | unreadable (path : String)
  | fileNotObject (path : String)
  | badFontSize (fault : FontDescriptor.BadSize)
deriving DecidableEq, Repr

/-- The wording of a fault. -/
def VariableFault.message : VariableFault → String
  | access error => error.message
  | unreadable path => "Cannot read variables file " ++ path
  | fileNotObject path => "Variables file " ++ path ++ " must contain a JSON object"
  | badFontSize fault => "The font size " ++ fault.size ++ " is not a number"

/-- The variables of a file. -/
def VariableTable.load (tree : FileTree) (path : Path) : Except VariableFault VariableTable :=
  match tree.kind? path with
  | .error e => .error (.access e)
  | .ok none => .ok .empty
  | .ok (some _) =>
    match tree.readText path with
    | .error _ => .error (.unreadable path.toString)
    | .ok source =>
      match Json.Value.read? source.toList with
      | none => .error (.unreadable path.toString)
      | some (.object entries) => (VariableTable.ofEntries entries).mapError .badFontSize
      | some _ => .error (.fileNotObject path.toString)

end MarkupTidy
