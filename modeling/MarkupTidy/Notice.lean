/-! # Notices

What a run reports beside its results: things that went wrong and were coped with, or that ended
the run.  A notice is kept as its cause; `Notice.text` gives the wording. -/

namespace MarkupTidy

/-- How serious a notice is. -/
inductive NoticeLevel where
  | warning
  | error
deriving DecidableEq, Repr

/-- The name of a level. -/
def NoticeLevel.name : NoticeLevel → String
  | warning => "WARNING"
  | error => "ERROR"

/-- A notice, as its cause. -/
inductive Notice where
  /-- A class name is bound to one value and was asked for with another. -/
  | classConflict (name kept ignored : String)
  /-- Placeholders outside the tree were resolved. -/
  | placeholdersSwept (fixed found : Nat)
  /-- A vector asset could not be read. -/
  | assetUnreadable (path : String)
  /-- A finding about the plan of passes. -/
  | planFinding (finding : String)
  /-- A component could not be parsed. -/
  | sourceMalformed (source error : String)
  /-- A pass failed and ended the run. -/
  | passAborted (pass source error : String)
  /-- A pass failed and the run went on. -/
  | passSkipped (pass source : String)
  /-- The wrapper of a chunked component could not be parsed. -/
  | wrapperMalformed (path error : String)
  /-- The wrapper of a chunked component holds no `div`. -/
  | wrapperMissing (path : String)
deriving DecidableEq, Repr

namespace Notice

/-- How serious a notice is: what ends or mars a run is an error. -/
def level : Notice → NoticeLevel
  | sourceMalformed .. | passAborted .. | passSkipped .. => .error
  | _ => .warning

/-- The wording of a notice. -/
def text : Notice → String
  | classConflict name kept ignored =>
    "Synthesized class " ++ name ++ " already bound to " ++ kept ++ "; ignoring " ++ ignored
  | placeholdersSwept fixed found =>
    "Safety net resolved " ++ toString fixed ++ " of " ++ toString found ++
      " residual placeholder(s)"
  | assetUnreadable path => "Cannot read SVG asset " ++ path
  | planFinding finding => finding
  | sourceMalformed source error => "Cannot parse " ++ source ++ ": " ++ error
  | passAborted pass source error => "Pass " ++ pass ++ " failed on " ++ source ++ ": " ++ error
  | passSkipped pass source => "Pass " ++ pass ++ " failed on " ++ source ++ "; continuing"
  | wrapperMalformed path error =>
    "Cannot parse " ++ path ++ ", using a plain div: " ++ error
  | wrapperMissing path => "No wrapper div in " ++ path ++ ", using a plain div"

end Notice

end MarkupTidy
