import MarkupTidy.Markup.Scan

/-! # Reading a component module

A module is read if it scans to the end and every element is closed under the name it was opened
with.  A scan fault anywhere comes before a disagreement of names; of several disagreements the
first element to end is reported.

* `Position.atRemaining`: line and column of a place in a source.
* `Document.read`: the document that a source writes. -/

namespace MarkupTidy

/-- A place in a source; lines and columns count from one, and only a line feed ends a line. -/
structure Position where
  line : Nat
  column : Nat
deriving DecidableEq, Repr

namespace Position

/-- The place just after a text. -/
def after (cs : List Char) : Position :=
  ⟨cs.count '\n' + 1, (cs.reverse.takeWhile (· ≠ '\n')).length + 1⟩

/-- The place from which so many characters remain. -/
def atRemaining (cs : List Char) (remaining : Nat) : Position :=
  after (cs.take (cs.length - remaining))

end Position

/-- The reasons for which a source is refused. -/
inductive ParseError where
  | malformed (error : ScanError) (position : Position)
  | mismatched (opening closing : String) (position : Position)
deriving DecidableEq, Repr

namespace ParseError

/-- The place that an error points at. -/
def position : ParseError → Position
  | malformed _ position => position
  | mismatched _ _ position => position

/-- The wording of an error; a scan error names its place. -/
def message : ParseError → String
  | malformed error position =>
    error.message ++ " at line " ++ toString position.line ++ ", column " ++
      toString position.column
  | mismatched opening closing _ =>
    "Mismatched closing tag </" ++ closing ++ "> for <" ++ opening ++ ">"

end ParseError

/-- The error for an element that ends under another name. -/
def ClosedTag.mismatch (cs : List Char) (t : ClosedTag) : ParseError :=
  .mismatched t.opening t.closing.name (Position.atRemaining cs t.closing.remaining)

/-- The document that a source writes. -/
def Document.read (source : String) : Except ParseError Document :=
  let cs := source.toList
  match Scan.read cs with
  | .error fault => .error (.malformed fault.error (Position.atRemaining cs fault.remaining))
  | .ok scan =>
    match scan.closed.find? fun t => !t.agrees with
    | some t => .error (t.mismatch cs)
    | none => .ok scan.document

end MarkupTidy
