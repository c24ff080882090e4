import MarkupTidy.Sheet.Basic
import MarkupTidy.Text.Blank

/-! # Reading stylesheets

The reader takes what it knows, comments, import directives and rules, and passes over everything
between.

* `Sheet.read`: the stylesheet that a text describes. -/

namespace MarkupTidy

open MarkupTidy.Text

namespace Sheet

/-- A comment at the front of a text. -/
def readComment? : List Char → Option (Unit × List Char)
  | '/' :: '*' :: rest => (afterFirst? ['*', '/'] rest).map fun after => ((), after)
  | _ => none

/-- What follows an import directive at the front of a text. -/
def afterImport? (cs : List Char) : Option (List Char) :=
  match (((afterText? "@import".toList cs).bind afterBlanks?).bind
      (afterText? "url(".toList)).bind (cutAt? ')') with
  | some (_, after) => afterText? [';'] (after.dropWhile isBlank)
  | none => none

/-- An import directive at the front of a text. -/
def readImport? (cs : List Char) : Option (String × List Char) :=
  (afterImport? cs).map fun after =>
    (String.ofList (cs.take (cs.length - after.length)), after)

/-- A letter that a property may begin with, after its hyphens. -/
def isPropertyStart (c : Char) : Bool :=
  c.isAlpha || c = '_'

/-- A character that a property may go on with. -/
def isPropertyChar (c : Char) : Bool :=
  c.isAlphanum || c = '_' || c = '-'

/-- At most two hyphens at the front of a text. -/
def leadingHyphens : List Char → List Char
  | '-' :: '-' :: _ => ['-', '-']
  | '-' :: _ => ['-']
  | _ => []

/-- The name of a property at the front of a text. -/
def readProperty? (cs : List Char) : Option (List Char × List Char) :=
  let hyphens := leadingHyphens cs
  match cs.drop hyphens.length with
  | [] => none
  | c :: rest =>
    if isPropertyStart c then
      some (hyphens ++ c :: rest.takeWhile isPropertyChar, rest.dropWhile isPropertyChar)
    else none

/-- A declaration at the front of a text, which a semicolon has to end. -/
def readDeclaration? (cs : List Char) : Option ((String × String) × List Char) :=
  match readProperty? cs with
  | none => none
  | some (property, after) =>
    match (afterText? [':'] (after.dropWhile isBlank)).bind (cutAt? ';') with
    | none => none
    | some (value, rest) =>
      if value.isEmpty then none
      else some ((String.ofList property, String.ofList (trim value)), rest)

/-- The declarations in the body of a rule; of two for one property the later counts. -/
def readDeclarations (body : List Char) : Declarations :=
  OrderedMap.ofEntries (findAll readDeclaration? body)

/-- A rule at the front of a text. -/
def readRule? (cs : List Char) : Option (Rule × List Char) :=
  let inSelector (c : Char) : Bool := c ≠ '\x7b' && c ≠ '\x7d'
  match (afterText? ['\x7b'] (cs.dropWhile inSelector)).bind (cutAt? '\x7d') with
  | some (body, rest) =>
    let selector := cs.takeWhile inSelector
    if selector.isEmpty then none
    else some (⟨String.ofList (trim selector), readDeclarations body⟩, rest)
  | none => none

/-- Whether a selector is the one of a class of the design tool. -/
def isToolSelector (selector : String) : Bool :=
  toolUtilities.any (·.selector = selector)

/-- Declarations with more of them, which count where both have a value. -/
def mergeDeclarations (declared more : Declarations) : Declarations :=
  more.foldl (fun declared (p, v) => declared.insert p v) declared

/-- Adds a rule to the section it belongs to; one without declarations belongs nowhere. -/
def addRule (sheet : Sheet) (rule : Rule) : Sheet :=
  if rule.declarations.isEmpty then sheet
  else if rule.selector = ":root" then
    { sheet with properties := mergeDeclarations sheet.properties rule.declarations }
  else if isToolSelector rule.selector then { sheet with utilities := sheet.utilities ++ [rule] }
  else { sheet with rules := sheet.rules ++ [rule] }

/-- The stylesheet that a text describes. -/
def read (source : List Char) : Sheet :=
  let source := removeAll readComment? source
  let rules := findAll readRule? (removeAll readImport? source)
  rules.foldl addRule { empty with imports := findAll readImport? source }

end Sheet

end MarkupTidy
