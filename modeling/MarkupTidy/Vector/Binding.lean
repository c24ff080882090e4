import MarkupTidy.Markup.Identifier
import MarkupTidy.Markup.Node
import MarkupTidy.Text.Search

/-! # Asset bindings

The names under which a module refers to its assets: default imports and constants with a quoted
value, in code segments. -/

namespace MarkupTidy

open MarkupTidy.Text MarkupTidy.Markup

namespace AssetBinding

/-- Blanks, at least one. -/
def afterBlanks? (cs : List Char) : Option (List Char) :=
  match cs with
  | c :: rest => if isBlank c then some (trimLeft rest) else none
  | [] => none

/-- An identifier and what follows it. -/
def readIdentifier? : List Char → Option (List Char × List Char)
  | [] => none
  | c :: rest =>
    if isNameStart c then
      some (c :: rest.takeWhile isIdentifierChar, rest.dropWhile isIdentifierChar)
    else none

/-- A quote of either kind. -/
def isQuote (c : Char) : Bool :=
  c == '"' || c == '\''

/-- A nonempty quoted text without quotes in it, and what follows it. -/
def readQuoted? : List Char → Option (List Char × List Char)
  | [] => none
  | q :: rest =>
    if isQuote q then
      let value := rest.takeWhile fun c => !isQuote c
      match rest.dropWhile fun c => !isQuote c with
      | _ :: after => if value.isEmpty then none else some (value, after)
      | [] => none
    else none

/-- A default import: the name and the path, and what follows. -/
def readImport? (cs : List Char) : Option ((String × String) × List Char) := do
  let rest ← (afterText? "import".toList cs).bind afterBlanks?
  let (name, rest) ← readIdentifier? rest
  let rest ← afterBlanks? rest
  let rest ← (afterText? "from".toList rest).bind afterBlanks?
  let (path, rest) ← readQuoted? rest
  some ((String.ofList name, String.ofList path), rest)

/-- A constant: the name and the value, and what follows. -/
def readConstant? (cs : List Char) : Option ((String × String) × List Char) := do
  let rest ← (afterText? "const".toList cs).bind afterBlanks?
  let (name, rest) ← readIdentifier? rest
  match trimLeft rest with
  | '=' :: rest =>
    let (path, rest) ← readQuoted? (trimLeft rest)
    some ((String.ofList name, String.ofList path), rest)
  | _ => none

/-- The bindings in a code segment: imports, then constants. -/
def inCode (source : String) : List (String × String) :=
  findAll readImport? source.toList ++ findAll readConstant? source.toList

end AssetBinding

/-- The assets that a module refers to by name; a name keeps its first binding. -/
def Document.assetBindings (d : Document) : OrderedMap String String :=
  (d.code.flatMap AssetBinding.inCode).foldl
    (fun bindings (name, path) => bindings.insertNew name path) []

end MarkupTidy
