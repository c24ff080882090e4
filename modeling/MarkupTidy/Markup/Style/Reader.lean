import MarkupTidy.Markup.Identifier
import MarkupTidy.Markup.Style
import MarkupTidy.Number.Reader

/-! # Reading inline styles

A style is read from an object literal whose entries are `key: value` with a name or a quoted
text as key.  Everything else (a spread, a computed key, an identifier in place of the literal)
is no style.

* `splitTopLevel?`: a text cut at a separator outside quotes and brackets; there is no answer if
  a quote or a bracket is left open.
* `StyleValue.read`: a quoted text, a number, or source code.
* `Style.read?`: the style that an object literal writes. -/

namespace MarkupTidy

open MarkupTidy.Text

namespace Style

/-- Where a scan for separators stands: the quote it is inside of, whether the character before
was an escape, the number of open brackets (negative after too many closing ones), and the part
being read, last character first. -/
structure SplitState where
  quote : Option Char
  escaped : Bool
  depth : Int
  current : List Char

/-- A character that opens and closes quoted text. -/
def isQuote (c : Char) : Bool :=
  c == '"' || c == '\'' || c == '\x60'

/-- An opening bracket. -/
def isOpening (c : Char) : Bool :=
  c == '(' || c == '[' || c == '\x7b'

/-- A closing bracket. -/
def isClosing (c : Char) : Bool :=
  c == ')' || c == ']' || c == '\x7d'

/-- The state after a character that does not end the part being read. -/
def SplitState.advance (s : SplitState) (c : Char) : SplitState :=
  match s.quote with
  | some q =>
    if s.escaped then { s with escaped := false, current := c :: s.current }
    else if c = '\\' then { s with escaped := true, current := c :: s.current }
    else if c = q then { s with quote := none, current := c :: s.current }
    else { s with current := c :: s.current }
  | none =>
    if isQuote c then { s with quote := some c, current := c :: s.current }
    else if isOpening c then { s with depth := s.depth + 1, current := c :: s.current }
    else if isClosing c then { s with depth := s.depth - 1, current := c :: s.current }
    else { s with current := c :: s.current }

/-- Goes on with a cut; the parts come in order. -/
def splitFrom (separator : Char) (s : SplitState) : List Char → Option (List (List Char))
  | [] => if s.quote.isSome || s.depth ≠ 0 then none else some [s.current.reverse]
  | c :: rest =>
    if s.quote.isNone && c == separator && s.depth == 0 then
      (splitFrom separator ⟨none, false, 0, []⟩ rest).map (s.current.reverse :: ·)
    else splitFrom separator (s.advance c) rest

/-- A text cut at a separator wherever it stands outside quotes and brackets. -/
def splitTopLevel? (separator : Char) (cs : List Char) : Option (List (List Char)) :=
  splitFrom separator ⟨none, false, 0, []⟩ cs

/-- The quote around a text and the text between, if it starts and ends with the same quote. -/
def unquote? : List Char → Option (Char × List Char)
  | [] => none
  | q :: rest =>
    if (q = '"' || q = '\'') && rest.getLast? = some q then some (q, rest.dropLast) else none

end Style

/-- The value that a text between a colon and the next comma writes. -/
def StyleValue.read (cs : List Char) : StyleValue :=
  let source := trim cs
  let quotedValue : Option StyleValue :=
    match Style.unquote? source with
    | some (q, body) => if body.contains q then none else some (.text (String.ofList body))
    | none => none
  match quotedValue with
  | some value => value
  | none =>
    if Number.isPlainNumber source then
      if source.contains '.' then .float ((Binary64.read? source).getD .nan)
      else .int ((Number.readInt? source).getD 0)
    else .raw (String.ofList source)

namespace Style

/-- The key that a text before the first colon writes. -/
def readKey? (cs : List Char) : Option String :=
  let key := trim cs
  match unquote? key with
  | some (_, body) => some (String.ofList body)
  | none => if Markup.isIdentifier key then some (String.ofList key) else none

/-- One entry; the value is everything after the first colon. -/
def readEntry? (cs : List Char) : Option (String × StyleValue) :=
  match splitTopLevel? ':' cs with
  | some (key :: part :: parts) =>
    (readKey? key).map fun k => (k, StyleValue.read (List.intercalate [':'] (part :: parts)))
  | _ => none

/-- Adds entries to a style; blank ones are passed over. -/
def readEntries? (s : Style) : List (List Char) → Option Style
  | [] => some s
  | entry :: rest =>
    if (trim entry).isEmpty then readEntries? s rest
    else
      match readEntry? entry with
      | some (key, value) => readEntries? (s.set key value) rest
      | none => none

/-- The style that an object literal writes. -/
def read? (source : List Char) : Option Style :=
  match trim source with
  | [] => none
  | c :: rest =>
    if c = '\x7b' && (c :: rest).getLast? = some '\x7d' then
      match splitTopLevel? ',' rest.dropLast with
      | some entries => readEntries? empty entries
      | none => none
    else none

end Style

end MarkupTidy
