import MarkupTidy.Json.Quoted
import MarkupTidy.Json.Value
import MarkupTidy.Number.DecimalText

/-! # Writing JSON

A value is laid out with one item or entry to a line, two spaces for each level.  The keys of an
object are sorted by code point, and texts keep to ASCII. -/

namespace MarkupTidy.Json

/-- The written form of a number of double precision. -/
def floatText (x : Binary64) : List Char :=
  match x with
  | .nan => "NaN".toList
  | .infinity true => "-Infinity".toList
  | .infinity false => "Infinity".toList
  | x => x.shortest

/-- A line break and the indentation of a level. -/
def newLine (level : Nat) : List Char :=
  '\n' :: List.replicate (2 * level) ' '

/-- Pieces between brackets, each on a line of its own one level in; nothing between the brackets
if there are no pieces. -/
def bracketed (opening closing : Char) (level : Nat) (pieces : List (List Char)) : List Char :=
  if pieces.isEmpty then [opening, closing]
  else
    opening :: (newLine (level + 1) ++ List.intercalate (',' :: newLine (level + 1)) pieces
      ++ newLine level ++ [closing])

/-- The entries of an object as sorted by their keys. -/
def sortEntries (entries : List (String × List Char)) : List (String × List Char) :=
  entries.mergeSort fun a b => a.1 ≤ b.1

mutual
/-- A value as written at a level. -/
def Value.print (level : Nat) : Value → List Char
  | .null => "null".toList
  | .bool value => if value then "true".toList else "false".toList
  | .int value => (toString value).toList
  | .float value => floatText value
  | .text value => quoted true value.toList
  | .array items => bracketed '[' ']' level (Value.printItems (level + 1) items)
  | .object entries =>
    bracketed '\x7b' '\x7d' level
      ((sortEntries (Value.printEntries (level + 1) entries)).map fun (key, written) =>
        quoted true key.toList ++ ':' :: ' ' :: written)

/-- The items of an array as written. -/
def Value.printItems (level : Nat) : List Value → List (List Char)
  | [] => []
  | item :: rest => item.print level :: Value.printItems level rest

/-- The values of an object as written, with their keys. -/
def Value.printEntries (level : Nat) : List (String × Value) → List (String × List Char)
  | [] => []
  | (key, value) :: rest => (key, value.print level) :: Value.printEntries level rest
end

end MarkupTidy.Json
