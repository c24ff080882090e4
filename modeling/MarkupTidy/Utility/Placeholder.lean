import MarkupTidy.Markup.Identifier
import MarkupTidy.Text.Blank
import MarkupTidy.Text.Search

/-! # Variable placeholders

A class token that refers to a design variable: a utility with an arbitrary value, such as
`p-[var(--margin\/r,32px)]`, `text-[color:var(--ink)]` or `hover:bg-[var(--paper,#fff)]`.

* `Placeholder.read?`: the parts of a placeholder token.
* `BorderShorthand.read?`: the widths of a token such as `border-[0px_0px_2px]`. -/

namespace MarkupTidy

open MarkupTidy.Text MarkupTidy.Markup

/-- What a placeholder says its value is. -/
inductive ValueKind where
  | color
  | length
deriving DecidableEq, Repr

/-- The parts of a placeholder token. -/
structure Placeholder where
  /-- Variants with their colons, such as `hover:`. -/
  variants : List Char
  utility : List Char
  kind? : Option ValueKind
  /-- The reference to the variable, escapes included. -/
  reference : List Char
  /-- The nonempty fallback after the first comma. -/
  fallback? : Option (List Char)
deriving DecidableEq, Repr

namespace Placeholder

/-- A character of a variant. -/
def isVariantChar (c : Char) : Bool :=
  isWordChar c || c == '-'

/-- Nonempty variants, each followed by a colon. -/
def areVariants (cs : List Char) : Bool :=
  match (splitOn ':' cs).reverse with
  | [] :: variants => variants.all fun v => !v.isEmpty && v.all isVariantChar
  | _ => false

/-- A lower-case ASCII letter. -/
def isLowerLetter (c : Char) : Bool :=
  'a' ≤ c && c ≤ 'z'

/-- A name of lower-case letters and hyphens that begins with a letter. -/
def isUtilityName : List Char → Bool
  | [] => false
  | c :: rest => isLowerLetter c && rest.all fun c => isLowerLetter c || c == '-'

/-- The name of a utility, with a minus sign if it is negated. -/
def isUtility : List Char → Bool
  | '-' :: rest => isUtilityName rest
  | cs => isUtilityName cs

/-- The kind that a value begins with, and the rest of the value. -/
def readKind (cs : List Char) : Option ValueKind × List Char :=
  match afterText? "color:".toList cs with
  | some rest => (some .color, rest)
  | none =>
    match afterText? "length:".toList cs with
    | some rest => (some .length, rest)
    | none => (none, cs)

/-- The body of a reference that ends a token; one line feed may follow the token. -/
def readBody? (cs : List Char) : Option (List Char) := do
  let rest ← afterText? "var(".toList cs
  let token := dropFinalNewline rest
  if endsWith [')', ']'] token then
    let body := token.take (token.length - 2)
    if startsWith ['-', '-'] body && 2 < body.length && !body.contains '\n' then some body
    else none
  else none

/-- The reference in a body, and its fallback. -/
def splitBody (body : List Char) : List Char × Option (List Char) :=
  match cutAt? ',' body with
  | none => (body, none)
  | some (reference, rest) =>
    let fallback := trim rest
    (reference, if fallback.isEmpty then none else some fallback)

/-- The parts of a placeholder token. -/
def read? (token : List Char) : Option Placeholder := do
  let (head, inside) ← cutAt? '[' token
  if head.getLast? = some '-' then
    let base := head.dropLast
    let utility := afterLast ':' base
    let variants := base.take (base.length - utility.length)
    if isUtility utility && areVariants variants then
      let (kind?, value) := readKind inside
      let body ← readBody? value
      let (reference, fallback?) := splitBody body
      some ⟨variants, utility, kind?, reference, fallback?⟩
    else none
  else none

end Placeholder

/-- Whether a class token is a placeholder. -/
def isPlaceholder (token : String) : Bool :=
  (Placeholder.read? token.toList).isSome

namespace BorderShorthand

/-- An ASCII digit or a point. -/
def isWidthChar (c : Char) : Bool :=
  c.isDigit || c == '.'

/-- Digits and points, with or without the unit of pixels. -/
def isWidth (cs : List Char) : Bool :=
  let number := if endsWith ['p', 'x'] cs then cs.take (cs.length - 2) else cs
  !number.isEmpty && number.all isWidthChar

/-- The three or four widths of a border token; one line feed may follow the token. -/
def read? (token : List Char) : Option (List (List Char)) := do
  let rest ← afterText? "border-[".toList (dropFinalNewline token)
  if rest.getLast? = some ']' then
    let widths := splitOn '_' rest.dropLast
    if (widths.length = 3 || widths.length = 4) && widths.all isWidth then some widths else none
  else none

end BorderShorthand

end MarkupTidy
