import MarkupTidy.Markup.Printer
import MarkupTidy.Text.Blank
import MarkupTidy.Text.Search

/-! # Font classes

The generator writes a typeface as a class token, `font-['Inter:Semi_Bold',sans-serif]`.

* `FontClass.split?`: the quoted name and the generic family of such a token.
* `FontClass.read?`: family, generic family, weight and slant, unless the family is empty.
* `FontClass.style`: the inline style that stands for the class.
* `layerStyle`: a style expression with another style beneath it. -/

namespace MarkupTidy

open MarkupTidy.Text MarkupTidy.Markup

/-- The typeface that a font class names. -/
structure FontClass where
  family : String
  generic : String
  weight : Nat
  italic : Bool
deriving DecidableEq, Repr

/-- The weights of named styles. -/
def namedWeights : List (String × Nat) := [
  ("Thin", 100), ("ExtraLight", 200), ("Light", 300), ("Regular", 400), ("Medium", 500),
  ("SemiBold", 600), ("Bold", 700), ("ExtraBold", 800), ("Black", 900)]

/-- The weight of a style without a known name. -/
def defaultWeight : Nat := 400

namespace FontClass

/-- A character of the name of a generic family. -/
def isGenericChar (c : Char) : Bool :=
  isWordChar c || c == '-'

/-- The generic family between a comma and the closing bracket; none if the bracket follows. -/
def readGeneric? : List Char → Option (Option (List Char))
  | [']'] => some none
  | ',' :: rest =>
    if rest.getLast? = some ']' && !rest.dropLast.isEmpty && rest.dropLast.all isGenericChar then
      some (some rest.dropLast)
    else none
  | _ => none

/-- The quoted name and the generic family of a font class; one line feed may follow the token. -/
def split? (token : List Char) : Option (List Char × Option (List Char)) := do
  let rest ← afterText? "font-['".toList token
  match rest.dropWhile (· ≠ '\'') with
  | [] => none
  | _ :: after =>
    let name := rest.takeWhile (· ≠ '\'')
    if name.isEmpty then none
    else (readGeneric? (dropFinalNewline after)).map fun generic? => (name, generic?)

/-- A style name without the mark of italics, and whether it had it. -/
def splitItalic (style : List Char) : List Char × Bool :=
  if endsWith "Italic".toList style then (style.take (style.length - 6), true) else (style, false)

/-- The typeface that a token names. -/
def read? (token : String) : Option FontClass := do
  let (name, generic?) ← split? token.toList
  let (family, style) := (cutAt? ':' name).getD (name, [])
  let family := trim (family.map fun c => if c = '_' then ' ' else c)
  if family.isEmpty then none
  else
    let (style, italic) := splitItalic (style.filter fun c => c != '_' && c != ' ')
    some {
      family := String.ofList family
      generic := (generic?.map String.ofList).getD "sans-serif"
      weight := (namedWeights.lookup (String.ofList style)).getD defaultWeight
      italic }

/-- The inline style that stands for a font class. -/
def style (f : FontClass) : Style :=
  ⟨[("fontFamily", .text (f.family ++ ", " ++ f.generic)), ("fontWeight", .int f.weight)]
    ++ if f.italic then [("fontStyle", .text "italic")] else []⟩

end FontClass

/-- Whether a token has the form of a font class, readable or not. -/
def isFontClass (token : String) : Bool :=
  (FontClass.split? token.toList).isSome

/-- A style expression with another style beneath it: the source is spread after the entries of
the style, so that what it sets wins. -/
def layerStyle (source : List Char) (s : Style) : List Char :=
  let written := s.print
  written.take (written.length - 2) ++ ", ...".toList ++ trim source ++ [' ', '\x7d']

end MarkupTidy
