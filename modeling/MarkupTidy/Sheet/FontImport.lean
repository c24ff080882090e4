import MarkupTidy.Number.Reader
import MarkupTidy.OrderedMap
import MarkupTidy.Text.Search
import MarkupTidy.Text.Surrogate
import MarkupTidy.Url.Form

/-! # Font imports

The typefaces of a component are imported by one directive that names every family with its
weights, in ascending order and each of them once.

* `fontImport?`: the directive for typefaces; `unencodableFamily?`: a family that none can name.
* `importedFonts?`: the typefaces that a directive names. -/

namespace MarkupTidy

open MarkupTidy.Text

/-- A typeface that a component uses: its family and its weight. -/
abbrev FontUse := String × Int

/-- The address that typefaces are imported from. -/
def fontService : List Char := "https://fonts.googleapis.com/css2".toList

/-- Ascending weights with one more. -/
def insertWeight (weight : Int) : List Int → List Int
  | [] => [weight]
  | w :: rest =>
    if weight < w then weight :: w :: rest
    else if weight = w then w :: rest
    else w :: insertWeight weight rest

/-- The weights of every family, in order of first use. -/
def familyWeights (fonts : List FontUse) : OrderedMap String (List Int) :=
  fonts.foldl (fun families (family, weight) =>
    families.insert family (insertWeight weight ((families.get? family).getD []))) []

/-- The part of a directive that names a family. -/
def familyParameter (family : String) (weights : List Int) : List Char :=
  "family=".toList ++ Url.formEncode family.toList ++ ":wght@".toList
    ++ List.intercalate [';'] (weights.map fun w => (toString w).toList)

/-- The first family with a half of a surrogate pair, which no directive can name. -/
def unencodableFamily? (fonts : List FontUse) : Option String :=
  (fonts.map Prod.fst).find? fun family => !isWellFormed family.toList

/-- The directive that imports typefaces, if there are any. -/
def fontImport? (fonts : List FontUse) : Option String :=
  match familyWeights fonts with
  | [] => none
  | families =>
    some <| String.ofList <| "@import url('".toList ++ fontService ++ ['?']
      ++ List.intercalate ['&'] (families.map fun (family, weights) =>
          familyParameter family weights)
      ++ "&display=swap');".toList

/-- The weights in a text of digits and semicolons. -/
def readWeights (cs : List Char) : List Int :=
  (splitOn ';' cs).filterMap Number.readInt?

/-- A family and its weights at the front of a text. -/
def readFamily? (cs : List Char) : Option (List FontUse × List Char) :=
  match afterText? "family=".toList cs with
  | none => none
  | some cs =>
    let inName (c : Char) : Bool := c ≠ ':' && c ≠ '&' && c ≠ '\''
    let family := cs.takeWhile inName
    match afterText? ":wght@".toList (cs.dropWhile inName) with
    | none => none
    | some cs =>
      let inWeights (c : Char) : Bool := isDecimalDigit c || c = ';'
      let weights := cs.takeWhile inWeights
      if family.isEmpty || weights.isEmpty then none
      else
        let name := String.ofList (Url.formDecode family)
        some ((readWeights weights).map fun weight => (name, weight), cs.dropWhile inWeights)

/-- The typefaces that a directive names; none if it imports something else. -/
def importedFonts? (directive : String) : Option (List FontUse) :=
  let cs := directive.toList
  if containsText fontService cs then some (findAll readFamily? cs).flatten else none

end MarkupTidy
