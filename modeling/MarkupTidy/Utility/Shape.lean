import MarkupTidy.Text.LetterCase
import MarkupTidy.Utility.Scale

/-! # Shapes

A layer that is named for a geometric shape, and the size that its class tokens give it.

* `shapeName?`: the shape that a layer name begins with, in lower case.
* `ShapeForm.ofName`: what a shape asks of its element.
* `dimensions`: width and height in pixels.
* `cornerRadius`: the radius token of a round shape. -/

namespace MarkupTidy

open MarkupTidy.Text MarkupTidy.Markup

/-- The shapes that a layer may be named for. -/
def shapeWords : List (List Char) :=
  ["ellipse".toList, "circle".toList, "star".toList, "polygon".toList, "line".toList]

/-- Whether a character stands for a small ASCII letter when case is disregarded: besides the
letter itself and its capital, the long s for `s`, and the dotless and the dotted capital i for
`i`. -/
def matchesLetter (letter c : Char) : Bool :=
  c.toLower = letter || (letter = 's' && c.toNat = 0x17F)
    || (letter = 'i' && (c.toNat = 0x131 || c.toNat = 0x130))

/-- Whether a text begins with a word when case is disregarded. -/
def beginsWithWord : List Char → List Char → Bool
  | [], _ => true
  | _ :: _, [] => false
  | l :: ls, c :: cs => matchesLetter l c && beginsWithWord ls cs

/-- The shape that a layer name begins with, in lower case; the name goes on with no word
character. -/
def shapeName? (name : List Char) : Option String :=
  let source := trim name
  (shapeWords.find? fun word =>
    beginsWithWord word source && !(source.drop word.length).head?.any isWordChar).map fun word =>
    String.ofList (lowercase (source.take word.length))

/-- What a shape asks of its element. -/
inductive ShapeForm where
  /-- A line keeps a visible height. -/
  | line
  /-- A star or a polygon is marked, and its images keep their proportions. -/
  | pointed
  /-- Everything else is rounded; a circle always with half of its lesser side. -/
  | round (isCircle : Bool)
deriving DecidableEq, Repr

/-- The form of a shape. -/
def ShapeForm.ofName (name : String) : ShapeForm :=
  if name = "line" then .line
  else if name = "star" || name = "polygon" then .pointed
  else .round (name = "circle")

/-- An axis of a size. -/
inductive Axis where
  | both
  | width
  | height
deriving DecidableEq, Repr

/-- The axis that a sizing token begins with, and the rest of the token. -/
def readAxis? (cs : List Char) : Option (Axis × List Char) :=
  match afterText? "size-".toList cs with
  | some rest => some (.both, rest)
  | none =>
    match afterText? "w-".toList cs with
    | some rest => some (.width, rest)
    | none => (afterText? "h-".toList cs).map fun rest => (.height, rest)

/-- The number that a text without a minus sign writes. -/
def readPlain? (cs : List Char) : Option Binary64 :=
  if Number.isPlainNumber cs && !startsWith ['-'] cs then Binary64.read? cs else none

/-- The pixels that the value of a sizing token stands for: an arbitrary value, or a step of four
pixels. -/
def readPixels? (value : List Char) : Option Binary64 :=
  if startsWith ['['] value && endsWith "px]".toList value then
    readPlain? (value.tail.take (value.length - 4))
  else (readPlain? value).map fun step => step.scale 4 1

/-- The axis and the pixels of a sizing token; one line feed may follow the token. -/
def readSize? (token : String) : Option (Axis × Binary64) := do
  let (axis, value) ← readAxis? (dropFinalNewline token.toList)
  let pixels ← readPixels? value
  some (axis, pixels)

/-- Width and height, as far as they are known. -/
structure Dimensions where
  width? : Option Binary64
  height? : Option Binary64
deriving DecidableEq, Repr

/-- The dimensions after one more sizing token. -/
def Dimensions.set (d : Dimensions) : Axis × Binary64 → Dimensions
  | (.both, pixels) => ⟨some pixels, some pixels⟩
  | (.width, pixels) => { d with width? := some pixels }
  | (.height, pixels) => { d with height? := some pixels }

/-- The dimensions that class tokens give; a later token outdoes an earlier one. -/
def dimensions (tokens : List String) : Dimensions :=
  (tokens.filterMap readSize?).foldl Dimensions.set ⟨none, none⟩

/-- Whether a token sets the corner radius. -/
def isRounded (token : String) : Bool :=
  match afterText? "rounded".toList (dropFinalNewline token.toList) with
  | some [] => true
  | some ('-' :: c :: rest) => !(c :: rest).contains '\n'
  | _ => false

/-- The radius token of a round shape. -/
def cornerRadius (isCircle : Bool) (width height : Binary64) : String :=
  if isCircle || width.same height then radiusToken ((Binary64.least width height).scale 1 2)
  else "rounded-[50%]"

/-- Class tokens with another corner radius. -/
def withRadius (tokens : List String) (radius : String) : List String :=
  tokens.filter (fun t => !isRounded t) ++ [radius]

end MarkupTidy
