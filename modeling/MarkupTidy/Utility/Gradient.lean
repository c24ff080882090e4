import MarkupTidy.Number.DecimalText
import MarkupTidy.Utility.Resolution

/-! # Gradients

A gradient is spread over several class tokens: a direction or the mark of a radial gradient,
colour stops, and positions of stops.  A linear gradient with at most one stop between its ends
needs no help; all others are written as one CSS value.

* `Gradient.collect`: the stops that tokens describe, in order from the start to the end.
* `Gradient.classify`: what a list of tokens says about a gradient. -/

namespace MarkupTidy.Gradient

open MarkupTidy.Text

/-- The directions of a linear gradient in degrees. -/
def directions : List (String × Nat) :=
  [("t", 0), ("tr", 45), ("r", 90), ("br", 135), ("b", 180), ("bl", 225), ("l", 270), ("tl", 315)]

/-- The degrees of a direction token. -/
def directionDegrees? (token : String) : Option Nat :=
  let cs := token.toList
  match afterText? "bg-gradient-to-".toList cs with
  | some d => directions.lookup (String.ofList d)
  | none => (afterText? "bg-linear-to-".toList cs).bind fun d => directions.lookup (String.ofList d)

/-- Whether a token marks a radial gradient. -/
def isRadial (token : String) : Bool :=
  token = "bg-radial" || token = "bg-gradient-radial"

/-- Where a stop stands in a gradient. -/
inductive StopPlace where
  | first
  | between
  | last
deriving DecidableEq, Repr

/-- The place that a token begins with, and the rest of the token. -/
def readPlace? (cs : List Char) : Option (StopPlace × List Char) :=
  match afterText? "from-".toList cs with
  | some rest => some (.first, rest)
  | none =>
    match afterText? "via-".toList cs with
    | some rest => some (.between, rest)
    | none => (afterText? "to-".toList cs).map fun rest => (.last, rest)

/-- The colours that a stop may name. -/
def namedColors : List (List Char) := ["white".toList, "black".toList, "transparent".toList]

/-- Whether a text is an arbitrary value in brackets. -/
def isArbitrary (cs : List Char) : Bool :=
  startsWith ['['] cs && endsWith [']'] cs && 2 < cs.length

/-- The CSS colour of a stop value. -/
def stopColor (value : List Char) : List Char :=
  let source :=
    if startsWith ['['] value then
      let inside := value.tail.dropLast
      (afterText? "color:".toList inside).getD inside
    else value
  normalizeReferences (source.map fun c => if c = '_' then ' ' else c)

/-- What a class token says about the stops of a gradient. -/
inductive StopToken where
  | color (place : StopPlace) (color : List Char)
  | position (place : StopPlace) (percent : Binary64)
deriving DecidableEq, Repr

/-- The stop or the position that a token describes. -/
def StopToken.read? (token : String) : Option StopToken := do
  let (place, value) ← readPlace? token.toList
  if isArbitrary value || namedColors.contains value then some (.color place (stopColor value))
  else if endsWith ['%'] value then
    let number := value.dropLast
    if Number.isPlainNumber number && !startsWith ['-'] number then
      (Binary64.read? number).map (.position place)
    else none
  else none

/-- A colour stop; its position may be left open. -/
structure Stop where
  color : List Char
  position? : Option Binary64
deriving DecidableEq, Repr

/-- Gives stops their positions in turn; stops without one are left open. -/
def placeStops : List (List Char) → List Binary64 → List Stop
  | [], _ => []
  | c :: colors, [] => ⟨c, none⟩ :: placeStops colors []
  | c :: colors, p :: positions => ⟨c, some p⟩ :: placeStops colors positions

/-- The stops at a place, in the order of their tokens. -/
def stopsAt (place : StopPlace) (found : List StopToken) : List Stop :=
  placeStops
    (found.filterMap fun
      | .color p c => if p = place then some c else none
      | .position .. => none)
    (found.filterMap fun
      | .position p x => if p = place then some x else none
      | .color .. => none)

/-- The stops that tokens describe, from the start to the end. -/
def collect (tokens : List String) : List Stop :=
  let found := tokens.filterMap StopToken.read?
  stopsAt .first found ++ stopsAt .between found ++ stopsAt .last found

/-- A percentage with at most two places. -/
def percentText (x : Binary64) : List Char :=
  (x.roundPlaces 2).wholeOr Binary64.general ++ ['%']

/-- A stop as written; one whose position is open is placed evenly. -/
def stopText (last : Nat) (stop : Stop) (index : Nat) : List Char :=
  let position := stop.position?.getD (Binary64.ofRatio false (100 * index) last)
  stop.color ++ ' ' :: percentText position

/-- Stops as written, with a comma between two. -/
def stopsText (stops : List Stop) : List Char :=
  List.intercalate [',', ' '] (stops.zipIdx.map fun (stop, index) =>
    stopText (stops.length - 1) stop index)

/-- What a list of tokens says about a gradient. -/
inductive Finding where
  /-- There is none, or it needs no help. -/
  | absent
  /-- There is one that cannot be made out. -/
  | unclear
  /-- The CSS value of a gradient, and the tokens that it stands for. -/
  | found (value : String) (used : List String)
deriving DecidableEq, Repr

/-- The tokens that describe stops. -/
def usedTokens (tokens : List String) : List String :=
  tokens.filter fun t => (StopToken.read? t).isSome

/-- What a list of tokens says about a gradient; a direction goes before a radial mark. -/
def classify (tokens : List String) : Finding :=
  let stops := collect tokens
  match tokens.find? fun t => (directionDegrees? t).isSome with
  | some direction =>
    let between := (stopsAt .between (tokens.filterMap StopToken.read?)).length
    if between < 2 then .absent
    else if stops.length ≠ between + 2 then .unclear
    else
      .found (String.ofList ("linear-gradient(".toList
          ++ (toString ((directionDegrees? direction).getD 0)).toList ++ "deg, ".toList
          ++ stopsText stops ++ [')']))
        (direction :: usedTokens tokens)
  | none =>
    match tokens.find? isRadial with
    | none => .absent
    | some radial =>
      if stops.length < 2 then .unclear
      else
        .found (String.ofList ("radial-gradient(circle, ".toList ++ stopsText stops ++ [')']))
          (radial :: usedTokens tokens)

end MarkupTidy.Gradient
