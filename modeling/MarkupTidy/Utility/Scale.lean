import MarkupTidy.Number.DecimalText
import MarkupTidy.Number.Reader
import MarkupTidy.Utility.Placeholder

/-! # Standard scales

Arbitrary pixel values that a standard step stands for exactly.

* `optimizeToken`: a token with an arbitrary pixel value as its standard step.
* `mergeSquare`: equal width and height as one size.
* `dedupe`: tokens without repetitions.
* `radiusToken`: the token of a corner radius. -/

namespace MarkupTidy

open MarkupTidy.Text MarkupTidy.Markup

/-- The spacing scale: steps by their size in pixels. -/
def spacingScale : List (Nat × String) := [
  (0, "0"), (1, "px"), (2, "0.5"), (4, "1"), (6, "1.5"), (8, "2"), (10, "2.5"), (12, "3"),
  (14, "3.5"), (16, "4"), (20, "5"), (24, "6"), (28, "7"), (32, "8"), (36, "9"), (40, "10"),
  (44, "11"), (48, "12"), (56, "14"), (64, "16"), (80, "20"), (96, "24"), (112, "28"),
  (128, "32"), (144, "36"), (160, "40"), (176, "44"), (192, "48"), (208, "52"), (224, "56"),
  (240, "60"), (256, "64"), (288, "72"), (320, "80"), (384, "96")]

/-- The radius scale: tokens by their radius in pixels. -/
def radiusScale : List (Nat × String) := [
  (0, "rounded-none"), (2, "rounded-sm"), (4, "rounded"), (6, "rounded-md"), (8, "rounded-lg"),
  (12, "rounded-xl"), (16, "rounded-2xl"), (24, "rounded-3xl"), (9999, "rounded-full")]

/-- The utilities that take a step of the spacing scale. -/
def spacingUtilities : List String := [
  "gap", "gap-x", "gap-y", "p", "pt", "pr", "pb", "pl", "px", "py", "m", "mt", "mr", "mb", "ml",
  "mx", "my", "w", "h", "size", "top", "right", "bottom", "left", "inset"]

/-- The spacing utilities that may be negative. -/
def negatableUtilities : List String :=
  ["m", "mt", "mr", "mb", "ml", "mx", "my", "top", "right", "bottom", "left", "inset"]

/-- A utility with an arbitrary value in pixels, such as `gap-[8px]`. -/
structure PixelToken where
  utility : String
  pixels : Binary64
deriving DecidableEq, Repr

/-- The parts of a token with an arbitrary value in pixels; one line feed may follow the token. -/
def PixelToken.read? (token : List Char) : Option PixelToken := do
  let (head, inside) ← cutAt? '[' token
  let value := dropFinalNewline inside
  if head.getLast? = some '-' && Placeholder.isUtilityName head.dropLast
      && endsWith ['p', 'x', ']'] value then
    let number := value.take (value.length - 3)
    if Number.isPlainNumber number then
      (Binary64.read? number).map fun pixels => ⟨String.ofList head.dropLast, pixels⟩
    else none
  else none

/-- A token as its standard step, if its value has one. -/
def optimizeToken (token : String) : String :=
  match PixelToken.read? token.toList with
  | none => token
  | some ⟨utility, pixels⟩ =>
    if utility = "rounded" then (Binary64.lookup radiusScale pixels).getD token
    else if spacingUtilities.contains utility then
      match Binary64.lookup spacingScale pixels.abs with
      | none => token
      | some step =>
        if pixels.below (Binary64.ofNat 0) then
          if negatableUtilities.contains utility then "-" ++ utility ++ "-" ++ step else token
        else utility ++ "-" ++ step
    else token

/-- What follows a beginning in the tokens that have it, in order. -/
def stepsOf (start : String) (tokens : List String) : List String :=
  tokens.filterMap fun t => (afterText? start.toList t.toList).map String.ofList

/-- The one text that a nonempty list repeats. -/
def commonStep? : List String → Option String
  | [] => none
  | s :: rest => if rest.all (· = s) then some s else none

/-- Replaces the last occurrence of a token. -/
def replaceLast (old : String) (new : Option String) (tokens : List String) : List String :=
  let back := tokens.reverse
  let tail := back.dropWhile (· ≠ old)
  match tail with
  | [] => tokens
  | _ :: rest => (back.takeWhile (· ≠ old) ++ new.toList ++ rest).reverse

/-- Equal width and height as one size, if there is one width, one height, and both are the same
step of the spacing scale.  The size takes the place of the last width; the last height goes. -/
def mergeSquare (tokens : List String) : List String :=
  match commonStep? (stepsOf "w-" tokens), commonStep? (stepsOf "h-" tokens) with
  | some width, some height =>
    if width = height && (spacingScale.map Prod.snd).contains width then
      replaceLast ("h-" ++ height) none
        (replaceLast ("w-" ++ width) (some ("size-" ++ width)) tokens)
    else tokens
  | _, _ => tokens

/-- Tokens without repetitions, each where it first stands. -/
def dedupeFrom (seen : List String) : List String → List String
  | [] => []
  | t :: rest => if seen.contains t then dedupeFrom seen rest else t :: dedupeFrom (t :: seen) rest

/-- Tokens without repetitions, each where it first stands. -/
def dedupe (tokens : List String) : List String :=
  dedupeFrom [] tokens

/-- A corner radius: a standard token, or an arbitrary value. -/
def radiusToken (pixels : Binary64) : String :=
  match Binary64.lookup radiusScale pixels with
  | some token => token
  | none => "rounded-[" ++ String.ofList (pixels.wholeOr Binary64.general) ++ "px]"

end MarkupTidy
