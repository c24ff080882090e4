import MarkupTidy.Number.Binary64

/-! # Decimal text of numbers

A number is written from its decimal digits and the place of its decimal point.  Two choices of
digits are made here, the fewest that read back as the same number (`Binary64.shortest`) and the
nearest six (`Binary64.general`), and one record says how digits are laid out:

* `DecimalLayout.full`: positional from `1e-4` up to `1e16`, always with a fractional part;
* `DecimalLayout.compact`: positional from `1e-4` up to `1e6`, no fractional part unless needed.

An exponent has a sign and at least two digits. -/

namespace MarkupTidy

/-- How digits become text: the places of the decimal point, counted from the front of the
digits, that are written positionally, and whether a whole number keeps a fractional part. -/
structure DecimalLayout where
  leastPlace : Int
  greatestPlace : Int
  keepsFraction : Bool

namespace DecimalLayout

/-- The layout of a number that has to read back as a number. -/
def full : DecimalLayout := ⟨-3, 16, true⟩

/-- The layout of a number inside a style or class value. -/
def compact : DecimalLayout := ⟨-3, 6, false⟩

/-- A signed exponent of at least two digits. -/
def exponentText (n : Int) : List Char :=
  let digits := (Nat.repr n.natAbs).toList
  (if n < 0 then '-' else '+') :: (if digits.length < 2 then '0' :: digits else digits)

/-- The text of `0.d₁d₂… · 10 ^ place` for nonempty digits. -/
def write (layout : DecimalLayout) (digits : List Char) (place : Int) : List Char :=
  if layout.leastPlace ≤ place && place ≤ layout.greatestPlace then
    if place ≤ 0 then
      '0' :: '.' :: (List.replicate (-place).toNat '0' ++ digits)
    else if digits.length ≤ place.toNat then
      digits ++ List.replicate (place.toNat - digits.length) '0'
        ++ (if layout.keepsFraction then ['.', '0'] else [])
    else digits.take place.toNat ++ '.' :: digits.drop place.toNat
  else
    match digits with
    | [] => []
    | first :: rest =>
      (if rest.isEmpty then [first] else first :: '.' :: rest) ++ 'e' :: exponentText (place - 1)

end DecimalLayout

namespace Binary64

/-- The greatest `k` with `10 ^ k ≤ num / den`, for a positive ratio: starting from an estimate
that is at most one too low. -/
def log10Ratio (num den : Nat) : Int :=
  let guess := (log2Ratio num den * 30103).fdiv 100000
  let scaled (k : Int) : Nat × Nat :=
    if 0 ≤ k then (num, den * Nat.pow 10 k.toNat) else (num * Nat.pow 10 (-k).toNat, den)
  let reaches (k : Int) : Bool := let (n, d) := scaled k; d ≤ n
  if reaches (guess + 1) then guess + 1 else if reaches guess then guess else guess - 1

/-- The ratio `num / (den · 10 ^ exponent)` as numerator and denominator. -/
def decimalGrid (num den : Nat) (exponent : Int) : Nat × Nat :=
  if 0 ≤ exponent then (num, den * Nat.pow 10 exponent.toNat)
  else (num * Nat.pow 10 (-exponent).toNat, den)

/-- A decimal `digits · 10 ^ exponent` without zeros at the end of its digits; `fuel` bounds the
number of zeros taken away. -/
def stripZeros : Nat → Nat → Int → Nat × Int
  | 0, digits, exponent => (digits, exponent)
  | fuel + 1, digits, exponent =>
    if digits % 10 = 0 then stripZeros fuel (digits / 10) (exponent + 1) else (digits, exponent)

/-- Of the two decimals with `count` digits next to a positive ratio, those that read back as
`x`, the nearer one first and the even one on a tie. -/
def decimalWith (x : Binary64) (num den : Nat) (count : Nat) : Option (Nat × Int) :=
  let exponent := log10Ratio num den - (count - 1)
  let (n, d) := decimalGrid num den exponent
  let lower := n / d
  let nearest := roundQuotient n d
  let other := if nearest = lower then lower + 1 else lower
  if ofDecimal false nearest exponent = x then some (nearest, exponent)
  else if ofDecimal false other exponent = x then some (other, exponent)
  else none

/-- The first count of digits, from `count` on, that reads back as `x`; `fuel` counts down to the
seventeen digits that always do. -/
def shortestFrom (x : Binary64) (num den : Nat) : Nat → Nat → Nat × Int
  | 0, count => (decimalWith x num den count).getD (0, 0)
  | fuel + 1, count =>
    match decimalWith x num den count with
    | some decimal => decimal
    | none => shortestFrom x num den fuel (count + 1)

theorem shortestFrom_succ (x : Binary64) (num den fuel count : Nat) :
    shortestFrom x num den (fuel + 1) count
      = (decimalWith x num den count).getD (shortestFrom x num den fuel (count + 1)) := by
  change (match decimalWith x num den count with
    | some decimal => decimal
    | none => shortestFrom x num den fuel (count + 1)) = _
  cases decimalWith x num den count <;> rfl

/-- The digits of a decimal and the place of the point before them. -/
def digitsAndPlace (decimal : Nat × Int) : List Char × Int :=
  let (digits, exponent) := stripZeros 400 decimal.1 decimal.2
  let text := (Nat.repr digits).toList
  (text, exponent + text.length)

/-- The text of an infinity or of no number. -/
def nonFiniteText : Binary64 → List Char
  | infinity true => "-inf".toList
  | infinity false => "inf".toList
  | _ => "nan".toList

/-- The fewest digits that read back as the same number, the nearest of them. -/
def shortest (x : Binary64) : List Char :=
  match x with
  | finite negative significand exponent =>
    let sign := if negative then ['-'] else []
    if significand = 0 then sign ++ "0.0".toList
    else
      let (num, den) := ratio significand exponent
      let (digits, place) :=
        digitsAndPlace (shortestFrom (finite false significand exponent) num den 16 1)
      sign ++ DecimalLayout.full.write digits place
  | x => nonFiniteText x

/-- The nearest number of six digits, without zeros at its end. -/
def general (x : Binary64) : List Char :=
  match x with
  | finite negative significand exponent =>
    let sign := if negative then ['-'] else []
    if significand = 0 then sign ++ ['0']
    else
      let (num, den) := ratio significand exponent
      let grid := log10Ratio num den - 5
      let (n, d) := decimalGrid num den grid
      let (digits, place) := digitsAndPlace (roundQuotient n d, grid)
      sign ++ DecimalLayout.compact.write digits place
  | x => nonFiniteText x

/-- A whole number without a fractional part, any other by the given digits. -/
def wholeOr (other : Binary64 → List Char) (x : Binary64) : List Char :=
  if x.isIntegral then (toString x.truncate).toList else other x

end Binary64

end MarkupTidy
