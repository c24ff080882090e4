/-! # Binary double precision, exactly

A number of binary double precision is a sign, a significand and a power of two, or one of the
values that stand outside the number line.  Every operation computes the exact ratio of natural
numbers first and rounds it once, to the nearest representable number, ties to the even
significand.

* `Binary64.ofRatio`: the number nearest to a ratio.
* `Binary64.ofDecimal`: the number nearest to `digits · 10 ^ exponent`.
* `Binary64.scale`, `Binary64.roundPlaces`: a multiple of a number; a number to some decimal
  places.
* `Binary64.same`, `Binary64.below`: comparison by value, so that the two zeros are equal and
  nothing is equal to or below `nan`. -/

namespace MarkupTidy

/-- A number in binary double precision: `significand · 2 ^ exponent` with a sign, an infinity,
or no number at all.  Finite numbers are kept with a significand of 53 bits, or with the least
exponent. -/
inductive Binary64 where
  | finite (negative : Bool) (significand : Nat) (exponent : Int)
  | infinity (negative : Bool)
  | nan
deriving DecidableEq, Repr

namespace Binary64

/-- The number of bits of a significand. -/
def precision : Nat := 53

/-- The exponent of the numbers nearest to zero. -/
def leastExponent : Int := -1074

/-- The exponent of the greatest finite number. -/
def greatestExponent : Int := 971

/-- The quotient rounded to the nearest natural number, a tie to the even one. -/
def roundQuotient (num den : Nat) : Nat :=
  let quotient := num / den
  let twice := 2 * (num % den)
  if den < twice || (den == twice && quotient % 2 == 1) then quotient + 1 else quotient

/-- The ratio `num / (den · 2 ^ exponent)` as numerator and denominator. -/
def descale (num den : Nat) (exponent : Int) : Nat × Nat :=
  if 0 ≤ exponent then (num, den * Nat.pow 2 exponent.toNat)
  else (num * Nat.pow 2 (-exponent).toNat, den)

/-- The greatest `e` with `2 ^ e ≤ num / den`, for a positive ratio. -/
def log2Ratio (num den : Nat) : Int :=
  let guess : Int := Nat.log2 num - Nat.log2 den
  let (n, d) := descale num den guess
  if n < d then guess - 1 else guess

/-- The representable number nearest to `num / den`, with a sign. -/
def ofRatio (negative : Bool) (num den : Nat) : Binary64 :=
  if num = 0 then .finite negative 0 leastExponent
  else
    let exponent := max (log2Ratio num den - (precision - 1)) leastExponent
    let (n, d) := descale num den exponent
    let significand := roundQuotient n d
    let (significand, exponent) :=
      if significand = Nat.pow 2 precision then (Nat.pow 2 (precision - 1), exponent + 1)
      else (significand, exponent)
    if greatestExponent < exponent then .infinity negative
    else .finite negative significand exponent

/-- The number nearest to `digits · 10 ^ exponent`, with a sign.  Exponents that are out of range
whatever the digits are settled without computing the power. -/
def ofDecimal (negative : Bool) (digits : Nat) (exponent : Int) : Binary64 :=
  if digits = 0 then .finite negative 0 leastExponent
  else if 310 < exponent then .infinity negative
  else if 0 ≤ exponent then ofRatio negative (digits * Nat.pow 10 exponent.toNat) 1
  else if exponent < -400 - Nat.log2 digits then .finite negative 0 leastExponent
  else ofRatio negative digits (Nat.pow 10 (-exponent).toNat)

/-- The number nearest to a natural number. -/
def ofNat (n : Nat) : Binary64 :=
  ofRatio false n 1

/-- The sign; `nan` has none. -/
def isNegative : Binary64 → Bool
  | finite negative _ _ => negative
  | infinity negative => negative
  | nan => false

/-- The magnitude of `significand · 2 ^ exponent` as numerator and denominator. -/
def ratio (significand : Nat) (exponent : Int) : Nat × Nat :=
  if 0 ≤ exponent then (significand * Nat.pow 2 exponent.toNat, 1)
  else (significand, Nat.pow 2 (-exponent).toNat)

/-- The number without its sign. -/
def abs : Binary64 → Binary64
  | finite _ significand exponent => finite false significand exponent
  | infinity _ => infinity false
  | nan => nan

/-- The number times `num / den`, rounded once. -/
def scale (x : Binary64) (num den : Nat) : Binary64 :=
  match x with
  | finite negative significand exponent =>
    let (n, d) := ratio significand exponent
    ofRatio negative (n * num) (d * den)
  | x => x

/-- A number of which no fractional part remains. -/
def isIntegral : Binary64 → Bool
  | finite _ significand exponent =>
    let (n, d) := ratio significand exponent
    n % d == 0
  | _ => false

/-- The integral part of a finite number, toward zero. -/
def truncate : Binary64 → Int
  | finite negative significand exponent =>
    let (n, d) := ratio significand exponent
    if negative then -((n / d : Nat) : Int) else ((n / d : Nat) : Int)
  | _ => 0

/-- The number nearest to the decimal with `places` places that is nearest to `x`, a tie going
to the even last digit. -/
def roundPlaces (x : Binary64) (places : Nat) : Binary64 :=
  match x with
  | finite negative significand exponent =>
    let (n, d) := ratio significand exponent
    ofRatio negative (roundQuotient (n * Nat.pow 10 places) d) (Nat.pow 10 places)
  | x => x

/-- Equality by value. -/
def same : Binary64 → Binary64 → Bool
  | finite s m e, finite s' m' e' =>
    let (n, d) := ratio m e
    let (n', d') := ratio m' e'
    n * d' == n' * d && (s == s' || n == 0)
  | infinity s, infinity s' => s == s'
  | _, _ => false

/-- The exact value as a fraction with a positive denominator. -/
def fraction (negative : Bool) (significand : Nat) (exponent : Int) : Int × Nat :=
  let (n, d) := ratio significand exponent
  (if negative then -(n : Int) else n, d)

/-- Strict order by value. -/
def below : Binary64 → Binary64 → Bool
  | finite s m e, finite s' m' e' =>
    let (n, d) := fraction s m e
    let (n', d') := fraction s' m' e'
    n * d' < n' * d
  | infinity s, infinity s' => s && !s'
  | infinity s, finite _ _ _ => s
  | finite _ _ _, infinity s => !s
  | _, _ => false

/-- The lesser of two numbers, the first of two equal ones. -/
def least (x y : Binary64) : Binary64 :=
  if below y x then y else x

/-- The value of a key that a number is equal to, among entries keyed by natural numbers. -/
def lookup {α : Type} (entries : List (Nat × α)) (x : Binary64) : Option α :=
  (entries.find? fun entry => same x (ofNat entry.1)).map Prod.snd

end Binary64

end MarkupTidy
