import MarkupTidy.Number.Binary64
import MarkupTidy.Text.Blank
import MarkupTidy.Text.Digit

/-! # Reading numbers

Whole numbers and numbers of double precision, written in digits of any script.  White space
around a number is left out, and one low line may stand between two digits.

* `readDigits`: the longest run of digits at the front, with its value.
* `readInt?`: a whole number with an optional sign.
* `Binary64.read?`: a decimal with an optional exponent, an infinity, or `nan`. -/

namespace MarkupTidy.Number

open MarkupTidy.Text

/-- White space that may surround a number; the separators of information may not. -/
def isPadding (c : Char) : Bool :=
  isBlank c && !(0x1C ≤ c.toNat && c.toNat ≤ 0x1F)

/-- A text without the white space around a number. -/
def trimPadding (cs : List Char) : List Char :=
  ((cs.dropWhile isPadding).reverse.dropWhile isPadding).reverse

/-- A run of decimal digits: how many there are and the number they write. -/
structure DigitRun where
  count : Nat
  value : Nat
deriving DecidableEq, Repr

/-- The run that goes on with one more digit. -/
def DigitRun.push (run : DigitRun) (digit : Nat) : DigitRun :=
  ⟨run.count + 1, 10 * run.value + digit⟩

/-- Goes on with a run of digits; a low line is passed only between two digits. -/
def readDigitsFrom (run : DigitRun) : List Char → DigitRun × List Char
  | [] => (run, [])
  | '_' :: c :: rest =>
    match digitValue? c with
    | some digit =>
      if run.count = 0 then (run, '_' :: c :: rest) else readDigitsFrom (run.push digit) rest
    | none => (run, '_' :: c :: rest)
  | c :: rest =>
    match digitValue? c with
    | some digit => readDigitsFrom (run.push digit) rest
    | none => (run, c :: rest)

/-- The longest run of digits at the front of a text, and what follows it. -/
def readDigits (cs : List Char) : DigitRun × List Char :=
  readDigitsFrom ⟨0, 0⟩ cs

/-- An optional sign, and what follows it. -/
def readSign : List Char → Bool × List Char
  | '-' :: rest => (true, rest)
  | '+' :: rest => (false, rest)
  | cs => (false, cs)

/-- A whole number that takes up the whole text. -/
def readInt? (cs : List Char) : Option Int :=
  let (negative, rest) := readSign (trimPadding cs)
  let (run, rest) := readDigits rest
  if run.count = 0 || !rest.isEmpty then none
  else some (if negative then -(run.value : Int) else run.value)

/-- A fractional part, if a point and digits or the end of the digits follow. -/
def readFraction : List Char → DigitRun × List Char
  | '.' :: rest => readDigits rest
  | cs => (⟨0, 0⟩, cs)

/-- An exponent that takes up the whole text; the empty text stands for the exponent zero. -/
def readExponent? : List Char → Option Int
  | [] => some 0
  | c :: rest =>
    if c = 'e' || c = 'E' then
      let (negative, rest) := readSign rest
      let (run, rest) := readDigits rest
      if run.count = 0 || !rest.isEmpty then none
      else some (if negative then -(run.value : Int) else run.value)
    else none

/-- An optional minus sign, digits, and optionally a point and digits. -/
def isPlainNumber (cs : List Char) : Bool :=
  let digits := match cs with | '-' :: rest => rest | _ => cs
  let rest := digits.dropWhile isDecimalDigit
  !(digits.takeWhile isDecimalDigit).isEmpty &&
    match rest with
    | [] => true
    | '.' :: fraction => !fraction.isEmpty && fraction.all isDecimalDigit
    | _ => false

end MarkupTidy.Number

namespace MarkupTidy.Binary64

open MarkupTidy.Number

/-- An unsigned number in decimal notation that takes up the whole text. -/
def readUnsigned? (negative : Bool) (cs : List Char) : Option Binary64 :=
  let (whole, rest) := readDigits cs
  let (fraction, rest) := readFraction rest
  if whole.count + fraction.count = 0 then none
  else
    (readExponent? rest).map fun exponent =>
      ofDecimal negative (whole.value * Nat.pow 10 fraction.count + fraction.value)
        (exponent - fraction.count)

/-- The number that a text writes, to double precision. -/
def read? (cs : List Char) : Option Binary64 :=
  let (negative, rest) := readSign (trimPadding cs)
  let word := rest.map Char.toLower
  if word = "inf".toList || word = "infinity".toList then some (.infinity negative)
  else if word = "nan".toList then some .nan
  else readUnsigned? negative rest

end MarkupTidy.Binary64
