import MarkupTidy.Text.Utf8
import MarkupTidy.Url.Host

/-! # Form encoding

Texts inside a query: letters, digits and four marks stand for themselves, a blank is a plus sign,
and every other byte is a percent sign with two hexadecimal digits.

* `formEncode`, `formDecode`: writing and reading.  Reading leaves alone what is no proper escape,
  and reads the bytes between two characters outside ASCII on their own. -/

namespace MarkupTidy.Url

open MarkupTidy.Text

/-- A character that stands for itself. -/
def isUnreserved (c : Char) : Bool :=
  c.isAlphanum || c = '_' || c = '.' || c = '-' || c = '~'

/-- A hexadecimal digit by its value. -/
def hexCapital (n : Nat) : Char :=
  if n < 10 then Char.ofNat (0x30 + n) else Char.ofNat (0x37 + n)

/-- A byte as an escape. -/
def escapeByte (b : Nat) : List Char :=
  ['%', hexCapital (b / 16), hexCapital (b % 16)]

/-- A text in form encoding. -/
def formEncode (cs : List Char) : List Char :=
  cs.flatMap fun c =>
    if isUnreserved c then [c]
    else if c = ' ' then ['+']
    else (utf8Bytes [c]).flatMap escapeByte

/-- The value of a hexadecimal digit. -/
def hexDigitValue (c : Char) : Nat :=
  if c.isDigit then c.toNat - 0x30
  else if c.isUpper then c.toNat - 0x37
  else c.toNat - 0x57

/-- The bytes of ASCII text with its escapes undone. -/
def unescapeBytes : List Char → List Nat
  | '%' :: a :: b :: rest =>
    if isHexDigit a && isHexDigit b then
      (hexDigitValue a * 16 + hexDigitValue b) :: unescapeBytes rest
    else '%'.toNat :: unescapeBytes (a :: b :: rest)
  | c :: rest => c.toNat :: unescapeBytes rest
  | [] => []

/-- Undoes the escapes of a text whose leading ASCII characters, last one first, are at hand. -/
def unescapeFrom (ascii : List Char) : List Char → List Char
  | [] => decodeUtf8 (unescapeBytes ascii.reverse)
  | c :: rest =>
    if c.toNat < 0x80 then unescapeFrom (c :: ascii) rest
    else decodeUtf8 (unescapeBytes ascii.reverse) ++ c :: unescapeFrom [] rest

/-- The text that a form encoding stands for. -/
def formDecode (cs : List Char) : List Char :=
  unescapeFrom [] (cs.map fun c => if c = '+' then ' ' else c)

end MarkupTidy.Url
