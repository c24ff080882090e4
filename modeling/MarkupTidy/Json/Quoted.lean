import MarkupTidy.Text.Surrogate

/-! # Quoted text in JSON

A text in double quotes, in which quotes, backslashes and controls are escaped.  Beyond that the
writer may keep to printable ASCII; it then writes every other character as UTF-16 code units. -/

namespace MarkupTidy.Json

/-- A digit of a lower-case hexadecimal number. -/
def hexDigit (n : Nat) : Char :=
  if n < 10 then Char.ofNat (0x30 + n) else Char.ofNat (0x57 + n)

/-- The four hexadecimal digits of a number below `0x10000`. -/
def hex4 (n : Nat) : List Char :=
  [hexDigit (n / 0x1000 % 16), hexDigit (n / 0x100 % 16), hexDigit (n / 0x10 % 16),
    hexDigit (n % 16)]

/-- A code unit as an escape. -/
def unitEscape (n : Nat) : List Char :=
  '\\' :: 'u' :: hex4 n

/-- The escape of a code point: one code unit, or a surrogate pair. -/
def codePointEscape (n : Nat) : List Char :=
  if n < 0x10000 then unitEscape n
  else unitEscape (0xD800 + (n - 0x10000) / 0x400) ++ unitEscape (0xDC00 + (n - 0x10000) % 0x400)

/-- The written form of one character. -/
def writeChar (asciiOnly : Bool) (c : Char) : List Char :=
  if c = '"' then ['\\', '"']
  else if c = '\\' then ['\\', '\\']
  else if c = '\n' then ['\\', 'n']
  else if c = '\r' then ['\\', 'r']
  else if c = '\t' then ['\\', 't']
  else if c.toNat = 0x0C then ['\\', 'f']
  else if c.toNat = 0x08 then ['\\', 'b']
  else if c.toNat < 0x20 then unitEscape c.toNat
  else if asciiOnly && 0x7F ≤ c.toNat then codePointEscape (Text.codePoint c)
  else [c]

/-- A text in double quotes. -/
def quoted (asciiOnly : Bool) (cs : List Char) : List Char :=
  '"' :: (cs.flatMap (writeChar asciiOnly) ++ ['"'])

end MarkupTidy.Json
