import MarkupTidy.Json.Quoted
import MarkupTidy.Text.Printable

/-! # Quoted values in messages

A text as a message shows it: in single quotes, or in double quotes if it holds a single and no
double one.  Backslashes and the quote are escaped; characters that are not printable are written
by their code. -/

namespace MarkupTidy.Text

/-- A code in the given number of hexadecimal digits. -/
def hexCode : Nat → Nat → List Char
  | 0, _ => []
  | digits + 1, n => hexCode digits (n / 16) ++ [Json.hexDigit (n % 16)]

/-- A character between quotes of the given kind. -/
def quotedChar (quote c : Char) : List Char :=
  if c = quote || c = '\\' then ['\\', c]
  else if c = '\t' then ['\\', 't']
  else if c = '\n' then ['\\', 'n']
  else if c = '\r' then ['\\', 'r']
  else if isPrintable c then [c]
  else
    let code := codePoint c
    if code < 0x100 then '\\' :: 'x' :: hexCode 2 code
    else if code < 0x10000 then '\\' :: 'u' :: hexCode 4 code
    else '\\' :: 'U' :: hexCode 8 code

/-- The quote that is put around a text. -/
def quoteFor (cs : List Char) : Char :=
  if cs.contains '\'' && !cs.contains '"' then '"' else '\''

/-- A text as a message shows it. -/
def quoted (cs : List Char) : List Char :=
  let quote := quoteFor cs
  quote :: (cs.flatMap (quotedChar quote) ++ [quote])

/-- A text as a message shows it, as a text. -/
def quotedText (value : String) : String :=
  String.ofList (quoted value.toList)

end MarkupTidy.Text
