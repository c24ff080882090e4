/-! # UTF-8

The bytes of a text, and the text of bytes that need not be well formed.

* `utf8Bytes`: the bytes of a text.
* `decodeUtf8`: the text of bytes; the longest beginning of a sequence that cannot be continued
  becomes one replacement character, and so does each byte that begins no sequence. -/

namespace MarkupTidy.Text

/-- The bytes of a text. -/
def utf8Bytes (cs : List Char) : List Nat :=
  cs.flatMap fun c => (String.utf8EncodeChar c).map UInt8.toNat

/-- The character that stands for bytes that are none. -/
def replacementChar : Char := '\uFFFD'

/-- The beginning of a sequence: the value of its first byte, how many bytes follow, and the least
and greatest byte that may come next.  The bounds leave out what a shorter sequence can say, the
surrogates, and all beyond the last code point. -/
structure Utf8Start where
  value : Nat
  more : Nat
  least : Nat
  greatest : Nat

/-- The sequence that a byte begins. -/
def utf8Start? (b : Nat) : Option Utf8Start :=
  if b < 0x80 then some ⟨b, 0, 0x80, 0xBF⟩
  else if b < 0xC2 then none
  else if b < 0xE0 then some ⟨b % 0x20, 1, 0x80, 0xBF⟩
  else if b < 0xF0 then
    some ⟨b % 0x10, 2, if b = 0xE0 then 0xA0 else 0x80, if b = 0xED then 0x9F else 0xBF⟩
  else if b < 0xF5 then
    some ⟨b % 0x08, 3, if b = 0xF0 then 0x90 else 0x80, if b = 0xF4 then 0x8F else 0xBF⟩
  else none

/-- Goes on with a sequence; the outcome is its value, if it is complete, and the bytes after. -/
def continueUtf8 (value least greatest : Nat) : Nat → List Nat → Option Nat × List Nat
  | 0, bytes => (some value, bytes)
  | _ + 1, [] => (none, [])
  | more + 1, b :: bytes =>
    if least ≤ b && b ≤ greatest then continueUtf8 (value * 0x40 + b % 0x40) 0x80 0xBF more bytes
    else (none, b :: bytes)

theorem length_continueUtf8_le (value least greatest more : Nat) (bytes : List Nat) :
    (continueUtf8 value least greatest more bytes).2.length ≤ bytes.length := by
  induction more generalizing value least greatest bytes with
  | zero => simp [continueUtf8]
  | succ more ih =>
    cases bytes with
    | nil => simp [continueUtf8]
    | cons b bytes =>
      simp only [continueUtf8]
      split
      · exact Nat.le_succ_of_le (ih _ _ _ bytes)
      · simp

/-- The text of bytes. -/
def decodeUtf8 (bytes : List Nat) : List Char :=
  match bytes with
  | [] => []
  | b :: rest =>
    match utf8Start? b with
    | none => replacementChar :: decodeUtf8 rest
    | some start =>
      have := length_continueUtf8_le start.value start.least start.greatest start.more rest
      let r := continueUtf8 start.value start.least start.greatest start.more rest
      (r.1.map Char.ofNat).getD replacementChar :: decodeUtf8 r.2
termination_by bytes.length

end MarkupTidy.Text
