/-! # Halves of surrogate pairs

An escape can name half of a surrogate pair on its own.  Such a half is no character and has no
encoding, but a text that was read has to keep it.  The private-use character of the last plane
that ends in the same four hexadecimal digits stands for it.

* `standIn`, `half?`: the character that stands for a half, and back.
* `ofCode`, `codePoint`: a character by its code, where halves have codes too, and back.
* `isWellFormed`: whether a text has no halves.
* `half?_standIn`, `codePoint_ofCode`: nothing is lost on the way. -/

namespace MarkupTidy.Text

/-- Whether a code is half of a surrogate pair. -/
def isHalf (code : Nat) : Bool :=
  0xD800 ≤ code && code ≤ 0xDFFF

/-- The first code of the last plane. -/
def lastPlane : Nat := 0x100000

/-- The character that stands for a half. -/
def standIn (half : Nat) : Char :=
  Char.ofNat (lastPlane + half)

/-- The half that a character stands for. -/
def half? (c : Char) : Option Nat :=
  if isHalf (c.toNat - lastPlane) then some (c.toNat - lastPlane) else none

/-- The character of a code. -/
def ofCode (code : Nat) : Char :=
  if isHalf code then standIn code else Char.ofNat code

/-- The code of a character, or of the half that it stands for. -/
def codePoint (c : Char) : Nat :=
  (half? c).getD c.toNat

/-- Whether a text has no halves, so that it can be encoded. -/
def isWellFormed (cs : List Char) : Bool :=
  cs.all fun c => (half? c).isNone

/-- A text with each half as an escape. -/
def escapeHalves (cs : List Char) : List Char :=
  cs.flatMap fun c =>
    match half? c with
    | some half => '\\' :: 'u' :: Nat.toDigits 16 half
    | none => [c]

theorem toNat_ofNat {code : Nat} (h : code.isValidChar) : (Char.ofNat code).toNat = code := by
  rw [Char.ofNat, dif_pos h]
  rfl

theorem half?_standIn {half : Nat} (h : isHalf half = true) : half? (standIn half) = some half := by
  have hrange : 0xD800 ≤ half ∧ half ≤ 0xDFFF := by simpa [isHalf] using h
  have hvalid : (lastPlane + half).isValidChar := Or.inr (by simp only [lastPlane]; omega)
  rw [half?, standIn, toNat_ofNat hvalid, Nat.add_sub_cancel_left, if_pos h]

/-- A half keeps its code. -/
theorem codePoint_ofCode {half : Nat} (h : isHalf half = true) :
    codePoint (ofCode half) = half := by
  rw [ofCode, if_pos h, codePoint, half?_standIn h, Option.getD_some]

end MarkupTidy.Text
