import MarkupTidy.Text.Surrogate

/-! # File names

What a file system takes as the name of a file.  A name is a sequence of bytes, in most cases those
of a text; a byte that belongs to no text shows as half of a surrogate pair from a range of its
own.  Any other half cannot be part of a name, and neither can the null character.

* `nameFault?`: why a text cannot name a file.
* `nameBytes`: the length of a name. -/

namespace MarkupTidy

open MarkupTidy.Text

/-- Why a text cannot name a file. -/
inductive NameFault where
  /-- Halves of surrogate pairs: their number, the first of them, and its place in the text. -/
  | halves (count half place : Nat)
  | null
deriving DecidableEq, Repr

/-- The wording of a fault. -/
def NameFault.message : NameFault → String
  | halves count half place =>
    let found :=
      if count = 1 then " '" ++ String.ofList (escapeHalves [standIn half]) ++ "'" else "s"
    let last := if count = 1 then "" else "-" ++ toString (place + count - 1)
    "'utf-8' codec can't encode character" ++ found ++ " in position " ++ toString place ++ last
      ++ ": surrogates not allowed"
  | null => "embedded null byte"

/-- Whether a half shows a byte of a name that belongs to no text. -/
def isByteHalf (half : Nat) : Bool :=
  0xDC80 ≤ half && half ≤ 0xDCFF

/-- The halves in a text that cannot be part of a name, for a text that begins at a place. -/
def halvesFrom (place : Nat) : List Char → Option NameFault
  | [] => none
  | c :: rest =>
    match half? c with
    | none => halvesFrom (place + 1) rest
    | some half =>
      if isByteHalf half then halvesFrom (place + 1) rest
      else some (.halves (1 + (rest.takeWhile fun c => (half? c).isSome).length) half place)

/-- Why a text cannot name a file, if it cannot. -/
def nameFault? (name : String) : Option NameFault :=
  match halvesFrom 0 name.toList with
  | some fault => some fault
  | none => if name.toList.any fun c => c.toNat = 0 then some .null else none

/-- The number of bytes in a name. -/
def nameBytes (name : String) : Nat :=
  name.toList.foldl (fun bytes c => bytes + if (half? c).isSome then 1 else c.utf8Size) 0

end MarkupTidy
