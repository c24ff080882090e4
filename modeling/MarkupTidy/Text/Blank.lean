/-! # Blank characters

Sets of characters are lists of ranges of code points, the form in which the properties of Unicode are
tabled.  The blank ones are white space in the wide sense: the controls that move the cursor, the
separators of information (U+001C to U+001F), the next-line control, the no-break space and every
other space of Unicode.  The zero-width space and the byte order mark are not blank.

* `CharSet`: a set of characters.
* `trim`, `trimLeft`, `trimRight`: a text without the blanks at its ends.
* `afterBlanks?`: what follows one or more blanks.
* `words`: the maximal runs of characters that are not blank. -/

namespace MarkupTidy.Text

/-- A set of characters: inclusive ranges of code points. -/
abbrev CharSet := List (Nat × Nat)

/-- Whether a character lies in one of the ranges. -/
def CharSet.contains (s : CharSet) (c : Char) : Bool :=
  s.any fun (first, last) => first ≤ c.toNat && c.toNat ≤ last

theorem CharSet.contains_append (s t : CharSet) (c : Char) :
    CharSet.contains (s ++ t) c = (s.contains c || t.contains c) := by
  simp [CharSet.contains]

/-- The ranges of blank characters. -/
def blankChars : CharSet := [
  (0x09, 0x0D), (0x1C, 0x20), (0x85, 0x85), (0xA0, 0xA0), (0x1680, 0x1680), (0x2000, 0x200A),
  (0x2028, 0x2029), (0x202F, 0x202F), (0x205F, 0x205F), (0x3000, 0x3000)]

/-- White space in the wide sense. -/
def isBlank (c : Char) : Bool :=
  blankChars.contains c

/-- A text without the blanks at its start. -/
def trimLeft (cs : List Char) : List Char :=
  cs.dropWhile isBlank

/-- A text without the blanks at its end. -/
def trimRight (cs : List Char) : List Char :=
  (cs.reverse.dropWhile isBlank).reverse

/-- A text without the blanks at its ends. -/
def trim (cs : List Char) : List Char :=
  trimRight (trimLeft cs)

theorem length_trimLeft_le (cs : List Char) : (trimLeft cs).length ≤ cs.length :=
  (List.dropWhile_suffix isBlank).length_le

/-- What follows one or more blanks at the front of a text. -/
def afterBlanks? : List Char → Option (List Char)
  | [] => none
  | c :: rest => if isBlank c then some (rest.dropWhile isBlank) else none

/-- Collects words; `current` is the word being read, last character first. -/
def wordsFrom (current : List Char) : List Char → List (List Char)
  | [] => if current.isEmpty then [] else [current.reverse]
  | c :: rest =>
    if isBlank c then
      if current.isEmpty then wordsFrom [] rest else current.reverse :: wordsFrom [] rest
    else wordsFrom (c :: current) rest

/-- The maximal runs of characters that are not blank, in order. -/
def words (cs : List Char) : List (List Char) :=
  wordsFrom [] cs

theorem words_nil : words [] = [] := rfl

end MarkupTidy.Text
