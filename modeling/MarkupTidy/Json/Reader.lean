import MarkupTidy.Json.Value
import MarkupTidy.Number.Reader
import MarkupTidy.Text.Surrogate

/-! # Reading JSON

The grammar of JSON, to which `NaN`, `Infinity` and `-Infinity` are added.  A key that an object
gives twice keeps its first place and takes its last value.  An escape that names half of a
surrogate pair joins with the other half if that follows at once, and stays half otherwise.

Each reader returns what follows together with the fact that it is shorter, on which the
recursion rests. -/

namespace MarkupTidy.Json

open MarkupTidy.Number

/-- What follows a piece of a text. -/
abbrev Shorter (cs : List Char) := { rest : List Char // rest.length < cs.length }

/-- White space between the pieces of a JSON text. -/
def isSpace (c : Char) : Bool :=
  c == ' ' || c == '\t' || c == '\n' || c == '\r'

/-- A text without the white space at its front. -/
def dropSpace (cs : List Char) : List Char :=
  cs.dropWhile isSpace

theorem length_dropSpace_le (cs : List Char) : (dropSpace cs).length ≤ cs.length :=
  (List.dropWhile_suffix isSpace).length_le

/-! ### Quoted texts -/

/-- The value of a hexadecimal digit. -/
def hexValue? (c : Char) : Option Nat :=
  if '0' ≤ c && c ≤ '9' then some (c.toNat - 0x30)
  else if 'a' ≤ c && c ≤ 'f' then some (c.toNat - 0x57)
  else if 'A' ≤ c && c ≤ 'F' then some (c.toNat - 0x37)
  else none

/-- A code unit of four hexadecimal digits. -/
def unit? (a b c d : Char) : Option Nat := do
  let a ← hexValue? a
  let b ← hexValue? b
  let c ← hexValue? c
  let d ← hexValue? d
  some (((a * 16 + b) * 16 + c) * 16 + d)

/-- The character that a short escape stands for. -/
def escaped? (c : Char) : Option Char :=
  match c with
  | '"' => some '"'
  | '\\' => some '\\'
  | '/' => some '/'
  | 'b' => some (Char.ofNat 0x08)
  | 'f' => some (Char.ofNat 0x0C)
  | 'n' => some '\n'
  | 'r' => some '\r'
  | 't' => some '\t'
  | _ => none

/-- The code units of a quoted text after its opening quote, and what follows its closing one.  A
character that is not escaped is given as its code point. -/
def readUnits : List Char → Option (List Nat × List Char)
  | [] => none
  | '"' :: rest => some ([], rest)
  | '\\' :: 'u' :: a :: b :: c :: d :: rest => do
    let unit ← unit? a b c d
    let (units, after) ← readUnits rest
    some (unit :: units, after)
  | '\\' :: c :: rest => do
    let e ← escaped? c
    let (units, after) ← readUnits rest
    some (e.toNat :: units, after)
  | c :: rest =>
    if c = '\\' || c.toNat < 0x20 then none
    else do
      let (units, after) ← readUnits rest
      some (c.toNat :: units, after)

/-- Code units as characters: halves that follow each other are joined. -/
def joinUnits : List Nat → List Char
  | [] => []
  | [u] => [Text.ofCode u]
  | u :: v :: rest =>
    if 0xD800 ≤ u && u ≤ 0xDBFF && 0xDC00 ≤ v && v ≤ 0xDFFF then
      Char.ofNat (0x10000 + (u - 0xD800) * 0x400 + (v - 0xDC00)) :: joinUnits rest
    else Text.ofCode u :: joinUnits (v :: rest)

theorem length_lt_of_readUnits {cs rest : List Char} {units : List Nat}
    (h : readUnits cs = some (units, rest)) : rest.length < cs.length := by
  fun_induction readUnits cs generalizing units rest with
  | case1 => simp at h
  | case2 tail => simp only [Option.some.injEq, Prod.mk.injEq] at h; simp [← h.2]
  | case3 a b c d tail ih =>
    simp only [Option.bind_eq_bind, Option.bind_eq_some_iff] at h
    obtain ⟨_, _, ⟨u, r⟩, hr, he⟩ := h
    have := ih hr
    simp only [Option.some.injEq, Prod.mk.injEq] at he
    rw [← he.2]
    simp only [List.length_cons]
    omega
  | case4 c tail _ ih =>
    simp only [Option.bind_eq_bind, Option.bind_eq_some_iff] at h
    obtain ⟨_, _, ⟨u, r⟩, hr, he⟩ := h
    have := ih hr
    simp only [Option.some.injEq, Prod.mk.injEq] at he
    rw [← he.2]
    simp only [List.length_cons]
    omega
  | case5 => simp at h
  | case6 c tail _ _ _ _ ih =>
    simp only [Option.bind_eq_bind, Option.bind_eq_some_iff] at h
    obtain ⟨⟨u, r⟩, hr, he⟩ := h
    have := ih hr
    simp only [Option.some.injEq, Prod.mk.injEq] at he
    rw [← he.2]
    simp only [List.length_cons]
    omega

/-- A quoted text after its opening quote. -/
def readText (cs : List Char) : Option (String × Shorter cs) :=
  match h : readUnits cs with
  | some (units, rest) => some (String.ofList (joinUnits units), ⟨rest, length_lt_of_readUnits h⟩)
  | none => none

/-! ### Numbers and words -/

/-- The longest run of ASCII digits at the front of a text. -/
def asciiDigits (cs : List Char) : List Char :=
  cs.takeWhile Char.isDigit

/-- The whole part of a number: a zero, or digits that do not begin with one. -/
def wholeDigits (cs : List Char) : List Char :=
  match cs with
  | '0' :: _ => ['0']
  | _ => asciiDigits cs

/-- A point and the digits after it, or nothing. -/
def fractionDigits (cs : List Char) : List Char :=
  match cs with
  | '.' :: rest => if (asciiDigits rest).isEmpty then [] else '.' :: asciiDigits rest
  | _ => []

/-- An exponent, or nothing. -/
def exponentDigits (cs : List Char) : List Char :=
  match cs with
  | e :: rest =>
    if e = 'e' || e = 'E' then
      let sign := rest.takeWhile fun c => c == '+' || c == '-'
      if 1 < sign.length then []
      else
        let digits := asciiDigits (rest.drop sign.length)
        if digits.isEmpty then [] else e :: (sign ++ digits)
    else []
  | [] => []

/-- A number: its length in characters and its value. -/
def readNumber? (cs : List Char) : Option (Nat × Value) :=
  let sign := match cs with | '-' :: _ => ['-'] | _ => []
  let rest := cs.drop sign.length
  let whole := wholeDigits rest
  if whole.isEmpty then none
  else
    let fraction := fractionDigits (rest.drop whole.length)
    let exponent := exponentDigits (rest.drop (whole.length + fraction.length))
    let source := sign ++ whole ++ fraction ++ exponent
    if fraction.isEmpty && exponent.isEmpty then
      some (source.length, .int ((readInt? source).getD 0))
    else some (source.length, .float ((Binary64.read? source).getD .nan))

/-- The words that are values. -/
def wordValues : List (List Char × Value) :=
  [("null".toList, .null), ("true".toList, .bool true), ("false".toList, .bool false),
   ("NaN".toList, .float .nan), ("Infinity".toList, .float (.infinity false)),
   ("-Infinity".toList, .float (.infinity true))]

/-- A word or a number: its length in characters and its value. -/
def readScalar? (cs : List Char) : Option (Nat × Value) :=
  match wordValues.find? fun (word, _) => word.isPrefixOf cs with
  | some (word, value) => some (word.length, value)
  | none => readNumber? cs

/-! ### Values -/

mutual
/-- A value at the front of a text that does not begin with white space. -/
def readValue (cs : List Char) : Option (Value × Shorter cs) :=
  match cs with
  | [] => none
  | '"' :: rest => do
    let (value, ⟨after, _⟩) ← readText rest
    some (.text value, ⟨after, by simp only [List.length_cons]; omega⟩)
  | '[' :: rest =>
    have hle := length_dropSpace_le rest
    match hs : dropSpace rest with
    | ']' :: after =>
      some (.array [], ⟨after, by rw [hs] at hle; simp only [List.length_cons] at hle ⊢; omega⟩)
    | start => do
      let (items, ⟨after, _⟩) ← readItems start
      some (.array items, ⟨after, by rw [hs] at hle; simp only [List.length_cons]; omega⟩)
  | '\x7b' :: rest =>
    have hle := length_dropSpace_le rest
    match hs : dropSpace rest with
    | '\x7d' :: after =>
      some (.object [], ⟨after, by rw [hs] at hle; simp only [List.length_cons] at hle ⊢; omega⟩)
    | start => do
      let (entries, ⟨after, _⟩) ← readEntries start
      some (.object (OrderedMap.ofEntries entries),
        ⟨after, by rw [hs] at hle; simp only [List.length_cons]; omega⟩)
  | c :: rest => do
    let (length, value) ← readScalar? (c :: rest)
    some (value, ⟨rest.drop (length - 1), by simp only [List.length_drop, List.length_cons]; omega⟩)
termination_by (cs.length, 0)
decreasing_by
  all_goals
    rw [hs] at hle
    simp only [List.length_cons] at *
    apply Prod.Lex.left
    omega

/-- Items of an array up to its closing bracket. -/
def readItems (cs : List Char) : Option (List Value × Shorter cs) := do
  let (value, ⟨rest, _⟩) ← readValue cs
  have hle := length_dropSpace_le rest
  match hs : dropSpace rest with
  | ']' :: after =>
    some ([value], ⟨after, by rw [hs] at hle; simp only [List.length_cons] at hle; omega⟩)
  | ',' :: more =>
    have hle' := length_dropSpace_le more
    have hlt : (dropSpace more).length < cs.length := by
      rw [hs] at hle; simp only [List.length_cons] at hle; omega
    let (values, ⟨after, _⟩) ← readItems (dropSpace more)
    some (value :: values, ⟨after, by omega⟩)
  | _ => none
termination_by (cs.length, 1)
decreasing_by
  · apply Prod.Lex.right; omega
  · apply Prod.Lex.left; omega

/-- Entries of an object up to its closing brace. -/
def readEntries (cs : List Char) : Option (List (String × Value) × Shorter cs) :=
  match cs with
  | '"' :: start => do
    let (key, ⟨rest, _⟩) ← readText start
    have hle := length_dropSpace_le rest
    match hs : dropSpace rest with
    | ':' :: body =>
      have hle' := length_dropSpace_le body
      have hlt : (dropSpace body).length < ('"' :: start).length := by
        rw [hs] at hle; simp only [List.length_cons] at *; omega
      let (value, ⟨rest', _⟩) ← readValue (dropSpace body)
      have hle'' := length_dropSpace_le rest'
      match hs' : dropSpace rest' with
      | '\x7d' :: after =>
        some ([(key, value)],
          ⟨after, by rw [hs'] at hle''; simp only [List.length_cons] at *; omega⟩)
      | ',' :: more =>
        have hle3 := length_dropSpace_le more
        have hlt' : (dropSpace more).length < ('"' :: start).length := by
          rw [hs'] at hle''; simp only [List.length_cons] at *; omega
        let (entries, ⟨after, _⟩) ← readEntries (dropSpace more)
        some ((key, value) :: entries, ⟨after, by omega⟩)
      | _ => none
    | _ => none
  | _ => none
termination_by (cs.length, 1)
decreasing_by
  all_goals
    apply Prod.Lex.left
    omega
end

/-- The value that a whole text writes. -/
def Value.read? (source : List Char) : Option Value := do
  let (value, ⟨rest, _⟩) ← readValue (dropSpace source)
  if (dropSpace rest).isEmpty then some value else none

end MarkupTidy.Json
