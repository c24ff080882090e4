import MarkupTidy.Text.Search

/-! # Control sequences

A control sequence tells a terminal how to show what follows it.  It begins with an escape and a
bracket; parameters, intermediate characters and one final character follow, each from a range of
its own.

* `afterControl?`: what follows a control sequence.
* `withoutControls`: a text as it reads where no terminal shows it.
* `withoutControls_eq_self`: a text without an escape stays as it is. -/

namespace MarkupTidy.Text

/-- A character that begins every control sequence. -/
def escape : Char := '\x1b'

/-- A parameter of a control sequence. -/
def isControlParameter (c : Char) : Bool :=
  '0' ≤ c && c ≤ '?'

/-- A character between the parameters and the end of a control sequence. -/
def isControlIntermediate (c : Char) : Bool :=
  ' ' ≤ c && c ≤ '/'

/-- The last character of a control sequence. -/
def isControlFinal (c : Char) : Bool :=
  '@' ≤ c && c ≤ '~'

/-- What follows a control sequence at the front of a text. -/
def afterControl? (cs : List Char) : Option (List Char) :=
  match afterText? [escape, '['] cs with
  | none => none
  | some rest =>
    match (rest.dropWhile isControlParameter).dropWhile isControlIntermediate with
    | [] => none
    | c :: rest => if isControlFinal c then some rest else none

/-- A text without its control sequences. -/
def withoutControls (cs : List Char) : List Char :=
  removeAll (fun cs => (afterControl? cs).map ((), ·)) cs

theorem afterControl?_eq_none {c : Char} (h : c ≠ escape) (cs : List Char) :
    afterControl? (c :: cs) = none := by
  simp [afterControl?, afterText?, Ne.symm h]

/-- A text without an escape is its own reading. -/
theorem withoutControls_eq_self {cs : List Char} (h : escape ∉ cs) : withoutControls cs = cs :=
  removeAll_eq_self fun c hc rest => by
    rw [afterControl?_eq_none (fun he => h (he ▸ hc))]
    rfl

end MarkupTidy.Text
