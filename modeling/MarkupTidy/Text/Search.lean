/-! # Searching and cutting texts

* `afterText?`: what follows a given beginning.
* `containsText`, `afterFirst?`, `replaceText`: a text inside another; occurrences are found from
  the front and do not overlap.
* `splitOn`, `cutAt?`, `afterLast`: a text cut at every occurrence of a character, at the first one,
  or at the last one.
* `findAll`, `removeAll`: what a reader finds in a text, from the front and without overlap, and
  the characters that belong to none of it. -/

namespace MarkupTidy.Text

/-- What follows a given text at the front of another. -/
def afterText? : List Char → List Char → Option (List Char)
  | [], cs => some cs
  | _ :: _, [] => none
  | p :: ps, c :: cs => if p = c then afterText? ps cs else none

/-- Whether a text begins with another. -/
def startsWith (start cs : List Char) : Bool :=
  start.isPrefixOf cs

/-- Whether a text ends with another. -/
def endsWith (ending cs : List Char) : Bool :=
  ending.isSuffixOf cs

/-- Whether a text occurs in another. -/
def containsText (part : List Char) : List Char → Bool
  | [] => part.isEmpty
  | c :: cs => startsWith part (c :: cs) || containsText part cs

theorem afterText?_eq_some {start cs rest : List Char} :
    afterText? start cs = some rest ↔ cs = start ++ rest := by
  induction start generalizing cs with
  | nil => simp [afterText?]
  | cons p ps ih =>
    cases cs with
    | nil => simp [afterText?]
    | cons c cs =>
      by_cases h : p = c
      · simp [afterText?, h, ih]
      · have h' : ¬c = p := fun he => h he.symm
        simp [afterText?, h, h']

theorem length_le_of_afterText? {start cs rest : List Char} (h : afterText? start cs = some rest) :
    rest.length ≤ cs.length := by
  rw [afterText?_eq_some] at h
  simp [h]

/-- What follows the first occurrence of a text. -/
def afterFirst? (part : List Char) : List Char → Option (List Char)
  | [] => afterText? part []
  | c :: cs =>
    match afterText? part (c :: cs) with
    | some rest => some rest
    | none => afterFirst? part cs

/-- Every occurrence of a nonempty text replaced by another. -/
def replaceText (old new cs : List Char) : List Char :=
  match cs with
  | [] => []
  | c :: rest =>
    match old with
    | [] => c :: rest
    | o :: os =>
      if o = c then
        match h : afterText? os rest with
        | some after =>
          have := length_le_of_afterText? h
          new ++ replaceText (o :: os) new after
        | none => c :: replaceText (o :: os) new rest
      else c :: replaceText (o :: os) new rest
termination_by cs.length

/-- A text cut at every occurrence of a character. -/
def splitOn (separator : Char) : List Char → List (List Char)
  | [] => [[]]
  | c :: rest =>
    if c = separator then [] :: splitOn separator rest
    else
      match splitOn separator rest with
      | [] => [[c]]
      | part :: parts => (c :: part) :: parts

/-- What follows the last occurrence of a character; the whole text if there is none. -/
def afterLast (separator : Char) (cs : List Char) : List Char :=
  (cs.reverse.takeWhile (· ≠ separator)).reverse

/-- A text cut at the first occurrence of a character. -/
def cutAt? (separator : Char) (cs : List Char) : Option (List Char × List Char) :=
  match cs.dropWhile (· ≠ separator) with
  | [] => none
  | _ :: after => some (cs.takeWhile (· ≠ separator), after)

theorem not_mem_afterLast (separator : Char) (cs : List Char) :
    separator ∉ afterLast separator cs := by
  intro h
  have hall := List.all_takeWhile (p := fun c => decide (c ≠ separator)) (l := cs.reverse)
  rw [List.all_eq_true] at hall
  simpa using hall separator (List.mem_reverse.mp h)

theorem afterLast_append (separator : Char) (before : List Char) {after : List Char}
    (h : separator ∉ after) : afterLast separator (before ++ separator :: after) = after := by
  have hpos : ∀ c ∈ after.reverse, decide (c ≠ separator) = true := fun c hc =>
    decide_eq_true fun he => h (he ▸ List.mem_reverse.mp hc)
  rw [afterLast, List.reverse_append, List.reverse_cons, List.append_assoc,
    List.takeWhile_append_of_pos hpos]
  simp

theorem splitOn_ne_nil (separator : Char) (cs : List Char) : splitOn separator cs ≠ [] := by
  cases cs with
  | nil => simp [splitOn]
  | cons c rest =>
    simp only [splitOn]
    split
    · simp
    · split <;> simp

theorem intercalate_splitOn (separator : Char) (cs : List Char) :
    List.intercalate [separator] (splitOn separator cs) = cs := by
  induction cs with
  | nil => simp [splitOn, List.intercalate]
  | cons c rest ih =>
    simp only [splitOn]
    split
    · rename_i h
      subst h
      cases hs : splitOn c rest with
      | nil => exact absurd hs (splitOn_ne_nil c rest)
      | cons part parts =>
        rw [hs] at ih
        simp only [List.intercalate, List.intersperse] at ih ⊢
        simpa using ih
    · split
      · rename_i hs
        exact absurd hs (splitOn_ne_nil separator rest)
      · rename_i part parts hs
        rw [hs] at ih
        cases parts with
        | nil =>
          simp only [List.intercalate, List.intersperse] at ih ⊢
          simpa using ih
        | cons p ps =>
          simp only [List.intercalate, List.intersperse] at ih ⊢
          simpa using ih

/-- A piece of a text: a character, or something that was found there. -/
inductive Piece (α : Type) where
  | plain (c : Char)
  | found (a : α)

/-- A text as pieces, given a reader for the front of a text; a reader that takes nothing has found
nothing. -/
def pieces {α : Type} (read : List Char → Option (α × List Char)) (cs : List Char) :
    List (Piece α) :=
  match cs with
  | [] => []
  | c :: rest =>
    match read (c :: rest) with
    | some (a, after) =>
      if after.length ≤ rest.length then .found a :: pieces read after
      else .plain c :: pieces read rest
    | none => .plain c :: pieces read rest
termination_by cs.length

/-- What a reader finds in a text. -/
def findAll {α : Type} (read : List Char → Option (α × List Char)) (cs : List Char) : List α :=
  (pieces read cs).filterMap fun
    | .found a => some a
    | .plain _ => none

/-- A text without what a reader finds in it. -/
def removeAll {α : Type} (read : List Char → Option (α × List Char)) (cs : List Char) : List Char :=
  (pieces read cs).filterMap fun
    | .found _ => none
    | .plain c => some c

/-- Where a reader finds nothing, nothing is removed. -/
theorem removeAll_eq_self {α : Type} {read : List Char → Option (α × List Char)} {cs : List Char}
    (h : ∀ c ∈ cs, ∀ rest, read (c :: rest) = none) : removeAll read cs = cs := by
  induction cs with
  | nil => simp [removeAll, pieces]
  | cons c rest ih =>
    have hrest := ih fun d hd => h d (List.mem_cons_of_mem c hd)
    rw [removeAll] at hrest ⊢
    rw [pieces, h c List.mem_cons_self rest]
    simpa using hrest

end MarkupTidy.Text
