import MarkupTidy.Text.WordChar

/-! # Passages without markup

Inside code and expressions, string literals, template literals and comments are passed over as
wholes, so that a bracket in them means nothing.

* `Verbatim.read?`: the literal or comment at the front of a text.
* `readCode`: code up to the next opening of markup.
* `readExpression?`: the source of an expression up to the brace that closes it.

Each reader splits its input (`append_of_read?`, `readCode_append`, `readExpression?_append`). -/

namespace MarkupTidy.Markup

open MarkupTidy.Text

/-- Where a reader passes on what another one has read, with something put to it, it stops where that
one has stopped. -/
theorem exists_of_map_eq_some {α β γ : Type} {put : α × β → γ × β} {f : α → γ}
    {found? : Option (α × β)} {c : γ} {rest : β} (h : found?.map put = some (c, rest))
    (hput : ∀ a b, put (a, b) = (f a, b)) : ∃ a, found? = some (a, rest) ∧ c = f a := by
  obtain ⟨⟨a, b⟩, hfound, heq⟩ := Option.map_eq_some_iff.1 h
  obtain ⟨rfl, rfl⟩ := Prod.mk.inj ((hput a b).symm.trans heq)
  exact ⟨a, hfound, rfl⟩

namespace Verbatim

/-- The rest of a block comment, its end included. -/
def commentRest? : List Char → Option (List Char × List Char)
  | [] => none
  | '*' :: '/' :: rest => some (['*', '/'], rest)
  | c :: rest => (commentRest? rest).map fun (passage, after) => (c :: passage, after)

/-- The rest of a literal, its closing quote included; a backslash covers the next character, and
only a literal of several lines holds a line feed. -/
def literalRest? (quote : Char) (severalLines : Bool) : List Char → Option (List Char × List Char)
  | [] => none
  | '\\' :: c :: rest =>
    (literalRest? quote severalLines rest).map fun (passage, after) => ('\\' :: c :: passage, after)
  | c :: rest =>
    if c = quote then some ([c], rest)
    else if c = '\\' || (c = '\n' && !severalLines) then none
    else
      (literalRest? quote severalLines rest).map fun (passage, after) => (c :: passage, after)

/-- Whether two slashes after this character begin no comment: after a colon they belong to an
address, after a word to a division or a pattern. -/
def forbidsLineComment (before : Option Char) : Bool :=
  before.any fun c => c == ':' || isWordChar c

/-- The literal or comment at the front of a text, given the character before it. -/
def read? (before : Option Char) : List Char → Option (List Char × List Char)
  | '/' :: '*' :: rest =>
    (commentRest? rest).map fun (passage, after) => ('/' :: '*' :: passage, after)
  | '/' :: '/' :: rest =>
    if forbidsLineComment before then none
    else some ('/' :: '/' :: rest.takeWhile (· ≠ '\n'), rest.dropWhile (· ≠ '\n'))
  | c :: rest =>
    if c = '"' || c = '\'' then
      (literalRest? c false rest).map fun (passage, after) => (c :: passage, after)
    else if c = '\x60' then
      (literalRest? c true rest).map fun (passage, after) => (c :: passage, after)
    else none
  | [] => none

theorem append_of_commentRest? {cs passage after : List Char}
    (h : commentRest? cs = some (passage, after)) : passage ++ after = cs := by
  fun_induction commentRest? cs generalizing passage after with
  | case1 => simp at h
  | case2 rest => simp only [Option.some.injEq, Prod.mk.injEq] at h; simp [← h.1, ← h.2]
  | case3 c rest _ ih =>
    obtain ⟨inner, hinner, rfl⟩ := exists_of_map_eq_some h fun _ _ => rfl
    simp [ih hinner]

theorem append_of_literalRest? {quote : Char} {severalLines : Bool} {cs passage after : List Char}
    (h : literalRest? quote severalLines cs = some (passage, after)) : passage ++ after = cs := by
  fun_induction literalRest? quote severalLines cs generalizing passage after with
  | case1 => simp at h
  | case2 c rest ih =>
    obtain ⟨inner, hinner, rfl⟩ := exists_of_map_eq_some h fun _ _ => rfl
    simp [ih hinner]
  | case3 c rest => simp only [Option.some.injEq, Prod.mk.injEq] at h; simp [← h.1, ← h.2]
  | case4 => simp at h
  | case5 c rest _ _ _ ih =>
    obtain ⟨inner, hinner, rfl⟩ := exists_of_map_eq_some h fun _ _ => rfl
    simp [ih hinner]

theorem append_of_read? {before : Option Char} {cs passage after : List Char}
    (h : read? before cs = some (passage, after)) : passage ++ after = cs := by
  unfold read? at h
  split at h
  · obtain ⟨inner, hinner, rfl⟩ := exists_of_map_eq_some h fun _ _ => rfl
    simp [append_of_commentRest? hinner]
  · split at h
    · simp at h
    · simp only [Option.some.injEq, Prod.mk.injEq] at h
      simp [← h.1, ← h.2]
  · split at h
    · obtain ⟨inner, hinner, rfl⟩ := exists_of_map_eq_some h fun _ _ => rfl
      simp [append_of_literalRest? hinner]
    · split at h
      · obtain ⟨inner, hinner, rfl⟩ := exists_of_map_eq_some h fun _ _ => rfl
        simp [append_of_literalRest? hinner]
      · simp at h
  · simp at h

theorem ne_nil_of_read? {before : Option Char} {cs passage after : List Char}
    (h : read? before cs = some (passage, after)) : passage ≠ [] := by
  unfold read? at h
  split at h
  · obtain ⟨inner, -, rfl⟩ := exists_of_map_eq_some h fun _ _ => rfl
    simp
  · split at h
    · simp at h
    · simp only [Option.some.injEq, Prod.mk.injEq] at h
      simp [← h.1]
  · split at h
    · obtain ⟨inner, -, rfl⟩ := exists_of_map_eq_some h fun _ _ => rfl
      simp
    · split at h
      · obtain ⟨inner, -, rfl⟩ := exists_of_map_eq_some h fun _ _ => rfl
        simp
      · simp at h
  · simp at h

theorem length_lt_of_read? {before : Option Char} {cs passage after : List Char}
    (h : read? before cs = some (passage, after)) : after.length < cs.length := by
  have hlen := congrArg List.length (append_of_read? h)
  have hpos := List.length_pos_iff.mpr (ne_nil_of_read? h)
  simp only [List.length_append] at hlen
  omega

end Verbatim

/-- Whether an angle bracket after this character is a comparison or a type argument. -/
def forbidsMarkup (before : Option Char) : Bool :=
  before.any fun c => isWordChar c || c == ')' || c == ']' || c == '.' || c == '$'

/-- Whether markup opens at the front of a text, given the character before it. -/
def opensMarkup (before : Option Char) : List Char → Bool
  | '<' :: c :: _ => (c.isAlpha || c == '>') && !forbidsMarkup before
  | _ => false

/-- Code up to the next opening of markup, and what follows it. -/
def readCode (before : Option Char) (cs : List Char) : List Char × List Char :=
  match cs with
  | [] => ([], [])
  | c :: rest =>
    match h : Verbatim.read? before (c :: rest) with
    | some (passage, after) =>
      have := Verbatim.length_lt_of_read? h
      let (code, remainder) := readCode passage.getLast? after
      (passage ++ code, remainder)
    | none =>
      if opensMarkup before (c :: rest) then ([], c :: rest)
      else
        let (code, remainder) := readCode (some c) rest
        (c :: code, remainder)
termination_by cs.length
decreasing_by all_goals (simp only [List.length_cons] at *; omega)

/-- The source of an expression whose opening brace has been read, and what follows its closing
brace; `depth` counts the braces opened since. -/
def readExpressionFrom (depth : Nat) (before : Option Char) (cs : List Char) :
    Option (List Char × List Char) :=
  match cs with
  | [] => none
  | c :: rest =>
    match h : Verbatim.read? before (c :: rest) with
    | some (passage, after) =>
      have := Verbatim.length_lt_of_read? h
      (readExpressionFrom depth passage.getLast? after).map fun (source, remainder) =>
        (passage ++ source, remainder)
    | none =>
      if c = '\x7d' then
        match depth with
        | 0 => some ([], rest)
        | outer + 1 =>
          (readExpressionFrom outer (some c) rest).map fun (source, remainder) =>
            (c :: source, remainder)
      else
        (readExpressionFrom (if c = '\x7b' then depth + 1 else depth) (some c) rest).map
          fun (source, remainder) => (c :: source, remainder)
termination_by cs.length
decreasing_by all_goals (simp only [List.length_cons] at *; omega)

/-- The source of an expression whose opening brace has just been read, and what follows its
closing brace. -/
def readExpression? (cs : List Char) : Option (List Char × List Char) :=
  readExpressionFrom 0 (some '\x7b') cs

theorem readCode_append (before : Option Char) (cs : List Char) :
    (readCode before cs).1 ++ (readCode before cs).2 = cs := by
  fun_induction readCode before cs with
  | case1 => rfl
  | case2 before c rest passage after h _ code remainder he ih =>
    rw [he] at ih
    simp only at ih
    simp [ih, Verbatim.append_of_read? h]
  | case3 => rfl
  | case4 before c rest h _ code remainder he ih =>
    rw [he] at ih
    simpa using ih

theorem readExpressionFrom_append {depth : Nat} {before : Option Char}
    {cs source after : List Char} (h : readExpressionFrom depth before cs = some (source, after)) :
    source ++ '\x7d' :: after = cs := by
  fun_induction readExpressionFrom depth before cs generalizing source after with
  | case1 => simp at h
  | case2 depth before c rest passage rest' hv _ ih =>
    obtain ⟨inner, hinner, rfl⟩ := exists_of_map_eq_some h fun _ _ => rfl
    simp [ih hinner, Verbatim.append_of_read? hv]
  | case3 => simp only [Option.some.injEq, Prod.mk.injEq] at h; simp [← h.1, ← h.2]
  | case4 before rest _ outer ih =>
    obtain ⟨inner, hinner, rfl⟩ := exists_of_map_eq_some h fun _ _ => rfl
    simp [ih hinner]
  | case5 depth before c rest _ _ ih =>
    obtain ⟨inner, hinner, rfl⟩ := exists_of_map_eq_some h fun _ _ => rfl
    simp [ih hinner]

theorem readExpression?_append {cs source after : List Char}
    (h : readExpression? cs = some (source, after)) : source ++ '\x7d' :: after = cs :=
  readExpressionFrom_append h

theorem readExpression?_length_lt {cs source after : List Char}
    (h : readExpression? cs = some (source, after)) : after.length < cs.length := by
  have hlen := congrArg List.length (readExpression?_append h)
  simp only [List.length_append, List.length_cons] at hlen
  omega

/-- Where no markup opens, code takes at least one character. -/
theorem readCode_length_lt {before : Option Char} {cs : List Char} (hne : cs ≠ [])
    (h : opensMarkup before cs = false) : (readCode before cs).2.length < cs.length := by
  have happ := congrArg List.length (readCode_append before cs)
  simp only [List.length_append] at happ
  suffices 0 < (readCode before cs).1.length by omega
  cases cs with
  | nil => exact absurd rfl hne
  | cons c rest =>
    unfold readCode
    split
    · rename_i passage after hv
      have := List.length_pos_iff.mpr (Verbatim.ne_nil_of_read? hv)
      simp only [List.length_append]
      omega
    · simp [h]

end MarkupTidy.Markup
