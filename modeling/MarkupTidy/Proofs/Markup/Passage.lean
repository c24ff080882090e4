import MarkupTidy.Markup.Tag

/-! # What readers owe to the text behind them

A reader decides where a name, a literal or an expression ends by looking at the text in front of
it.  The facts here say how little of the text behind that end it has seen.

* `Stops`: a text that does not go on with characters of a class.
* `Verbatim.read?_append`: a literal or comment is read the same before any text that begins alike.
* `Verbatim.read?_eq_none_of_append`: what is no literal in a text is none in its beginnings.
* `readExpressionFrom_of_prefix`: an expression is read the same when what follows it is cut off. -/

namespace MarkupTidy.Markup

open MarkupTidy.Text

/-! ### Runs of characters -/

/-- The text does not begin with a character of the class. -/
def Stops (p : Char → Bool) (cs : List Char) : Prop :=
  ∀ c, cs.head? = some c → p c = false

section
variable {p : Char → Bool}

theorem stops_nil : Stops p [] := by
  intro c h
  simp at h

theorem stops_cons {c : Char} {cs : List Char} (h : p c = false) : Stops p (c :: cs) := by
  intro d hd
  rw [List.head?_cons, Option.some.injEq] at hd
  rw [← hd]
  exact h

theorem stops_dropWhile (cs : List Char) : Stops p (cs.dropWhile p) := by
  intro c h
  exact Bool.eq_false_iff.mpr fun hp => by
    have := List.head?_dropWhile_not p cs
    rw [h] at this
    simp [hp] at this

/-- A text that stops still stops when its end is cut off. -/
theorem Stops.of_append {cs : List Char} (rest : List Char) (h : Stops p (cs ++ rest)) :
    Stops p cs := by
  intro c hc
  cases cs with
  | nil => simp at hc
  | cons d cs => exact h c (by simpa using hc)

theorem Stops.append {cs rest : List Char} (h : Stops p cs) (hrest : Stops p rest) :
    Stops p (cs ++ rest) := by
  cases cs with
  | nil => exact hrest
  | cons d cs => exact fun c hc => h c hc

theorem takeWhile_append_of_stops {cs rest : List Char} (hall : ∀ c ∈ cs, p c = true)
    (hstop : Stops p rest) : (cs ++ rest).takeWhile p = cs := by
  rw [List.takeWhile_append_of_pos hall]
  cases rest with
  | nil => simp
  | cons c rest => simp [hstop c rfl]

theorem dropWhile_append_of_stops {cs rest : List Char} (hall : ∀ c ∈ cs, p c = true)
    (hstop : Stops p rest) : (cs ++ rest).dropWhile p = rest := by
  rw [List.dropWhile_append_of_pos hall]
  cases rest with
  | nil => rfl
  | cons c rest => simp [hstop c rfl]

theorem forall_mem_takeWhile (cs : List Char) : ∀ c ∈ cs.takeWhile p, p c = true := by
  intro c hc
  exact List.all_eq_true.mp List.all_takeWhile c hc

end

/-! ### Literals and comments -/

namespace Verbatim

theorem ne_nil_of_commentRest? {cs passage after : List Char}
    (h : commentRest? cs = some (passage, after)) : passage ≠ [] := by
  fun_cases commentRest? cs with
  | case1 => simp [commentRest?] at h
  | case2 tail =>
    simp only [commentRest?, Option.some.injEq, Prod.mk.injEq] at h
    simp [← h.1]
  | case3 c tail hne =>
    rw [commentRest?] at h
    · obtain ⟨p, -, rfl⟩ := exists_of_map_eq_some h fun _ _ => rfl
      simp
    · exact hne

theorem commentRest?_append {cs passage after : List Char}
    (h : commentRest? cs = some (passage, after)) (rest : List Char) :
    commentRest? (passage ++ rest) = some (passage, rest) := by
  fun_induction commentRest? cs generalizing passage after with
  | case1 => simp at h
  | case2 tail =>
    simp only [Option.some.injEq, Prod.mk.injEq] at h
    rw [← h.1]
    rfl
  | case3 c tail hne ih =>
    obtain ⟨p, hp, rfl⟩ := exists_of_map_eq_some h fun _ _ => rfl
    rw [List.cons_append, commentRest?, ih hp]
    · rfl
    · intro tail' hc hslash
      obtain ⟨d, q, rfl⟩ := List.exists_cons_of_ne_nil (ne_nil_of_commentRest? hp)
      rw [List.cons_append, List.cons.injEq] at hslash
      refine hne (q ++ after) hc ?_
      rw [← append_of_commentRest? hp, hslash.1, List.cons_append]

theorem literalRest?_append {quote : Char} (hquote : quote ≠ '\\') {severalLines : Bool}
    {cs passage after : List Char} (h : literalRest? quote severalLines cs = some (passage, after)) (rest : List Char) :
    literalRest? quote severalLines (passage ++ rest) = some (passage, rest) := by
  fun_induction literalRest? quote severalLines cs generalizing passage after with
  | case1 => simp at h
  | case2 c tail ih =>
    obtain ⟨p, hp, rfl⟩ := exists_of_map_eq_some h fun _ _ => rfl
    rw [List.cons_append, List.cons_append, literalRest?, ih hp]
    rfl
  | case3 tail _ =>
    simp only [Option.some.injEq, Prod.mk.injEq] at h
    rw [← h.1, List.cons_append, literalRest?, if_pos rfl]
    · rfl
    · intro d tail' hc _
      exact absurd hc hquote
  | case4 => simp at h
  | case5 c tail hne hc hstop ih =>
    obtain ⟨p, hp, rfl⟩ := exists_of_map_eq_some h fun _ _ => rfl
    rw [List.cons_append, literalRest?, if_neg hc, if_neg hstop, ih hp]
    · rfl
    · intro d tail' hd _
      simp [hd] at hstop

theorem read?_quote {before : Option Char} {c : Char} (hc : Style.isQuote c = true)
    (tail : List Char) : read? before (c :: tail) =
      (literalRest? c (c == '\x60') tail).map fun (passage, after) => (c :: passage, after) := by
  simp only [Style.isQuote, Bool.or_eq_true, beq_iff_eq] at hc
  obtain (rfl | rfl) | rfl := hc <;> rfl

/-- Except at the start of a literal or comment, nothing is read. -/
theorem read?_eq_none {before : Option Char} {c : Char} {tail : List Char} (hslash : c ≠ '/')
    (hquote : Style.isQuote c = false) : read? before (c :: tail) = none := by
  simp only [Style.isQuote, Bool.or_eq_false_iff, beq_eq_false_iff_ne] at hquote
  obtain ⟨⟨hdouble, hsingle⟩, htemplate⟩ := hquote
  rw [read?, if_neg (by simp [hdouble, hsingle]), if_neg htemplate]
  · rintro _ rfl
    exact absurd rfl hslash
  · rintro _ rfl
    exact absurd rfl hslash

/-- What is read is either closed, and then read before any text, or a comment up to the end of
its line. -/
theorem closed_or_line_of_read? {before : Option Char} {cs passage after : List Char}
    (h : read? before cs = some (passage, after)) :
    (∀ rest, read? before (passage ++ rest) = some (passage, rest)) ∨
      (forbidsLineComment before = false ∧ ∃ tail, cs = '/' :: '/' :: tail ∧
        passage = '/' :: '/' :: tail.takeWhile (· ≠ '\n') ∧
        after = tail.dropWhile (· ≠ '\n')) := by
  cases cs with
  | nil => simp [read?] at h
  | cons c tail =>
    by_cases hquote : Style.isQuote c = true
    · rw [read?_quote hquote] at h
      obtain ⟨p, hp, rfl⟩ := exists_of_map_eq_some h fun _ _ => rfl
      have hne : c ≠ '\\' := by rintro rfl; simp [Style.isQuote] at hquote
      refine Or.inl fun rest => ?_
      rw [List.cons_append, read?_quote hquote, literalRest?_append hne hp]
      rfl
    · unfold read? at h
      split at h
      · obtain ⟨p, hp, rfl⟩ := exists_of_map_eq_some h fun _ _ => rfl
        refine Or.inl fun rest => ?_
        rw [List.cons_append, List.cons_append, read?, commentRest?_append hp]
        rfl
      · rename_i rest _
        split at h
        · simp at h
        · rename_i hforbids
          simp only [Option.some.injEq, Prod.mk.injEq] at h
          exact Or.inr ⟨by simpa using hforbids, rest, by assumption, h.1.symm, h.2.symm⟩
      · rename_i d tail' _ _ heq
        rw [List.cons.injEq] at heq
        rw [← heq.1] at h
        simp only [Style.isQuote, Bool.not_eq_true, Bool.or_eq_false_iff,
          beq_eq_false_iff_ne] at hquote
        rw [if_neg (by simp [hquote.1.1, hquote.1.2]), if_neg hquote.2] at h
        simp at h
      · simp at h

/-- A literal or comment is read the same before any text that begins alike, if it begins. -/
theorem read?_append {before : Option Char} {cs passage after : List Char}
    (h : read? before cs = some (passage, after)) {rest : List Char}
    (halike : ∀ c, rest.head? = some c → after.head? = some c) :
    read? before (passage ++ rest) = some (passage, rest) := by
  obtain hclosed | ⟨hforbids, tail, _, rfl, rfl⟩ := closed_or_line_of_read? h
  · exact hclosed rest
  · have hstop : Stops (fun c => decide (c ≠ '\n')) rest := by
      intro c hc
      exact stops_dropWhile tail c (halike c hc)
    have hall := forall_mem_takeWhile (p := fun c => decide (c ≠ '\n')) tail
    rw [List.cons_append, List.cons_append, read?, if_neg (by simp [hforbids]),
      takeWhile_append_of_stops hall hstop, dropWhile_append_of_stops hall hstop]

/-- What is no literal or comment in a text is none in the beginnings of the text. -/
theorem read?_eq_none_of_append {before : Option Char} {cs : List Char} (rest : List Char)
    (h : read? before (cs ++ rest) = none) : read? before cs = none := by
  cases hread : read? before cs with
  | none => rfl
  | some found =>
    obtain ⟨passage, after⟩ := found
    obtain hclosed | ⟨hforbids, tail, rfl, _, _⟩ := closed_or_line_of_read? hread
    · rw [← append_of_read? hread, List.append_assoc, hclosed] at h
      simp at h
    · simp [read?, hforbids] at h

end Verbatim

/-! ### Expressions -/

theorem readExpressionFrom_verbatim {depth : Nat} {before : Option Char}
    {cs passage after : List Char} (h : Verbatim.read? before cs = some (passage, after)) :
    readExpressionFrom depth before cs =
      (readExpressionFrom depth passage.getLast? after).map fun (source, rest) =>
        (passage ++ source, rest) := by
  cases cs with
  | nil => simp [Verbatim.read?] at h
  | cons c tail =>
    rw [readExpressionFrom.eq_def]
    dsimp only
    split
    · rename_i p a hread
      rw [h, Option.some.injEq, Prod.mk.injEq] at hread
      rw [hread.1, hread.2]
    · rename_i hread
      rw [h] at hread
      simp at hread

theorem readExpressionFrom_plain {depth : Nat} {before : Option Char} {c : Char}
    {tail : List Char} (h : Verbatim.read? before (c :: tail) = none) :
    readExpressionFrom depth before (c :: tail) =
      if c = '\x7d' then
        match depth with
        | 0 => some ([], tail)
        | outer + 1 =>
          (readExpressionFrom outer (some c) tail).map fun (source, rest) => (c :: source, rest)
      else
        (readExpressionFrom (if c = '\x7b' then depth + 1 else depth) (some c) tail).map
          fun (source, rest) => (c :: source, rest) := by
  rw [readExpressionFrom.eq_def]
  dsimp only
  split
  · rename_i hread
    rw [h] at hread
    simp at hread
  · rfl

/-- Where no literal or comment begins in front of an expression, none begins when the text that follows
the expression is cut off. -/
theorem read?_eq_none_of_isPrefix {depth : Nat} {before before' : Option Char} {c : Char}
    {tail source rest after : List Char} (hnone : Verbatim.read? before (c :: tail) = none)
    (h : readExpressionFrom depth before' tail = some (source, after)) (hrest : rest <+: after) :
    Verbatim.read? before (c :: (source ++ '\x7d' :: rest)) = none := by
  obtain ⟨cut, rfl⟩ := hrest
  refine Verbatim.read?_eq_none_of_append cut ?_
  rw [← hnone, ← readExpressionFrom_append h]
  simp

/-- An expression is read the same when the text that follows it is cut off. -/
theorem readExpressionFrom_of_prefix {depth : Nat} {before : Option Char}
    {cs source after : List Char}
    (h : readExpressionFrom depth before cs = some (source, after)) {rest : List Char}
    (hrest : rest <+: after) :
    readExpressionFrom depth before (source ++ '\x7d' :: rest) = some (source, rest) := by
  fun_induction readExpressionFrom depth before cs generalizing source after with
  | case1 => simp at h
  | case2 depth before c tail passage middle hread _ ih =>
    obtain ⟨p, hp, rfl⟩ := exists_of_map_eq_some h fun _ _ => rfl
    have hmiddle := readExpressionFrom_append hp
    have halike : ∀ d, (p ++ '\x7d' :: rest).head? = some d → middle.head? = some d := by
      intro d hd
      rw [← hmiddle]
      cases p <;> simpa using hd
    rw [List.append_assoc, readExpressionFrom_verbatim (Verbatim.read?_append hread halike),
      ih hp hrest]
    rfl
  | case3 before tail hread =>
    simp only [Option.some.injEq, Prod.mk.injEq] at h
    obtain ⟨rfl, rfl⟩ := h
    obtain ⟨cut, rfl⟩ := hrest
    rw [List.nil_append, readExpressionFrom_plain (Verbatim.read?_eq_none_of_append cut hread),
      if_pos rfl]
  | case4 before tail outer hread ih =>
    obtain ⟨p, hp, rfl⟩ := exists_of_map_eq_some h fun _ _ => rfl
    rw [List.cons_append, readExpressionFrom_plain (read?_eq_none_of_isPrefix hread hp hrest),
      if_pos rfl]
    simp only
    rw [ih hp hrest]
    rfl
  | case5 depth before c tail hread hc ih =>
    simp only [dite_eq_ite] at ih
    obtain ⟨p, hp, rfl⟩ := exists_of_map_eq_some h fun _ _ => rfl
    rw [List.cons_append, readExpressionFrom_plain (read?_eq_none_of_isPrefix hread hp hrest),
      if_neg hc, ih hp hrest]
    rfl

theorem readExpression?_of_prefix {cs source after : List Char}
    (h : readExpression? cs = some (source, after)) {rest : List Char} (hrest : rest <+: after) :
    readExpression? (source ++ '\x7d' :: rest) = some (source, rest) :=
  readExpressionFrom_of_prefix h hrest

end MarkupTidy.Markup
