import MarkupTidy.Proofs.Markup.Passage

/-! # The alternatives of a tag

A reader of tags has a few alternatives.  For each of them: the equation that holds when it is
taken, and for each reader the list of all alternatives under which it answers.

* `readValue_cases`, `readAttributes_cases`, `readOpening_cases`, `readClosing_cases`: what must
  have been there when something was read; `readAttributes_induction` goes through all attributes.
* `readAttributes_spread`, `readAttributes_named`, …: what is read from what is there. -/

namespace MarkupTidy.Markup

open MarkupTidy.Text

/-! ### Blanks -/

theorem stops_trimLeft (cs : List Char) : Stops isBlank (trimLeft cs) :=
  stops_dropWhile cs

theorem trimLeft_of_stops {cs : List Char} (hstop : Stops isBlank cs) : trimLeft cs = cs :=
  dropWhile_append_of_stops (List.forall_mem_nil _) hstop

/-- A text is blanks and what trimming leaves; the blanks are also trimmed in front of any other
text that stops. -/
theorem exists_blanks (cs : List Char) : ∃ blanks, cs = blanks ++ trimLeft cs ∧
    ∀ other, Stops isBlank other → trimLeft (blanks ++ other) = other := by
  refine ⟨cs.takeWhile isBlank, ?_, fun other hstop => ?_⟩
  · rw [trimLeft, List.takeWhile_append_dropWhile]
  · exact dropWhile_append_of_stops (forall_mem_takeWhile cs) hstop

theorem isBlank_of_trimLeft_cons {cs tail : List Char} {c : Char} (h : trimLeft cs = c :: tail) :
    isBlank c = false :=
  stops_trimLeft cs c (by rw [h]; rfl)

/-- A text that begins with a character after its blanks does so before any other text. -/
theorem exists_blanks_cons {cs tail : List Char} {c : Char} (h : trimLeft cs = c :: tail) :
    ∃ blanks, cs = blanks ++ c :: tail ∧ ∀ other, trimLeft (blanks ++ c :: other) = c :: other := by
  obtain ⟨blanks, hcs, hblanks⟩ := exists_blanks cs
  rw [h] at hcs
  exact ⟨blanks, hcs, fun other => hblanks _ (stops_cons (isBlank_of_trimLeft_cons h))⟩

theorem trimLeft_space (cs : List Char) : trimLeft (' ' :: cs) = trimLeft cs :=
  rfl

/-! ### Names -/

theorem nameRead?_eq_none {c : Char} {cs : List Char} (h : isNameStart c = false) :
    Name.read? (c :: cs) = none := by
  rw [Name.read?, if_neg (by simp [h])]

theorem head?_of_nameRead? {cs name after : List Char} (h : Name.read? cs = some (name, after)) :
    ∃ c tail, cs = c :: tail ∧ isNameStart c = true := by
  cases cs with
  | nil => simp [Name.read?] at h
  | cons c tail =>
    refine ⟨c, tail, rfl, ?_⟩
    cases hstart : isNameStart c with
    | true => rfl
    | false =>
      rw [nameRead?_eq_none hstart] at h
      simp at h

theorem ne_of_isNameStart {c d : Char} (hc : isNameStart c = true) (hd : isNameStart d = false) :
    c ≠ d := by
  rintro rfl
  simp [hc] at hd

/-! ### Values -/

theorem readValue_flag {name : String} {cs : List Char} (h : ∀ rest, trimLeft cs ≠ '=' :: rest) :
    readValue name cs = .ok (.flag, cs) := by
  unfold readValue
  split
  · rename_i rest heq
    exact absurd heq (h rest)
  · rfl

theorem readValue_expression (name : String) {cs rest body source after : List Char}
    (heq : trimLeft cs = '=' :: rest) (hbrace : trimLeft rest = '\x7b' :: body)
    (hread : readExpression? body = some (source, after)) :
    readValue name cs = .ok (expressionValue name source, after) := by
  simp only [readValue, heq, hbrace, hread]

theorem readValue_text (name : String) {cs rest value after : List Char}
    (heq : trimLeft cs = '=' :: rest)
    (hread : readQuotedValue? (trimLeft rest) = some (value, after)) :
    readValue name cs = .ok (.text (String.ofList value), after) := by
  simp only [readValue, heq]
  split
  · rename_i body hbrace
    rw [hbrace] at hread
    simp [readQuotedValue?] at hread
  · rw [hread]

/-- A value is absent, an expression or a quoted text. -/
theorem readValue_cases {name : String} {cs after : List Char} {value : AttributeValue}
    (h : readValue name cs = .ok (value, after)) :
    ((∀ rest, trimLeft cs ≠ '=' :: rest) ∧ value = .flag ∧ after = cs) ∨
    (∃ rest body source, trimLeft cs = '=' :: rest ∧ trimLeft rest = '\x7b' :: body ∧
      readExpression? body = some (source, after) ∧ value = expressionValue name source) ∨
    (∃ rest inside, trimLeft cs = '=' :: rest ∧
      readQuotedValue? (trimLeft rest) = some (inside, after) ∧
      value = .text (String.ofList inside)) := by
  unfold readValue at h
  split at h
  · rename_i rest heq
    split at h
    · rename_i body hbrace
      split at h
      · rename_i source after' hread
        simp only [Except.ok.injEq, Prod.mk.injEq] at h
        obtain ⟨rfl, rfl⟩ := h
        exact Or.inr (Or.inl ⟨rest, body, source, heq, hbrace, hread, rfl⟩)
      · simp at h
    · split at h
      · rename_i inside after' hread
        simp only [Except.ok.injEq, Prod.mk.injEq] at h
        obtain ⟨rfl, rfl⟩ := h
        exact Or.inr (Or.inr ⟨rest, inside, heq, hread, rfl⟩)
      · simp at h
  · rename_i hne
    simp only [Except.ok.injEq, Prod.mk.injEq] at h
    exact Or.inl ⟨fun rest heq => hne rest heq, h.1.symm, h.2.symm⟩

/-- After an equals sign and a brace, a value is an expression. -/
theorem readValue_cases_of_brace {name : String} {cs rest body after : List Char}
    {value : AttributeValue} (heq : trimLeft cs = '=' :: rest) (hbrace : trimLeft rest = '\x7b' :: body)
    (h : readValue name cs = .ok (value, after)) :
    ∃ source, readExpression? body = some (source, after) ∧ value = expressionValue name source := by
  simp only [readValue, heq, hbrace] at h
  split at h
  · rename_i source after' hread
    simp only [Except.ok.injEq, Prod.mk.injEq] at h
    obtain ⟨rfl, rfl⟩ := h
    exact ⟨source, hread, rfl⟩
  · simp at h

/-! ### Attributes -/

theorem readAttributes_selfEnd {cs rest : List Char} (h : trimLeft cs = '/' :: '>' :: rest) :
    readAttributes cs = .ok ([], true, rest) := by
  rw [readAttributes.eq_def]
  split <;> simp_all

theorem readAttributes_end {cs rest : List Char} (h : trimLeft cs = '>' :: rest) :
    readAttributes cs = .ok ([], false, rest) := by
  rw [readAttributes.eq_def]
  split <;> simp_all

/-- One attribute in front of those that were read. -/
def consAttribute (a : Attribute) (read : Attributes × Bool × List Char) :
    Attributes × Bool × List Char :=
  (a :: read.1, read.2)

theorem readAttributes_spread {cs body source after : List Char}
    (h : trimLeft cs = '\x7b' :: body) (hread : readExpression? body = some (source, after)) :
    readAttributes cs =
      (readAttributes after).map (consAttribute ⟨"", .expression (String.ofList source)⟩) := by
  rw [readAttributes.eq_def]
  split
  · simp_all
  · simp_all
  · rename_i body' hbody
    rw [h, List.cons.injEq] at hbody
    obtain ⟨-, rfl⟩ := hbody
    split
    · simp_all
    · rename_i source' after' hread'
      rw [hread, Option.some.injEq, Prod.mk.injEq] at hread'
      obtain ⟨rfl, rfl⟩ := hread'
      dsimp only
      cases readAttributes after <;> rfl
  · rename_i hne
    exact absurd h (hne body)

theorem readAttributes_named {cs name afterName after : List Char} {value : AttributeValue}
    (hname : Name.read? (trimLeft cs) = some (name, afterName))
    (hvalue : readValue (String.ofList name) afterName = .ok (value, after)) :
    readAttributes cs =
      (readAttributes after).map (consAttribute ⟨String.ofList name, value⟩) := by
  obtain ⟨c, tail, hc, hstart⟩ := head?_of_nameRead? hname
  have hslash : c ≠ '/' := ne_of_isNameStart hstart (by decide)
  have hend : c ≠ '>' := ne_of_isNameStart hstart (by decide)
  have hbrace : c ≠ '\x7b' := ne_of_isNameStart hstart (by decide)
  rw [readAttributes.eq_def]
  split
  · rename_i hs
    rw [hs, List.cons.injEq] at hc
    exact absurd hc.1.symm hslash
  · rename_i hs
    rw [hs, List.cons.injEq] at hc
    exact absurd hc.1.symm hend
  · rename_i hs
    rw [hs, List.cons.injEq] at hc
    exact absurd hc.1.symm hbrace
  · split
    · simp_all
    · rename_i name' afterName' hname'
      rw [hname, Option.some.injEq, Prod.mk.injEq] at hname'
      obtain ⟨rfl, rfl⟩ := hname'
      split
      · simp_all
      · rename_i value' after' hvalue'
        rw [hvalue, Except.ok.injEq, Prod.mk.injEq] at hvalue'
        obtain ⟨rfl, rfl⟩ := hvalue'
        dsimp only
        cases readAttributes after <;> rfl

/-- Attributes end with the tag, or go on after a spread or after a named attribute. -/
theorem readAttributes_cases {cs rest : List Char} {attributes : Attributes} {closed : Bool}
    (h : readAttributes cs = .ok (attributes, closed, rest)) :
    (trimLeft cs = '/' :: '>' :: rest ∧ attributes = [] ∧ closed = true) ∨
    (trimLeft cs = '>' :: rest ∧ attributes = [] ∧ closed = false) ∨
    (∃ body source after more, trimLeft cs = '\x7b' :: body ∧
      readExpression? body = some (source, after) ∧
      readAttributes after = .ok (more, closed, rest) ∧
      attributes = ⟨"", .expression (String.ofList source)⟩ :: more) ∨
    (∃ name afterName value after more, Name.read? (trimLeft cs) = some (name, afterName) ∧
      readValue (String.ofList name) afterName = .ok (value, after) ∧
      readAttributes after = .ok (more, closed, rest) ∧
      attributes = ⟨String.ofList name, value⟩ :: more) := by
  revert h
  fun_cases readAttributes cs with
  | case1 _ hs =>
    intro h
    simp only [Except.ok.injEq, Prod.mk.injEq] at h
    obtain ⟨rfl, rfl, rfl⟩ := h
    exact Or.inl ⟨hs, rfl, rfl⟩
  | case2 _ hs =>
    intro h
    simp only [Except.ok.injEq, Prod.mk.injEq] at h
    obtain ⟨rfl, rfl, rfl⟩ := h
    exact Or.inr (Or.inl ⟨hs, rfl, rfl⟩)
  | case3 | case4 | case6 | case7 | case8 => simp
  | case5 body hs source after hread _ more _ _ hmore =>
    intro h
    simp only [Except.ok.injEq, Prod.mk.injEq] at h
    obtain ⟨rfl, rfl, rfl⟩ := h
    exact Or.inr (Or.inr (Or.inl ⟨body, source, after, more, hs, hread, hmore, rfl⟩))
  | case9 name afterName value after hvalue more _ _ hmore _ _ _ hname =>
    intro h
    simp only [Except.ok.injEq, Prod.mk.injEq] at h
    obtain ⟨rfl, rfl, rfl⟩ := h
    exact Or.inr (Or.inr (Or.inr ⟨name, afterName, value, after, more, hname, hvalue, hmore, rfl⟩))

/-- What holds at the end of a tag, and of attributes with a spread or a named attribute in front of
them, holds of all attributes that are read. -/
theorem readAttributes_induction {rest : List Char} {closed : Bool}
    {motive : List Char → Attributes → Prop}
    (selfEnd : ∀ cs, closed = true → trimLeft cs = '/' :: '>' :: rest → motive cs [])
    (ending : ∀ cs, closed = false → trimLeft cs = '>' :: rest → motive cs [])
    (spread : ∀ cs body source after more, trimLeft cs = '\x7b' :: body →
      readExpression? body = some (source, after) → motive after more →
      motive cs (⟨"", .expression (String.ofList source)⟩ :: more))
    (named : ∀ cs name afterName value after more,
      Name.read? (trimLeft cs) = some (name, afterName) →
      readValue (String.ofList name) afterName = .ok (value, after) → motive after more →
      motive cs (⟨String.ofList name, value⟩ :: more))
    {cs : List Char} {attributes : Attributes}
    (h : readAttributes cs = .ok (attributes, closed, rest)) : motive cs attributes := by
  fun_induction readAttributes cs generalizing attributes with
  | case1 cs _ hs =>
    simp only [Except.ok.injEq, Prod.mk.injEq] at h
    obtain ⟨rfl, hclosed, rfl⟩ := h
    exact selfEnd cs hclosed.symm hs
  | case2 cs _ hs =>
    simp only [Except.ok.injEq, Prod.mk.injEq] at h
    obtain ⟨rfl, hclosed, rfl⟩ := h
    exact ending cs hclosed.symm hs
  | case3 | case4 | case6 | case7 | case8 => simp at h
  | case5 cs body hs source after hread _ more _ _ hmore ih =>
    simp only [Except.ok.injEq, Prod.mk.injEq] at h
    obtain ⟨rfl, rfl, rfl⟩ := h
    exact spread cs body source after more hs hread (ih hmore)
  | case9 cs name afterName value after hvalue more _ _ hmore _ _ _ hname _ ih =>
    simp only [Except.ok.injEq, Prod.mk.injEq] at h
    obtain ⟨rfl, rfl, rfl⟩ := h
    exact named cs name afterName value after more hname hvalue (ih hmore)

/-- At a brace, attributes go on with a spread. -/
theorem readAttributes_cases_of_brace {cs body rest : List Char} {attributes : Attributes}
    {closed : Bool} (hbrace : trimLeft cs = '\x7b' :: body)
    (h : readAttributes cs = .ok (attributes, closed, rest)) :
    ∃ source after more, readExpression? body = some (source, after) ∧
      attributes = ⟨"", .expression (String.ofList source)⟩ :: more := by
  obtain ⟨hs, _, _⟩ | ⟨hs, _, _⟩ | ⟨body', source, after, more, hs, hread, _, heq⟩ |
    ⟨name, afterName, _, _, _, hname, _, _, _⟩ := readAttributes_cases h
  · simp [hbrace] at hs
  · simp [hbrace] at hs
  · rw [hbrace, List.cons.injEq] at hs
    rw [← hs.2] at hread
    exact ⟨source, after, more, hread, heq⟩
  · rw [hbrace, nameRead?_eq_none (by decide)] at hname
    simp at hname

/-- At a name, attributes go on with a named one. -/
theorem readAttributes_cases_of_name {cs name afterName rest : List Char} {attributes : Attributes}
    {closed : Bool} (hname : Name.read? (trimLeft cs) = some (name, afterName))
    (h : readAttributes cs = .ok (attributes, closed, rest)) :
    ∃ value after more, readValue (String.ofList name) afterName = .ok (value, after) ∧
      attributes = ⟨String.ofList name, value⟩ :: more := by
  obtain ⟨hs, _, _⟩ | ⟨hs, _, _⟩ | ⟨_, _, _, _, hs, _, _, _⟩ |
    ⟨name', afterName', value, after, more, hname', hvalue, _, heq⟩ := readAttributes_cases h
  · rw [hs, nameRead?_eq_none (by decide)] at hname
    simp at hname
  · rw [hs, nameRead?_eq_none (by decide)] at hname
    simp at hname
  · rw [hs, nameRead?_eq_none (by decide)] at hname
    simp at hname
  · rw [hname, Option.some.injEq, Prod.mk.injEq] at hname'
    obtain ⟨rfl, rfl⟩ := hname'
    exact ⟨value, after, more, hvalue, heq⟩

/-! ### Opening and closing tags -/

theorem readOpening_named {cs name afterName rest : List Char} {attributes : Attributes}
    {closed : Bool} (hname : Name.read? (trimLeft cs) = some (name, afterName))
    (hread : readAttributes afterName = .ok (attributes, closed, rest)) :
    readOpening cs = .ok (⟨String.ofList name, attributes, closed⟩, rest) := by
  unfold readOpening
  split
  · have hnone : Name.read? (trimLeft ('>' :: ‹List Char›)) = none := nameRead?_eq_none (by decide)
    rw [hnone] at hname
    simp at hname
  · simp only [hname, hread]

/-- An opening tag is that of a fragment or has a name and attributes. -/
theorem readOpening_cases {cs rest : List Char} {opening : Opening}
    (h : readOpening cs = .ok (opening, rest)) :
    (cs = '>' :: rest ∧ opening = ⟨"", [], false⟩) ∨
    (∃ name afterName attributes closed, Name.read? (trimLeft cs) = some (name, afterName) ∧
      readAttributes afterName = .ok (attributes, closed, rest) ∧
      opening = ⟨String.ofList name, attributes, closed⟩) := by
  unfold readOpening at h
  split at h
  · simp only [Except.ok.injEq, Prod.mk.injEq] at h
    obtain ⟨rfl, rfl⟩ := h
    exact Or.inl ⟨rfl, rfl⟩
  · dsimp only at h
    split at h
    · simp at h
    · rename_i name afterName hname
      split at h
      · simp at h
      · rename_i attributes closed rest' hread
        simp only [Except.ok.injEq, Prod.mk.injEq] at h
        obtain ⟨rfl, rfl⟩ := h
        exact Or.inr ⟨name, afterName, attributes, closed, hname, hread, rfl⟩

theorem readClosing_named {cs name afterName rest : List Char}
    (hname : Name.read? (trimLeft cs) = some (name, afterName))
    (hend : trimLeft afterName = '>' :: rest) :
    readClosing cs = .ok (⟨String.ofList name, (trimLeft cs).length⟩, rest) := by
  simp only [readClosing, hname, hend]

/-- A closing tag has a name and ends. -/
theorem readClosing_cases {cs rest : List Char} {closing : ClosingName}
    (h : readClosing cs = .ok (closing, rest)) :
    ∃ name afterName, Name.read? (trimLeft cs) = some (name, afterName) ∧
      trimLeft afterName = '>' :: rest ∧
      closing = ⟨String.ofList name, (trimLeft cs).length⟩ := by
  unfold readClosing at h
  dsimp only at h
  split at h
  · simp at h
  · rename_i name afterName hname
    split at h
    · rename_i rest' hend
      simp only [Except.ok.injEq, Prod.mk.injEq] at h
      obtain ⟨rfl, rfl⟩ := h
      exact ⟨name, afterName, hname, hend, rfl⟩
    · simp at h

end MarkupTidy.Markup
