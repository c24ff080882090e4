import MarkupTidy.Proofs.Markup.Step

/-! # Readers are local

What a reader takes from the front of a text does not depend on the text far behind it: when the
text is cut off anywhere after the end of what is taken, the same is taken.

* `Locally`: a reader answers so, and leaves so much, however much of the rest is there.
* `locally_readAttributes`, `locally_readOpening`, `exists_readClosing`: the parts of a tag. -/

namespace MarkupTidy.Markup

open MarkupTidy.Text

/-- The reader takes a beginning of the text and leaves the given rest.  From what it has taken
and any beginning of the rest it makes the given answer. -/
def Locally {α : Type} (read answer : List Char → α) (cs after : List Char) : Prop :=
  ∃ used, cs = used ++ after ∧ ∀ rest, rest <+: after → read (used ++ rest) = answer rest

theorem locally_nameRead? {cs name after : List Char} (h : Name.read? cs = some (name, after)) :
    Locally Name.read? (fun rest => some (name, rest)) cs after := by
  refine ⟨name, (Name.append_of_read? h).symm, fun rest hrest => ?_⟩
  obtain ⟨c, tail, rfl, hstart⟩ := head?_of_nameRead? h
  rw [Name.read?, if_pos hstart, Option.some.injEq, Prod.mk.injEq] at h
  obtain ⟨rfl, rfl⟩ := h
  obtain ⟨cut, hcut⟩ := hrest
  have hstop : Stops isNameChar rest := by
    refine Stops.of_append cut ?_
    rw [hcut]
    exact stops_dropWhile tail
  have hall := forall_mem_takeWhile (p := isNameChar) tail
  rw [List.cons_append, Name.read?, if_pos hstart, takeWhile_append_of_stops hall hstop,
    dropWhile_append_of_stops hall hstop]

/-- A name behind blanks. -/
theorem locally_nameRead?_trimLeft {cs name after : List Char}
    (h : Name.read? (trimLeft cs) = some (name, after)) :
    Locally (fun cs => Name.read? (trimLeft cs)) (fun rest => some (name, rest)) cs after := by
  obtain ⟨c, tail, hc, hstart⟩ := head?_of_nameRead? h
  obtain ⟨blanks, hcs, hblanks⟩ := exists_blanks_cons hc
  obtain ⟨used, hused, hread⟩ := locally_nameRead? h
  have hname := Name.append_of_read? (hread [] List.nil_prefix)
  rw [List.append_nil, List.append_nil] at hname
  obtain ⟨tail', rfl⟩ : ∃ tail', used = c :: tail' := by
    rw [hc] at hused
    cases used with
    | nil => exact absurd hname (Name.ne_nil_of_read? h)
    | cons d tail' =>
      rw [List.cons_append, List.cons.injEq] at hused
      exact ⟨tail', by rw [hused.1]⟩
  refine ⟨blanks ++ c :: tail', ?_, fun rest hrest => ?_⟩
  · rw [List.append_assoc, ← hused, hc]
    exact hcs
  · dsimp only
    rw [List.append_assoc, List.cons_append, hblanks]
    exact hread rest hrest

theorem locally_readQuotedValue? {cs value after : List Char}
    (h : readQuotedValue? cs = some (value, after)) :
    Locally readQuotedValue? (fun rest => some (value, rest)) cs after := by
  cases cs with
  | nil => simp [readQuotedValue?] at h
  | cons q tail =>
    rw [readQuotedValue?] at h
    split at h
    · rename_i hquote
      split at h
      · simp at h
      · rename_i d tail' hdrop
        simp only [Option.some.injEq, Prod.mk.injEq] at h
        obtain ⟨rfl, rfl⟩ := h
        have hd : decide (d ≠ q) = false := by
          refine stops_dropWhile (p := fun c => decide (c ≠ q)) tail d ?_
          rw [hdrop]
          rfl
        have hq : d = q := by simpa using hd
        subst hq
        refine ⟨d :: (tail.takeWhile (· ≠ d) ++ [d]), ?_, fun rest _ => ?_⟩
        · have := List.takeWhile_append_dropWhile (p := fun c => decide (c ≠ d)) (l := tail)
          rw [hdrop] at this
          rw [List.cons_append, List.append_assoc, List.singleton_append, this]
        · have hall := forall_mem_takeWhile (p := fun c => decide (c ≠ d)) tail
          have hstop : Stops (fun c => decide (c ≠ d)) (d :: rest) := stops_cons (by simp)
          rw [List.cons_append, List.append_assoc, List.singleton_append, readQuotedValue?,
            if_pos hquote, takeWhile_append_of_stops hall hstop,
            dropWhile_append_of_stops hall hstop]
    · simp at h

theorem locally_readExpression? {cs source after : List Char}
    (h : readExpression? cs = some (source, after)) :
    Locally readExpression? (fun rest => some (source, rest)) cs after := by
  refine ⟨source ++ ['\x7d'], ?_, fun rest hrest => ?_⟩
  · rw [List.append_assoc]
    exact (readExpression?_append h).symm
  · rw [List.append_assoc]
    exact readExpression?_of_prefix h hrest

theorem locally_readValue {name : String} {cs after : List Char} {value : AttributeValue}
    (h : readValue name cs = .ok (value, after)) :
    Locally (readValue name) (fun rest => .ok (value, rest)) cs after := by
  obtain ⟨hne, rfl, rfl⟩ | ⟨rest, body, source, heq, hbrace, hread, rfl⟩ |
    ⟨rest, inside, heq, hread, rfl⟩ := readValue_cases h
  · refine ⟨[], rfl, fun rest hrest => readValue_flag fun tail htail => ?_⟩
    obtain ⟨cut, rfl⟩ := hrest
    obtain ⟨blanks, hcs, hblanks⟩ := exists_blanks_cons htail
    refine hne (tail ++ cut) ?_
    rw [List.nil_append] at hcs
    rw [hcs, List.append_assoc, List.cons_append, hblanks]
  · obtain ⟨blanks, rfl, hblanks⟩ := exists_blanks_cons heq
    obtain ⟨blanks', rfl, hblanks'⟩ := exists_blanks_cons hbrace
    obtain ⟨used, rfl, hused⟩ := locally_readExpression? hread
    refine ⟨blanks ++ '=' :: (blanks' ++ '\x7b' :: used), by simp, fun rest hrest => ?_⟩
    rw [List.append_assoc, List.cons_append, List.append_assoc, List.cons_append]
    exact readValue_expression name (hblanks _) (hblanks' _) (hused rest hrest)
  · obtain ⟨blanks, rfl, hblanks⟩ := exists_blanks_cons heq
    obtain ⟨q, tail, hq⟩ : ∃ q tail, trimLeft rest = q :: tail := by
      cases hq : trimLeft rest with
      | nil => simp [hq, readQuotedValue?] at hread
      | cons q tail => exact ⟨q, tail, rfl⟩
    obtain ⟨blanks', rfl, hblanks'⟩ := exists_blanks_cons hq
    obtain ⟨used, hcs, hused⟩ := locally_readQuotedValue? hread
    obtain ⟨tail', rfl⟩ : ∃ tail', used = q :: tail' := by
      cases used with
      | nil =>
        have := hused [] List.nil_prefix
        simp [readQuotedValue?] at this
      | cons d tail' =>
        rw [hq, List.cons_append, List.cons.injEq] at hcs
        exact ⟨tail', by rw [hcs.1]⟩
    refine ⟨blanks ++ '=' :: (blanks' ++ q :: tail'), ?_, fun rest hrest => ?_⟩
    · rw [List.append_assoc, List.cons_append, List.append_assoc, ← hcs, hq]
    · rw [List.append_assoc, List.cons_append, List.append_assoc]
      refine readValue_text name (hblanks _) ?_
      rw [List.cons_append, hblanks']
      exact hused rest hrest

/-- The attributes of a tag and its end are read the same when what follows is cut off. -/
theorem locally_readAttributes {cs after : List Char} {attributes : Attributes} {closed : Bool}
    (h : readAttributes cs = .ok (attributes, closed, after)) :
    Locally readAttributes (fun rest => .ok (attributes, closed, rest)) cs after := by
  refine readAttributes_induction (motive := fun cs attributes =>
    Locally readAttributes (fun rest => .ok (attributes, closed, rest)) cs after)
    ?selfEnd ?ending ?spread ?named h
  case selfEnd =>
    rintro cs rfl hs
    obtain ⟨blanks, rfl, hblanks⟩ := exists_blanks_cons hs
    refine ⟨blanks ++ ['/', '>'], by simp, fun rest _ => ?_⟩
    rw [List.append_assoc]
    exact readAttributes_selfEnd (hblanks _)
  case ending =>
    rintro cs rfl hs
    obtain ⟨blanks, rfl, hblanks⟩ := exists_blanks_cons hs
    refine ⟨blanks ++ ['>'], by simp, fun rest _ => ?_⟩
    rw [List.append_assoc]
    exact readAttributes_end (hblanks _)
  case spread =>
    intro cs body source middle more hs hread ih
    obtain ⟨blanks, rfl, hblanks⟩ := exists_blanks_cons hs
    obtain ⟨used, rfl, hused⟩ := locally_readExpression? hread
    obtain ⟨used', rfl, hused'⟩ := ih
    refine ⟨blanks ++ '\x7b' :: (used ++ used'), by simp, fun rest hrest => ?_⟩
    have hprefix : used' ++ rest <+: used' ++ after := (List.prefix_append_right_inj used').2 hrest
    rw [List.append_assoc, List.cons_append, List.append_assoc,
      readAttributes_spread (hblanks _) (hused _ hprefix), hused' rest hrest]
    rfl
  case named =>
    intro cs name afterName value middle more hname hvalue ih
    obtain ⟨used, rfl, hused⟩ := locally_nameRead?_trimLeft hname
    obtain ⟨used', rfl, hused'⟩ := locally_readValue hvalue
    obtain ⟨used'', rfl, hused''⟩ := ih
    refine ⟨used ++ used' ++ used'', by simp, fun rest hrest => ?_⟩
    have hprefix : used'' ++ rest <+: used'' ++ after :=
      (List.prefix_append_right_inj used'').2 hrest
    have hprefix' : used' ++ (used'' ++ rest) <+: used' ++ (used'' ++ after) :=
      (List.prefix_append_right_inj used').2 hprefix
    rw [List.append_assoc, List.append_assoc, readAttributes_named (hused _ hprefix')
      (hused' _ hprefix), hused'' rest hrest]
    rfl

/-- An opening tag is read the same when what follows is cut off. -/
theorem locally_readOpening {cs after : List Char} {opening : Opening}
    (h : readOpening cs = .ok (opening, after)) :
    Locally readOpening (fun rest => .ok (opening, rest)) cs after := by
  obtain ⟨rfl, rfl⟩ | ⟨name, afterName, attributes, closed, hname, hread, rfl⟩ :=
    readOpening_cases h
  · exact ⟨['>'], rfl, fun rest _ => rfl⟩
  · obtain ⟨used, rfl, hused⟩ := locally_nameRead?_trimLeft hname
    obtain ⟨used', rfl, hused'⟩ := locally_readAttributes hread
    refine ⟨used ++ used', by simp, fun rest hrest => ?_⟩
    rw [List.append_assoc]
    exact readOpening_named (hused _ ((List.prefix_append_right_inj used').2 hrest))
      (hused' rest hrest)

/-- A closing tag is read under the same name when what follows is cut off; only the distance of
the name from the end of the text changes. -/
theorem exists_readClosing {cs after : List Char} {closing : ClosingName}
    (h : readClosing cs = .ok (closing, after)) :
    ∃ used, cs = used ++ after ∧ ∀ rest, rest <+: after → ∃ remaining,
      readClosing (used ++ rest) = .ok (⟨closing.name, remaining⟩, rest) := by
  obtain ⟨name, afterName, hname, hend, rfl⟩ := readClosing_cases h
  obtain ⟨used, rfl, hused⟩ := locally_nameRead?_trimLeft hname
  obtain ⟨blanks, rfl, hblanks⟩ := exists_blanks_cons hend
  refine ⟨used ++ (blanks ++ ['>']), by simp, fun rest hrest => ?_⟩
  have hprefix : blanks ++ '>' :: rest <+: blanks ++ '>' :: after :=
    (List.prefix_append_right_inj blanks).2 ((List.prefix_cons_inj '>').2 hrest)
  have happ : used ++ (blanks ++ ['>']) ++ rest = used ++ (blanks ++ '>' :: rest) := by simp
  rw [happ]
  exact ⟨_, readClosing_named (hused _ hprefix) (hblanks rest)⟩

end MarkupTidy.Markup
