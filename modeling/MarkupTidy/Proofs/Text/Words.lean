import MarkupTidy.Text.Blank
import MarkupTidy.Text.Search

/-! # Words

How the words of a text follow from the words of its parts.  Two texts that are put one behind the
other share at most one word, the last of the first and the first of the second.

* `IsSolid`: a text without blanks; `BeginsSolid`, `EndsSolid`: a text whose first or last
  character is no blank.
* `words_append_blank`, `words_intercalate`: texts with blanks between them.
* `tail_words_append`, `dropLast_words_append`: a solid text in front of another, or behind it,
  becomes part of one word; `inner_words_isInfix`: the words inside a text stay, whatever stands
  around it.
* `length_words_le_append_left`, `length_words_le_append_right`: a text around another has no fewer
  words; `length_words_lt_append_left`, `length_words_lt_append_right`: a blank between them, and it
  has more.
* `exists_trim`: the blanks around a text; `trimLeft_append`, `trimRight_append`: blanks at an end are
  taken off; `trimRight_append_cons`: nothing is in front of a character that is no blank;
  `trimLeft_trimRight`: either end may be trimmed first; `mem_trim_of_mem`: nothing else is lost. -/

namespace MarkupTidy.Text

/-- A text without blanks. -/
def IsSolid (cs : List Char) : Prop :=
  ∀ c ∈ cs, isBlank c = false

instance (cs : List Char) : Decidable (IsSolid cs) :=
  inferInstanceAs (Decidable (∀ c ∈ cs, isBlank c = false))

/-- A text whose first character is no blank. -/
def BeginsSolid (cs : List Char) : Prop :=
  ∃ c tail, cs = c :: tail ∧ isBlank c = false

/-- A text whose last character is no blank. -/
def EndsSolid (cs : List Char) : Prop :=
  ∃ front c, cs = front ++ [c] ∧ isBlank c = false

theorem isSolid_append {xs ys : List Char} : IsSolid (xs ++ ys) ↔ IsSolid xs ∧ IsSolid ys :=
  List.forall_mem_append

theorem isSolid_cons {c : Char} {cs : List Char} :
    IsSolid (c :: cs) ↔ isBlank c = false ∧ IsSolid cs :=
  List.forall_mem_cons

theorem isSolid_nil : IsSolid [] :=
  List.forall_mem_nil _

theorem IsSolid.reverse {cs : List Char} (h : IsSolid cs) : IsSolid cs.reverse :=
  fun c hc => h c (List.mem_reverse.1 hc)

theorem IsSolid.beginsSolid {cs : List Char} (h : IsSolid cs) (hne : cs ≠ []) : BeginsSolid cs := by
  obtain ⟨c, tail, rfl⟩ := List.exists_cons_of_ne_nil hne
  exact ⟨c, tail, rfl, h c List.mem_cons_self⟩

theorem IsSolid.endsSolid {cs : List Char} (h : IsSolid cs) (hne : cs ≠ []) : EndsSolid cs :=
  ⟨cs.dropLast, cs.getLast hne, (List.dropLast_concat_getLast hne).symm,
    h _ (List.getLast_mem hne)⟩

theorem BeginsSolid.ne_nil {cs : List Char} (h : BeginsSolid cs) : cs ≠ [] := by
  obtain ⟨c, tail, rfl, -⟩ := h
  exact List.cons_ne_nil c tail

theorem EndsSolid.ne_nil {cs : List Char} (h : EndsSolid cs) : cs ≠ [] := by
  obtain ⟨front, c, rfl, -⟩ := h
  simp

theorem BeginsSolid.append {cs : List Char} (h : BeginsSolid cs) (rest : List Char) :
    BeginsSolid (cs ++ rest) := by
  obtain ⟨c, tail, rfl, hc⟩ := h
  exact ⟨c, tail ++ rest, rfl, hc⟩

theorem BeginsSolid.append_left {x cs : List Char} (h : BeginsSolid cs) (hx : IsSolid x) :
    BeginsSolid (x ++ cs) := by
  cases x with
  | nil => exact h
  | cons c x => exact (hx.beginsSolid (List.cons_ne_nil c x)).append cs

theorem EndsSolid.append {cs : List Char} (h : EndsSolid cs) (x : List Char) :
    EndsSolid (x ++ cs) := by
  obtain ⟨front, c, rfl, hc⟩ := h
  exact ⟨x ++ front, c, (List.append_assoc ..).symm, hc⟩

theorem EndsSolid.of_append {x cs : List Char} (h : EndsSolid (x ++ cs)) (hne : cs ≠ []) :
    EndsSolid cs := by
  obtain ⟨front, c, heq, hc⟩ := h
  have hlast : cs.getLast hne = c := by
    have := congrArg List.getLast? heq
    rw [List.getLast?_append, List.getLast?_eq_some_getLast hne, List.getLast?_concat] at this
    exact Option.some.inj this
  exact ⟨cs.dropLast, c, by rw [← hlast, List.dropLast_concat_getLast hne], hc⟩

/-- What a text begins with up to its first blank, if it has one. -/
theorem exists_blank_of_not_isSolid {cs : List Char} (h : ¬ IsSolid cs) :
    ∃ w c rest, cs = w ++ c :: rest ∧ IsSolid w ∧ isBlank c = true := by
  induction cs with
  | nil => exact absurd isSolid_nil h
  | cons d cs ih =>
    cases hd : isBlank d with
    | true => exact ⟨[], d, cs, rfl, isSolid_nil, hd⟩
    | false =>
      obtain ⟨w, c, rest, rfl, hw, hc⟩ := ih fun hcs => h (isSolid_cons.2 ⟨hd, hcs⟩)
      exact ⟨d :: w, c, rest, rfl, isSolid_cons.2 ⟨hd, hw⟩, hc⟩

/-- What a text ends in behind its last blank, if it has one. -/
theorem exists_last_blank_of_not_isSolid {cs : List Char} (h : ¬ IsSolid cs) :
    ∃ front c w, cs = front ++ c :: w ∧ IsSolid w ∧ isBlank c = true := by
  obtain ⟨w, c, rest, heq, hw, hc⟩ :=
    exists_blank_of_not_isSolid fun hr : IsSolid cs.reverse => h (by simpa using hr.reverse)
  refine ⟨rest.reverse, c, w.reverse, ?_, hw.reverse, hc⟩
  rw [← List.reverse_reverse cs, heq]
  simp

/-! ### Collecting words -/

theorem wordsFrom_append_of_isSolid {w : List Char} (hw : IsSolid w) (current rest : List Char) :
    wordsFrom current (w ++ rest) = wordsFrom (w.reverse ++ current) rest := by
  induction w generalizing current with
  | nil => rfl
  | cons c w ih =>
    obtain ⟨hc, hw⟩ := isSolid_cons.1 hw
    rw [List.cons_append, wordsFrom, if_neg (by simp [hc]), ih hw]
    simp

theorem wordsFrom_append_blank {c : Char} (hc : isBlank c = true) (current xs ys : List Char) :
    wordsFrom current (xs ++ c :: ys) = wordsFrom current xs ++ words ys := by
  induction xs generalizing current with
  | nil =>
    simp only [List.nil_append, wordsFrom, hc, if_true, words]
    split <;> simp
  | cons d xs ih =>
    rw [List.cons_append, wordsFrom, wordsFrom]
    split
    · split
      · rw [ih]
      · rw [ih, List.cons_append]
    · rw [ih]

/-- Texts with a blank between them share no word. -/
theorem words_append_blank {c : Char} (hc : isBlank c = true) (xs ys : List Char) :
    words (xs ++ c :: ys) = words xs ++ words ys :=
  wordsFrom_append_blank hc [] xs ys

theorem words_of_isSolid {w : List Char} (hw : IsSolid w) (hne : w ≠ []) : words w = [w] := by
  have h := wordsFrom_append_of_isSolid hw [] []
  rw [List.append_nil, List.append_nil, wordsFrom, if_neg (by simpa using hne),
    List.reverse_reverse] at h
  exact h

/-- A text that is joined with blanks has the words of its parts. -/
theorem words_intercalate {c : Char} (hc : isBlank c = true) (parts : List (List Char)) :
    words (List.intercalate [c] parts) = parts.flatMap words := by
  induction parts with
  | nil => rfl
  | cons part parts ih =>
    cases parts with
    | nil => simp
    | cons next parts =>
      rw [List.intercalate_cons_cons, List.append_assoc, List.singleton_append,
        words_append_blank hc, ih, List.flatMap_cons (x := part)]

/-- The parts of a text between spaces have its words. -/
theorem flatMap_words_splitOn (cs : List Char) : (splitOn ' ' cs).flatMap words = words cs := by
  rw [← words_intercalate (c := ' ') (by decide), intercalate_splitOn]

/-- A word is a part of its text, without blanks and not empty. -/
theorem solid_part_of_mem_words {cs w : List Char} (hw : w ∈ words cs) :
    (IsSolid w ∧ w ≠ []) ∧ w <:+: cs := by
  have hsolid : ∀ {v}, IsSolid v → w ∈ words v → (IsSolid w ∧ w ≠ []) ∧ w <:+: v := by
    intro v hv hw
    by_cases hnil : v = []
    · simp [hnil, words_nil] at hw
    · rw [words_of_isSolid hv hnil, List.mem_singleton] at hw
      rw [hw]
      exact ⟨⟨hv, hnil⟩, List.infix_rfl⟩
  by_cases h : IsSolid cs
  · exact hsolid h hw
  · obtain ⟨v, c, rest, rfl, hv, hc⟩ := exists_blank_of_not_isSolid h
    rw [words_append_blank hc, List.mem_append] at hw
    have hrest : rest <:+ v ++ c :: rest := (List.suffix_cons c rest).trans (List.suffix_append v _)
    obtain hw | hw := hw
    · exact (hsolid hv hw).imp_right fun hpart => hpart.trans (List.prefix_append v _).isInfix
    · exact (solid_part_of_mem_words hw).imp_right fun hpart => hpart.trans hrest.isInfix
termination_by cs.length
decreasing_by simp_all; omega

theorem isSolid_of_mem_words {cs w : List Char} (hw : w ∈ words cs) : IsSolid w ∧ w ≠ [] :=
  (solid_part_of_mem_words hw).1

theorem isInfix_of_mem_words {cs w : List Char} (hw : w ∈ words cs) : w <:+: cs :=
  (solid_part_of_mem_words hw).2

/-! ### Texts that share a word -/

theorem words_append_blank_of_isSolid {w : List Char} (hw : IsSolid w) (hne : w ≠ []) {c : Char}
    (hc : isBlank c = true) (rest : List Char) : words (w ++ c :: rest) = w :: words rest := by
  rw [words_append_blank hc, words_of_isSolid hw hne, List.singleton_append]

/-- A text is solid, or goes on with a blank behind its first word. -/
theorem BeginsSolid.isSolid_or {cs : List Char} (h : BeginsSolid cs) :
    IsSolid cs ∨ ∃ w c rest, cs = w ++ c :: rest ∧ IsSolid w ∧ w ≠ [] ∧ isBlank c = true := by
  by_cases hs : IsSolid cs
  · exact Or.inl hs
  · obtain ⟨w, c, rest, rfl, hw, hc⟩ := exists_blank_of_not_isSolid hs
    refine Or.inr ⟨w, c, rest, rfl, hw, fun hnil => ?_, hc⟩
    obtain ⟨d, tail, heq, hd⟩ := h
    rw [hnil, List.nil_append, List.cons.injEq] at heq
    rw [heq.1, hd] at hc
    exact Bool.noConfusion hc

/-- A text is solid, or has a blank in front of its last word. -/
theorem EndsSolid.isSolid_or {cs : List Char} (h : EndsSolid cs) :
    IsSolid cs ∨ ∃ front c w, cs = front ++ c :: w ∧ IsSolid w ∧ w ≠ [] ∧ isBlank c = true := by
  by_cases hs : IsSolid cs
  · exact Or.inl hs
  · obtain ⟨front, c, w, rfl, hw, hc⟩ := exists_last_blank_of_not_isSolid hs
    refine Or.inr ⟨front, c, w, rfl, hw, fun hnil => ?_, hc⟩
    obtain ⟨front', d, heq, hd⟩ := h
    rw [hnil] at heq
    rw [(List.append_inj' heq rfl).2 |> List.cons.inj |>.1, hd] at hc
    exact Bool.noConfusion hc

theorem BeginsSolid.words_ne_nil {cs : List Char} (h : BeginsSolid cs) : words cs ≠ [] := by
  obtain hs | ⟨w, c, rest, rfl, hw, hne, hc⟩ := h.isSolid_or
  · simp [words_of_isSolid hs h.ne_nil]
  · simp [words_append_blank_of_isSolid hw hne hc]

theorem EndsSolid.words_ne_nil {cs : List Char} (h : EndsSolid cs) : words cs ≠ [] := by
  obtain hs | ⟨front, c, w, rfl, hw, hne, hc⟩ := h.isSolid_or
  · simp [words_of_isSolid hs h.ne_nil]
  · simp [words_append_blank hc, words_of_isSolid hw hne]

/-- A solid text in front of another becomes part of its first word. -/
theorem tail_words_append {x cs : List Char} (hx : IsSolid x) (h : BeginsSolid cs) :
    (words (x ++ cs)).tail = (words cs).tail := by
  obtain hs | ⟨w, c, rest, rfl, hw, hne, hc⟩ := h.isSolid_or
  · rw [words_of_isSolid hs h.ne_nil,
      words_of_isSolid (isSolid_append.2 ⟨hx, hs⟩) (by simp [h.ne_nil])]
    rfl
  · rw [← List.append_assoc,
      words_append_blank_of_isSolid (isSolid_append.2 ⟨hx, hw⟩) (by simp [hne]) hc,
      words_append_blank_of_isSolid hw hne hc]
    rfl

/-- A solid text behind another becomes part of its last word. -/
theorem dropLast_words_append {cs y : List Char} (h : EndsSolid cs) (hy : IsSolid y) :
    (words (cs ++ y)).dropLast = (words cs).dropLast := by
  obtain hs | ⟨front, c, w, rfl, hw, hne, hc⟩ := h.isSolid_or
  · rw [words_of_isSolid hs h.ne_nil,
      words_of_isSolid (isSolid_append.2 ⟨hs, hy⟩) (by simp [h.ne_nil])]
    rfl
  · rw [List.append_assoc, List.cons_append, words_append_blank hc, words_append_blank hc,
      words_of_isSolid hw hne, words_of_isSolid (isSolid_append.2 ⟨hw, hy⟩) (by simp [hne]),
      List.dropLast_concat, List.dropLast_concat]

theorem tail_words_isSuffix (x : List Char) {cs : List Char} (h : BeginsSolid cs) :
    (words cs).tail <:+ words (x ++ cs) := by
  by_cases hx : IsSolid x
  · rw [← tail_words_append hx h]
    exact List.tail_suffix _
  · obtain ⟨front, c, w, rfl, hw, hc⟩ := exists_last_blank_of_not_isSolid hx
    rw [List.append_assoc, List.cons_append, words_append_blank hc, ← tail_words_append hw h]
    exact (List.tail_suffix _).trans (List.suffix_append _ _)

theorem dropLast_words_isPrefix {cs : List Char} (h : EndsSolid cs) (y : List Char) :
    (words cs).dropLast <+: words (cs ++ y) := by
  by_cases hy : IsSolid y
  · rw [← dropLast_words_append h hy]
    exact List.dropLast_prefix _
  · obtain ⟨w, c, rest, rfl, hw, hc⟩ := exists_blank_of_not_isSolid hy
    rw [← List.append_assoc, words_append_blank hc, ← dropLast_words_append h hw]
    exact (List.dropLast_prefix _).trans (List.prefix_append _ _)

/-- The words inside a text are words of every text around it. -/
theorem inner_words_isInfix (x : List Char) {cs : List Char} (hb : BeginsSolid cs)
    (he : EndsSolid cs) (y : List Char) : (words cs).tail.dropLast <:+: words (x ++ cs ++ y) := by
  have hsuffix : (words cs).tail.dropLast <:+ (words (x ++ cs)).dropLast := by
    obtain ⟨front, hfront⟩ := tail_words_isSuffix x hb
    rw [← hfront]
    cases htail : (words cs).tail with
    | nil => exact List.nil_suffix
    | cons w ws =>
      rw [List.dropLast_append_of_ne_nil (List.cons_ne_nil w ws)]
      exact List.suffix_append _ _
  exact hsuffix.isInfix.trans (dropLast_words_isPrefix (he.append x) y).isInfix

theorem length_words_solid_append {x cs : List Char} (hx : IsSolid x) (h : BeginsSolid cs) :
    (words (x ++ cs)).length = (words cs).length := by
  have htail := congrArg List.length (tail_words_append hx h)
  have hpos := List.length_pos_iff.2 h.words_ne_nil
  have hpos' := List.length_pos_iff.2 (h.append_left hx).words_ne_nil
  simp only [List.length_tail] at htail
  omega

theorem length_words_append_solid {cs y : List Char} (hb : BeginsSolid cs) (he : EndsSolid cs)
    (hy : IsSolid y) : (words (cs ++ y)).length = (words cs).length := by
  have hinit := congrArg List.length (dropLast_words_append he hy)
  have hpos := List.length_pos_iff.2 hb.words_ne_nil
  have hpos' := List.length_pos_iff.2 (hb.append y).words_ne_nil
  simp only [List.length_dropLast] at hinit
  omega

/-- A text has no fewer words for what stands in front of it. -/
theorem length_words_le_append_left (x cs : List Char) :
    (words cs).length ≤ (words (x ++ cs)).length := by
  have hsolid : ∀ {v}, IsSolid v → (words cs).length ≤ (words (v ++ cs)).length := by
    intro v hv
    cases cs with
    | nil => exact Nat.zero_le _
    | cons d cs =>
      cases hd : isBlank d with
      | true =>
        rw [words_append_blank hd, ← List.nil_append (d :: cs), words_append_blank hd, words_nil]
        simp
      | false => exact Nat.le_of_eq (length_words_solid_append hv ⟨d, cs, rfl, hd⟩).symm
  by_cases hx : IsSolid x
  · exact hsolid hx
  · obtain ⟨front, c, w, rfl, hw, hc⟩ := exists_last_blank_of_not_isSolid hx
    rw [List.append_assoc, List.cons_append, words_append_blank hc, List.length_append]
    exact Nat.le_trans (hsolid hw) (Nat.le_add_left _ _)

/-- A text has no fewer words for what stands behind it. -/
theorem length_words_le_append_right {cs : List Char} (hb : BeginsSolid cs) (he : EndsSolid cs)
    (y : List Char) : (words cs).length ≤ (words (cs ++ y)).length := by
  by_cases hy : IsSolid y
  · exact Nat.le_of_eq (length_words_append_solid hb he hy).symm
  · obtain ⟨w, c, rest, rfl, hw, hc⟩ := exists_blank_of_not_isSolid hy
    rw [← List.append_assoc, words_append_blank hc, List.length_append,
      length_words_append_solid hb he hw]
    exact Nat.le_add_right _ _

/-- A text has fewer words than it has with a blank, and more than blanks, in front of it. -/
theorem length_words_lt_append_left {x : List Char} (hx : BeginsSolid x) {c : Char}
    (hc : isBlank c = true) (y cs : List Char) :
    (words cs).length < (words (x ++ c :: (y ++ cs))).length := by
  have hpos := List.length_pos_iff.2 hx.words_ne_nil
  have hle := length_words_le_append_left y cs
  rw [words_append_blank hc, List.length_append]
  omega

/-- A text has fewer words than it has with a blank, and more than blanks, behind it. -/
theorem length_words_lt_append_right {y : List Char} (hy : EndsSolid y) {c : Char}
    (hc : isBlank c = true) (cs : List Char) : (words cs).length < (words (cs ++ c :: y)).length := by
  have hpos := List.length_pos_iff.2 hy.words_ne_nil
  rw [words_append_blank hc, List.length_append]
  omega

/-- A text with a blank inside has more than one word. -/
theorem two_le_length_words {cs : List Char} (hb : BeginsSolid cs) (he : EndsSolid cs)
    (h : ¬ IsSolid cs) : 2 ≤ (words cs).length := by
  obtain hs | ⟨w, c, rest, rfl, hw, hne, hc⟩ := hb.isSolid_or
  · exact absurd hs h
  · have hrest : EndsSolid (c :: rest) := he.of_append (List.cons_ne_nil c rest)
    have hlast : rest ≠ [] := by
      rintro rfl
      obtain ⟨front, d, heq, hd⟩ := hrest
      have hcd : [c] = [d] := (List.append_inj' (show [] ++ [c] = front ++ [d] from heq) rfl).2
      rw [(List.cons.inj hcd).1, hd] at hc
      exact Bool.noConfusion hc
    have hpos := List.length_pos_iff.2 (EndsSolid.of_append (show EndsSolid ([c] ++ rest) from hrest) hlast).words_ne_nil
    rw [words_append_blank_of_isSolid hw hne hc, List.length_cons]
    omega

/-! ### Blanks at the ends -/

theorem trimRight_append_blanks (cs : List Char) : ∃ r, cs = trimRight cs ++ r ∧
    ∀ c ∈ r, isBlank c = true := by
  refine ⟨(cs.reverse.takeWhile isBlank).reverse, ?_, fun c hc => ?_⟩
  · rw [trimRight, ← List.reverse_append, List.takeWhile_append_dropWhile, List.reverse_reverse]
  · exact List.all_eq_true.1 List.all_takeWhile c (List.mem_reverse.1 hc)

/-- A text with the blanks around it. -/
theorem exists_trim (cs : List Char) : ∃ l r, cs = l ++ trim cs ++ r ∧
    (∀ c ∈ l, isBlank c = true) ∧ ∀ c ∈ r, isBlank c = true := by
  obtain ⟨r, hr, hblank⟩ := trimRight_append_blanks (trimLeft cs)
  refine ⟨cs.takeWhile isBlank, r, ?_, fun c hc => List.all_eq_true.1 List.all_takeWhile c hc,
    hblank⟩
  rw [List.append_assoc, trim, ← hr, trimLeft, List.takeWhile_append_dropWhile]

theorem endsSolid_trim {cs : List Char} (h : trim cs ≠ []) : EndsSolid (trim cs) := by
  unfold trim trimRight at h ⊢
  cases hd : (trimLeft cs).reverse.dropWhile isBlank with
  | nil => simp [hd] at h
  | cons c tail =>
    have hc := List.head?_dropWhile_not isBlank (trimLeft cs).reverse
    rw [hd] at hc
    exact ⟨tail.reverse, c, List.reverse_cons, by simpa using hc⟩

theorem beginsSolid_trim {cs : List Char} (h : trim cs ≠ []) : BeginsSolid (trim cs) := by
  obtain ⟨r, hr, -⟩ := trimRight_append_blanks (trimLeft cs)
  obtain ⟨c, tail, hcons⟩ := List.exists_cons_of_ne_nil h
  refine ⟨c, tail, hcons, ?_⟩
  have hc := List.head?_dropWhile_not isBlank cs
  rw [trim] at hcons
  rw [hcons, trimLeft] at hr
  rw [hr] at hc
  simpa using hc

theorem trim_isInfix (cs : List Char) : trim cs <:+: cs := by
  obtain ⟨l, r, heq, -⟩ := exists_trim cs
  exact ⟨l, r, heq.symm⟩

theorem trim_sublist (cs : List Char) : (trim cs).Sublist cs :=
  (trim_isInfix cs).sublist

theorem mem_of_mem_trim {cs : List Char} {c : Char} (h : c ∈ trim cs) : c ∈ cs :=
  (trim_sublist cs).subset h

/-! ### Texts with blanks at their ends -/

theorem trimLeft_append {l : List Char} (h : ∀ c ∈ l, isBlank c = true) (cs : List Char) :
    trimLeft (l ++ cs) = trimLeft cs :=
  List.dropWhile_append_of_pos h

theorem trimRight_append {r : List Char} (h : ∀ c ∈ r, isBlank c = true) (cs : List Char) :
    trimRight (cs ++ r) = trimRight cs := by
  have hr : ∀ c ∈ r.reverse, isBlank c = true := fun c hc => h c (List.mem_reverse.1 hc)
  rw [trimRight, List.reverse_append, List.dropWhile_append_of_pos hr, trimRight]

theorem trimLeft_cons_of_solid {c : Char} (h : isBlank c = false) (cs : List Char) :
    trimLeft (c :: cs) = c :: cs := by
  simp [trimLeft, h]

theorem trimLeft_of_beginsSolid {cs : List Char} (h : BeginsSolid cs) : trimLeft cs = cs := by
  obtain ⟨c, tail, rfl, hc⟩ := h
  exact trimLeft_cons_of_solid hc tail

theorem trimRight_of_endsSolid {cs : List Char} (h : EndsSolid cs) : trimRight cs = cs := by
  obtain ⟨front, c, rfl, hc⟩ := h
  simp [trimRight, hc]

theorem endsSolid_trimRight {cs : List Char} (h : trimRight cs ≠ []) : EndsSolid (trimRight cs) := by
  unfold trimRight at h ⊢
  cases hd : cs.reverse.dropWhile isBlank with
  | nil => simp [hd] at h
  | cons d tail =>
    have hc := List.head?_dropWhile_not isBlank cs.reverse
    rw [hd] at hc
    exact ⟨tail.reverse, d, List.reverse_cons, by simpa using hc⟩

theorem trimRight_append_cons {c : Char} (h : isBlank c = false) (front cs : List Char) :
    trimRight (front ++ c :: cs) = front ++ c :: trimRight cs := by
  obtain ⟨r, hr, hblank⟩ := trimRight_append_blanks cs
  conv => lhs; rw [hr, ← List.cons_append, ← List.append_assoc]
  rw [trimRight_append hblank]
  by_cases hnil : trimRight cs = []
  · rw [hnil]
    exact trimRight_of_endsSolid ⟨front, c, rfl, h⟩
  · rw [List.append_cons]
    exact trimRight_of_endsSolid ((endsSolid_trimRight hnil).append _)

theorem trimRight_nil : trimRight [] = [] := rfl

theorem trimRight_of_blank {cs : List Char} (h : ∀ c ∈ cs, isBlank c = true) :
    trimRight cs = [] := by
  have := trimRight_append h []
  rwa [List.nil_append, trimRight_nil] at this

/-- A text is nothing but blanks, or something that is none stands behind the blanks that it begins
with. -/
theorem blank_or_exists_solid (cs : List Char) :
    (∀ c ∈ cs, isBlank c = true) ∨
      ∃ l c tail, cs = l ++ c :: tail ∧ (∀ c ∈ l, isBlank c = true) ∧ isBlank c = false := by
  induction cs with
  | nil => exact Or.inl (List.forall_mem_nil _)
  | cons d cs ih =>
    cases hd : isBlank d with
    | false => exact Or.inr ⟨[], d, cs, rfl, List.forall_mem_nil _, hd⟩
    | true =>
      obtain h | ⟨l, c, tail, rfl, hl, hc⟩ := ih
      · exact Or.inl (List.forall_mem_cons.2 ⟨hd, h⟩)
      · exact Or.inr ⟨d :: l, c, tail, rfl, List.forall_mem_cons.2 ⟨hd, hl⟩, hc⟩

/-- Either end may be trimmed first. -/
theorem trimLeft_trimRight (cs : List Char) : trimLeft (trimRight cs) = trim cs := by
  unfold trim
  obtain h | ⟨l, c, tail, rfl, hl, hc⟩ := blank_or_exists_solid cs
  · have hleft := trimLeft_append h []
    rw [List.append_nil] at hleft
    rw [trimRight_of_blank h, hleft]
    rfl
  · rw [trimRight_append_cons hc, trimLeft_append hl, trimLeft_append hl,
      trimLeft_cons_of_solid hc, trimLeft_cons_of_solid hc]
    exact (trimRight_append_cons hc [] tail).symm

theorem trimRight_trimRight (cs : List Char) : trimRight (trimRight cs) = trimRight cs := by
  obtain ⟨r, hr, hblank⟩ := trimRight_append_blanks cs
  conv => rhs; rw [hr]
  exact (trimRight_append hblank _).symm

theorem trimRight_trim (cs : List Char) : trimRight (trim cs) = trim cs :=
  trimRight_trimRight _

theorem trimLeft_trim (cs : List Char) : trimLeft (trim cs) = trim cs := by
  by_cases hnil : trim cs = []
  · rw [hnil]
    rfl
  · exact trimLeft_of_beginsSolid (beginsSolid_trim hnil)

theorem trim_trim (cs : List Char) : trim (trim cs) = trim cs := by
  rw [trim, trimLeft_trim, trimRight_trim]

theorem trim_trimRight (cs : List Char) : trim (trimRight cs) = trim cs := by
  rw [trim, trimLeft_trimRight, trimRight_trim]

theorem trim_append_left {l : List Char} (h : ∀ c ∈ l, isBlank c = true) (cs : List Char) :
    trim (l ++ cs) = trim cs := by
  rw [trim, trimLeft_append h, trim]

theorem trim_append_right {r : List Char} (h : ∀ c ∈ r, isBlank c = true) (cs : List Char) :
    trim (cs ++ r) = trim cs := by
  rw [← trimLeft_trimRight, trimRight_append h, trimLeft_trimRight]

theorem trim_of_solid_ends {cs : List Char} (hb : BeginsSolid cs) (he : EndsSolid cs) :
    trim cs = cs := by
  rw [trim, trimLeft_of_beginsSolid hb, trimRight_of_endsSolid he]

theorem trim_of_isSolid {cs : List Char} (h : IsSolid cs) : trim cs = cs := by
  by_cases hnil : cs = []
  · rw [hnil]
    rfl
  · exact trim_of_solid_ends (h.beginsSolid hnil) (h.endsSolid hnil)

theorem mem_trim_of_mem {cs : List Char} {c : Char} (h : c ∈ cs) (hc : isBlank c = false) :
    c ∈ trim cs := by
  obtain ⟨l, r, heq, hl, hr⟩ := exists_trim cs
  rw [heq, List.mem_append, List.mem_append] at h
  obtain (h | h) | h := h
  · rw [hl c h] at hc
    exact Bool.noConfusion hc
  · exact h
  · rw [hr c h] at hc
    exact Bool.noConfusion hc

end MarkupTidy.Text
