import Mathlib.Data.List.TakeWhile
import Mathlib.Tactic.Tauto
import MarkupTidy.Proofs.Markup.Built
import MarkupTidy.Proofs.Text.Search

/-! # What a text displays

A text is cut at its line breaks, its lines lose the layout at each side where they meet a break, and
those that are empty then are left out.  So what is displayed holds no break, and nothing is
displayed exactly if all lines come to nothing: the only line there is has to be empty for that, and
of several lines each has to be layout.

* `exists_mem_breakLines_iff`, `length_breakLines_eq_one_iff`: the lines of a text.
* `forall_trimLines_eq_nil_iff`: the lines that come to nothing.
* `isBlankText_iff_isLayout`: the texts that display nothing, and what is displayed of the others. -/

namespace MarkupTidy

open MarkupTidy.Markup MarkupTidy.Text

/-! ### Lines -/

theorem breakLines_ne_nil (cs : List Char) : breakLines cs ≠ [] := by
  fun_induction breakLines cs <;> simp

/-- The characters of the lines of a text are those of the text, without the breaks. -/
theorem exists_mem_breakLines_iff {cs : List Char} {c : Char} :
    (∃ line ∈ breakLines cs, c ∈ line) ↔ c ∈ cs ∧ c ≠ '\r' ∧ c ≠ '\n' := by
  constructor
  · rintro ⟨line, hline, hc⟩
    exact mem_of_mem_breakLines hline c hc
  · rintro ⟨hmem, hr, hn⟩
    fun_induction breakLines cs with
    | case1 => exact absurd hmem List.not_mem_nil
    | case2 rest ih =>
      simp only [List.mem_cons, hr, hn, false_or] at hmem
      obtain ⟨line, hline, hc⟩ := ih hmem
      exact ⟨line, List.mem_cons_of_mem _ hline, hc⟩
    | case3 d rest _ hd ih =>
      obtain rfl | hmem := List.mem_cons.1 hmem
      · simp [hr, hn] at hd
      · obtain ⟨line, hline, hc⟩ := ih hmem
        exact ⟨line, List.mem_cons_of_mem _ hline, hc⟩
    | case4 d rest _ _ hnil => exact absurd hnil (breakLines_ne_nil rest)
    | case5 d rest _ _ first lines hlines ih =>
      rw [hlines] at ih
      obtain rfl | hmem := List.mem_cons.1 hmem
      · exact ⟨c :: first, List.mem_cons_self, List.mem_cons_self⟩
      · obtain ⟨line, hline, hc⟩ := ih hmem
        obtain rfl | hline := List.mem_cons.1 hline
        · exact ⟨d :: line, List.mem_cons_self, List.mem_cons_of_mem d hc⟩
        · exact ⟨line, List.mem_cons_of_mem _ hline, hc⟩

/-- A text without a break is one line, and no other is. -/
theorem length_breakLines_eq_one_iff {cs : List Char} :
    (breakLines cs).length = 1 ↔ ∀ c ∈ cs, c ≠ '\r' ∧ c ≠ '\n' := by
  constructor
  · intro h
    fun_induction breakLines cs with
    | case1 => exact List.forall_mem_nil _
    | case2 rest => exact absurd (List.length_eq_zero_iff.1 (Nat.succ.inj h)) (breakLines_ne_nil rest)
    | case3 d rest => exact absurd (List.length_eq_zero_iff.1 (Nat.succ.inj h)) (breakLines_ne_nil rest)
    | case4 d rest _ _ hnil => exact absurd hnil (breakLines_ne_nil rest)
    | case5 d rest _ hd first lines hlines ih =>
      rw [hlines] at ih
      simp only [Bool.or_eq_true, decide_eq_true_eq, not_or] at hd
      exact List.forall_mem_cons.2 ⟨hd, ih h⟩
  · intro h
    rw [breakLines_of_forall h, List.length_singleton]

/-! ### Trimmed lines -/

theorem trimLayoutRight_eq_nil_iff {line : List Char} :
    trimLayoutRight line = [] ↔ ∀ c ∈ line, isLayout c = true := by
  rw [trimLayoutRight, List.reverse_eq_nil_iff, List.dropWhile_eq_nil_iff]
  exact forall_congr' fun c => by rw [List.mem_reverse]

theorem mem_of_mem_trimLayoutRight {line : List Char} {c : Char} (h : c ∈ trimLayoutRight line) :
    c ∈ line :=
  List.mem_reverse.1 (List.dropWhile_subset _ (List.mem_reverse.1 h))

/-- A line with breaks at both sides comes to nothing exactly if it is layout. -/
theorem trimLayoutRight_dropWhile_eq_nil_iff {line : List Char} :
    trimLayoutRight (line.dropWhile isLayout) = [] ↔ ∀ c ∈ line, isLayout c = true := by
  rw [trimLayoutRight_eq_nil_iff]
  constructor
  · intro h c hc
    rw [← List.takeWhile_append_dropWhile (p := isLayout) (l := line), List.mem_append] at hc
    obtain hc | hc := hc
    · exact forall_mem_takeWhile line c hc
    · exact h c hc
  · exact fun h c hc => h c (List.dropWhile_subset _ hc)

theorem forall_trimLaterLines_eq_nil_iff {lines : List (List Char)} :
    (∀ line ∈ trimLaterLines lines, line = []) ↔ ∀ line ∈ lines, ∀ c ∈ line, isLayout c = true := by
  fun_induction trimLaterLines lines with
  | case1 => simp
  | case2 last => rw [List.forall_mem_singleton, List.forall_mem_singleton, List.dropWhile_eq_nil_iff]
  | case3 line rest _ ih =>
    rw [List.forall_mem_cons, List.forall_mem_cons, trimLayoutRight_dropWhile_eq_nil_iff, ih]

/-- Lines come to nothing exactly if the only one is empty, or if there are several and each is
layout. -/
theorem forall_trimLines_eq_nil_iff {lines : List (List Char)} (hne : lines ≠ []) :
    (∀ line ∈ trimLines lines, line = []) ↔
      if lines.length = 1 then ∀ line ∈ lines, line = []
      else ∀ line ∈ lines, ∀ c ∈ line, isLayout c = true := by
  match lines with
  | [] => exact absurd rfl hne
  | [only] => rfl
  | first :: second :: rest =>
    rw [trimLines, List.forall_mem_cons, trimLayoutRight_eq_nil_iff, forall_trimLaterLines_eq_nil_iff,
      if_neg (by simp), List.forall_mem_cons (a := first)]
    simp

theorem exists_mem_of_mem_trimLaterLines {lines : List (List Char)} {line : List Char} {c : Char}
    (hline : line ∈ trimLaterLines lines) (hc : c ∈ line) : ∃ line ∈ lines, c ∈ line := by
  fun_induction trimLaterLines lines with
  | case1 => exact absurd hline List.not_mem_nil
  | case2 last =>
    obtain rfl := List.mem_singleton.1 hline
    exact ⟨last, List.mem_cons_self, List.dropWhile_subset _ hc⟩
  | case3 first rest _ ih =>
    obtain rfl | hline := List.mem_cons.1 hline
    · exact ⟨first, List.mem_cons_self, List.dropWhile_subset _ (mem_of_mem_trimLayoutRight hc)⟩
    · obtain ⟨line, hline, hc⟩ := ih hline
      exact ⟨line, List.mem_cons_of_mem _ hline, hc⟩

/-- Trimming adds no characters. -/
theorem exists_mem_of_mem_trimLines {lines : List (List Char)} {line : List Char} {c : Char}
    (hline : line ∈ trimLines lines) (hc : c ∈ line) : ∃ line ∈ lines, c ∈ line := by
  match lines with
  | [] => exact absurd hline List.not_mem_nil
  | [only] => exact ⟨line, hline, hc⟩
  | first :: second :: rest =>
    obtain rfl | hline := List.mem_cons.1 hline
    · exact ⟨first, List.mem_cons_self, mem_of_mem_trimLayoutRight hc⟩
    · obtain ⟨line, hline, hc⟩ := exists_mem_of_mem_trimLaterLines hline hc
      exact ⟨line, List.mem_cons_of_mem _ hline, hc⟩

/-! ### Rendered texts -/

/-- Nothing is displayed exactly if all lines come to nothing. -/
theorem renderedText_eq_nil_iff {cs : List Char} :
    renderedText cs = [] ↔ ∀ line ∈ trimLines (breakLines cs), line = [] := by
  rw [renderedText]
  constructor
  · intro h line hline
    by_contra hne
    obtain ⟨c, hc⟩ := List.exists_mem_of_ne_nil line hne
    have hkept : line ∈ (trimLines (breakLines cs)).filter fun line => !line.isEmpty :=
      List.mem_filter.2 ⟨hline, by simpa using hne⟩
    have hmem := mem_intercalate_of_mem ' ' hkept hc
    rw [h] at hmem
    exact absurd hmem List.not_mem_nil
  · intro h
    rw [List.filter_eq_nil_iff.2 fun line hline => by simp [h line hline]]
    rfl

/-- What is displayed are spaces and characters of the text, and no break. -/
theorem eq_space_or_mem_of_mem_renderedText {cs : List Char} {c : Char} (h : c ∈ renderedText cs) :
    c = ' ' ∨ c ∈ cs ∧ c ≠ '\r' ∧ c ≠ '\n' := by
  refine (mem_intercalate h).imp_right fun ⟨line, hline, hc⟩ => ?_
  exact exists_mem_breakLines_iff.1 (exists_mem_of_mem_trimLines (List.mem_filter.1 hline).1 hc)

/-- The lines of a text are layout exactly if all that is no break is. -/
theorem forall_breakLines_isLayout_iff {cs : List Char} :
    (∀ line ∈ breakLines cs, ∀ c ∈ line, isLayout c = true) ↔
      ∀ c ∈ cs, c ∈ [' ', '\t', '\r', '\n'] := by
  have hmem : ∀ c : Char, c ∈ [' ', '\t', '\r', '\n'] ↔ (c ≠ '\r' ∧ c ≠ '\n' → isLayout c = true) := by
    intro c
    simp only [isLayout, List.mem_cons, List.not_mem_nil, Bool.or_eq_true, beq_iff_eq]
    tauto
  constructor
  · intro h c hc
    rw [hmem]
    intro hbreak
    obtain ⟨line, hline, hcl⟩ := exists_mem_breakLines_iff.2 ⟨hc, hbreak⟩
    exact h line hline c hcl
  · intro h line hline c hc
    obtain ⟨hcs, hbreak⟩ := mem_of_mem_breakLines hline c hc
    exact (hmem c).1 (h c hcs) hbreak

/-- A text displays nothing exactly if it is empty, or holds spaces, tabs and line breaks only and a
break among them; what is displayed of a text holds no break. -/
theorem isBlankText_iff_isLayout (value : String) :
    (isBlankText value = true ↔ value = "" ∨
      (∀ c ∈ value.toList, c ∈ [' ', '\t', '\r', '\n']) ∧ ∃ c ∈ value.toList, c = '\r' ∨ c = '\n') ∧
      ∀ c ∈ renderedText value.toList, c ≠ '\r' ∧ c ≠ '\n' := by
  refine ⟨?_, fun c hc => ?_⟩
  · rw [isBlankText, List.isEmpty_iff, renderedText_eq_nil_iff,
      forall_trimLines_eq_nil_iff (breakLines_ne_nil _), ← String.toList_eq_nil_iff]
    by_cases hbreak : ∀ c ∈ value.toList, c ≠ '\r' ∧ c ≠ '\n'
    · -- one line, which is the text: it is trimmed nowhere
      have hnone : ¬∃ c ∈ value.toList, c = '\r' ∨ c = '\n' := by
        rintro ⟨c, hc, h⟩
        exact absurd h (not_or.2 (hbreak c hc))
      rw [if_pos (length_breakLines_eq_one_iff.2 hbreak), breakLines_of_forall hbreak,
        List.forall_mem_singleton]
      simp [hnone]
    · -- several lines: every line meets a break
      have hsome : ∃ c ∈ value.toList, c = '\r' ∨ c = '\n' := by
        by_contra hnone
        exact hbreak fun c hc => not_or.1 fun h => hnone ⟨c, hc, h⟩
      have hne : value.toList ≠ [] := by
        obtain ⟨c, hc, -⟩ := hsome
        exact List.ne_nil_of_mem hc
      rw [if_neg (mt length_breakLines_eq_one_iff.1 hbreak), forall_breakLines_isLayout_iff]
      simp [hsome, hne]
  · obtain rfl | ⟨-, h⟩ := eq_space_or_mem_of_mem_renderedText hc
    · decide
    · exact h

end MarkupTidy
