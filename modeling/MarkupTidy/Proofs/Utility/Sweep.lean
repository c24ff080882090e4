import Mathlib.Algebra.GroupWithZero.Nat
import MarkupTidy.Proofs.Markup.Passage
import MarkupTidy.Proofs.Utility.Replacement

/-! # What a sweep finds and fixes

A sweep resolves what stands between single spaces and counts what stands between any blanks.  Its
replacements bring in no quotes and no line breaks, so a swept text falls into the same pieces, and
the count before and after can be compared piece by piece.

* `ClassPiece.readAttribute?_eq_some_iff`: when a class attribute stands at the front of a text.
* `ClassPiece.split_join_resolve`: a swept text in pieces.
* `fixed_bounds`: what is fixed is at most what is found, and below zero only as far as fallbacks
  with blanks inside make up for it. -/

namespace MarkupTidy

open MarkupTidy.Text

namespace ClassPiece

theorem readAttribute?_eq_some_iff {cs value after : List Char} {q : Char} :
    readAttribute? cs = some (q, value, after) ↔
      cs = opening ++ q :: (value ++ q :: after) ∧
        (q = '"' ∨ q = '\'') ∧ q ∉ value ∧ '\n' ∉ value := by
  constructor
  · intro h
    refine ⟨(append_of_readAttribute? h).symm, ?_⟩
    unfold readAttribute? at h
    split at h
    · rename_i q' rest _
      split at h
      · rename_i hq
        dsimp only at h
        split at h
        · split at h
          · simp only [Option.some.injEq, Prod.mk.injEq] at h
            obtain ⟨rfl, rfl, -⟩ := h
            have hvalue := Markup.forall_mem_takeWhile (p := fun c => c != q' && c != '\n') rest
            simp only [Bool.or_eq_true, decide_eq_true_eq] at hq
            refine ⟨hq, fun hmem => ?_, fun hmem => ?_⟩
            · simpa using hvalue _ hmem
            · simpa using hvalue _ hmem
          · exact absurd h (by simp)
        · exact absurd h (by simp)
      · exact absurd h (by simp)
    · exact absurd h (by simp)
  · rintro ⟨rfl, hq, hvalue, hline⟩
    have hall : ∀ c ∈ value, (c != q && c != '\n') = true := by
      intro c hc
      have hcq : c ≠ q := fun he => hvalue (he ▸ hc)
      have hcn : c ≠ '\n' := fun he => hline (he ▸ hc)
      simp [hcq, hcn]
    have hstop : Markup.Stops (fun c => c != q && c != '\n') (q :: after) :=
      Markup.stops_cons (by simp)
    have hafter : afterText? opening (opening ++ q :: (value ++ q :: after))
        = some (q :: (value ++ q :: after)) := afterText?_eq_some.2 rfl
    unfold readAttribute?
    rw [hafter]
    dsimp only
    rw [if_pos (by simpa using hq), Markup.takeWhile_append_of_stops hall hstop,
      Markup.dropWhile_append_of_stops hall hstop]
    simp

/-- A class attribute has one of the two quotes, and its value neither that quote nor a line
break. -/
def IsSound : ClassPiece → Prop
  | other _ => True
  | classes q value => (q = '"' ∨ q = '\'') ∧ q ∉ value ∧ '\n' ∉ value

theorem isSound_of_mem_split {cs : List Char} {piece : ClassPiece} (h : piece ∈ split cs) :
    piece.IsSound := by
  fun_induction split cs with
  | case1 => exact absurd h List.not_mem_nil
  | case2 c rest q value after hread _ ih =>
    obtain rfl | h := List.mem_cons.1 h
    · exact (readAttribute?_eq_some_iff.1 hread).2
    · exact ih h
  | case3 c rest hread ih =>
    obtain rfl | h := List.mem_cons.1 h
    · trivial
    · exact ih h

theorem split_of_readAttribute?_eq_some {cs value after : List Char} {q : Char}
    (h : readAttribute? cs = some (q, value, after)) : split cs = classes q value :: split after := by
  cases cs with
  | nil =>
    have hnil := (readAttribute?_eq_some_iff.1 h).1
    simp at hnil
  | cons c rest =>
    rw [split]
    split
    · rename_i hread
      rw [h, Option.some.injEq, Prod.mk.injEq, Prod.mk.injEq] at hread
      obtain ⟨rfl, rfl, rfl⟩ := hread
      rfl
    · rename_i hread
      rw [h] at hread
      exact absurd hread (by simp)

theorem split_of_readAttribute?_eq_none {c : Char} {rest : List Char}
    (h : readAttribute? (c :: rest) = none) : split (c :: rest) = other c :: split rest := by
  rw [split]
  split
  · rename_i hread
    rw [h] at hread
    exact absurd hread (by simp)
  · rfl

theorem split_text_append {q : Char} {value : List Char} (h : (classes q value).IsSound)
    (rest : List Char) : split ((classes q value).text ++ rest) = classes q value :: split rest :=
  split_of_readAttribute?_eq_some (readAttribute?_eq_some_iff.2 ⟨by simp [text], h⟩)

theorem join_cons (piece : ClassPiece) (pieces : List ClassPiece) :
    join (piece :: pieces) = piece.text ++ join pieces :=
  List.flatMap_cons

/-! ### The end of a value -/

/-- A value ends in the text: this quote stands in its first line. -/
def EndsValue (q : Char) (cs : List Char) : Prop :=
  ∃ value after, cs = value ++ q :: after ∧ q ∉ value ∧ '\n' ∉ value

namespace EndsValue

variable {q : Char} {cs rest : List Char}

theorem of_mem (hq : q ∈ cs) (hline : '\n' ∉ cs) (rest : List Char) : EndsValue q (cs ++ rest) := by
  obtain ⟨front, back, rfl, hfront⟩ := List.eq_append_cons_of_mem hq
  exact ⟨front, back ++ rest, by simp, hfront,
    fun hmem => hline (List.mem_append_left _ hmem)⟩

theorem append (h : EndsValue q rest) (hq : q ∉ cs) (hline : '\n' ∉ cs) :
    EndsValue q (cs ++ rest) := by
  obtain ⟨value, after, rfl, hvalue, hlineValue⟩ := h
  refine ⟨cs ++ value, after, (List.append_assoc ..).symm, fun hmem => ?_, fun hmem => ?_⟩
  · exact (List.mem_append.1 hmem).elim hq hvalue
  · exact (List.mem_append.1 hmem).elim hline hlineValue

theorem of_append (h : EndsValue q (cs ++ rest)) (hq : q ∉ cs) :
    '\n' ∉ cs ∧ EndsValue q rest := by
  obtain ⟨value, after, heq, hvalue, hline⟩ := h
  obtain ⟨more, rfl, hrest⟩ : ∃ more, value = cs ++ more ∧ rest = more ++ q :: after := by
    obtain ⟨more, hvalueEq, hrest⟩ | ⟨more, hcs, hafter⟩ := List.append_eq_append_iff.1 heq
    · exact ⟨more, hvalueEq, hrest⟩
    · cases more with
      | nil => exact ⟨[], by simpa using hcs.symm, by simpa using hafter.symm⟩
      | cons d more =>
        obtain ⟨rfl, -⟩ := List.cons.inj hafter
        exact absurd (by rw [hcs]; simp) hq
  exact ⟨fun hmem => hline (List.mem_append_left _ hmem), more, after, hrest,
    fun hmem => hvalue (List.mem_append_right _ hmem),
    fun hmem => hline (List.mem_append_right _ hmem)⟩

end EndsValue

/-! ### Swept texts -/

section
variable (design : VariableTable)

/-- A swept value has no quotes, line breaks and equals signs but its own. -/
theorem mem_resolve {value : List Char} (hline : '\n' ∉ value) {c : Char}
    (hc : c ∈ List.intercalate [' '] ((splitOn ' ' value).map (resolvedToken design))) :
    c ∈ value ∨ c ∉ ['"', '\'', '\n', '='] := by
  obtain rfl | ⟨part', hpart', hc⟩ := mem_intercalate hc
  · exact Or.inr (by decide)
  · obtain ⟨part, hpart, rfl⟩ := List.mem_map.1 hpart'
    have hpartLine : '\n' ∉ part := fun hmem => hline (mem_of_mem_splitOn hpart hmem)
    obtain hkept | hreplaces := resolvedToken_cases design hpartLine
    · rw [hkept.1] at hc
      exact Or.inl (mem_of_mem_splitOn hpart hc)
    · exact (hreplaces.mem hc).imp_left (mem_of_mem_splitOn hpart)

theorem IsSound.resolve {piece : ClassPiece} (h : piece.IsSound) :
    (piece.resolve design).IsSound := by
  cases piece with
  | other c => trivial
  | classes q value =>
    obtain ⟨hq, hvalue, hline⟩ := h
    refine ⟨hq, fun hmem => ?_, fun hmem => ?_⟩
    · obtain hmem | hmem := mem_resolve design hline hmem
      · exact hvalue hmem
      · obtain rfl | rfl := hq <;> exact hmem (by decide)
    · obtain hmem | hmem := mem_resolve design hline hmem
      · exact hline hmem
      · exact hmem (by decide)

theorem line_not_mem_text {q : Char} {value : List Char} (h : (classes q value).IsSound) :
    '\n' ∉ (classes q value).text := by
  obtain ⟨hq, -, hline⟩ := h
  have hopening : '\n' ∉ opening := by decide
  have hquote : '\n' ≠ q := by
    obtain rfl | rfl := hq <;> decide
  simp [text, hopening, hline, hquote]

/-- A quote that a piece does not hold is not brought in. -/
theorem not_mem_text_resolve {q : Char} (hq : q = '"' ∨ q = '\'') {piece : ClassPiece}
    (hsound : piece.IsSound) (h : q ∉ piece.text) : q ∉ (piece.resolve design).text := by
  cases piece with
  | other c => exact h
  | classes q' value =>
    simp only [text, resolve, List.mem_append, List.mem_cons, List.not_mem_nil, or_false,
      not_or] at h ⊢
    refine ⟨h.1, h.2.1, fun hmem => ?_, h.2.2.2⟩
    obtain hmem | hmem := mem_resolve design hsound.2.2 hmem
    · exact h.2.2.1 hmem
    · obtain rfl | rfl := hq <;> exact hmem (by decide)

/-- What a swept text begins with, if it holds no first letter of an attribute, is what the text
began with before. -/
theorem exists_of_append_eq_join {s t : List Char} (hs : 'c' ∉ s) {pieces : List ClassPiece}
    (h : s ++ t = join (pieces.map (·.resolve design))) :
    ∃ rest, join pieces = s ++ join rest ∧ t = join (rest.map (·.resolve design)) ∧
      rest ⊆ pieces := by
  induction s generalizing pieces with
  | nil => exact ⟨pieces, rfl, h, List.Subset.refl _⟩
  | cons x s ih =>
    cases pieces with
    | nil => exact absurd h (by simp [join])
    | cons piece pieces =>
      rw [List.map_cons, join_cons] at h
      cases piece with
      | classes q value =>
        have hx : x = 'c' := (List.cons.inj h).1
        exact absurd (by simp [hx]) hs
      | other d =>
        obtain ⟨hx, h⟩ := List.cons.inj h
        obtain ⟨rest, hjoin, ht, hsub⟩ := ih (fun hmem => hs (List.mem_cons_of_mem _ hmem)) h
        refine ⟨rest, ?_, ht, List.subset_cons_of_subset _ hsub⟩
        rw [join_cons, hjoin, hx]
        rfl

/-- A quote that ends the value of an attribute in a swept text has ended one before. -/
theorem endsValue_join {q : Char} (hq : q = '"' ∨ q = '\'') {pieces : List ClassPiece}
    (hsound : ∀ p ∈ pieces, p.IsSound) (h : EndsValue q (join (pieces.map (·.resolve design)))) :
    EndsValue q (join pieces) := by
  induction pieces with
  | nil => exact h
  | cons piece pieces ih =>
    obtain ⟨hpiece, hrest⟩ := List.forall_mem_cons.1 hsound
    rw [List.map_cons, join_cons] at h
    rw [join_cons]
    by_cases hmem : q ∈ piece.text
    · -- the quote is one of this piece, so the value has ended inside it
      cases piece with
      | other d =>
        obtain rfl : q = d := List.mem_singleton.1 hmem
        exact ⟨[], join pieces, rfl, List.not_mem_nil, List.not_mem_nil⟩
      | classes q' value => exact .of_mem hmem (line_not_mem_text hpiece) _
    · obtain ⟨hline, hafter⟩ := h.of_append (not_mem_text_resolve design hq hpiece hmem)
      refine (ih hrest hafter).append hmem ?_
      cases piece with
      | other d => exact hline
      | classes q' value => exact line_not_mem_text hpiece

/-- A swept text falls into the pieces that it was joined from. -/
theorem split_join_resolve (cs : List Char) :
    split (join ((split cs).map (·.resolve design))) = (split cs).map (·.resolve design) := by
  fun_induction split cs with
  | case1 => simp [join, split]
  | case2 c rest q value after hread _ ih =>
    have hsound : (classes q value).IsSound := (readAttribute?_eq_some_iff.1 hread).2
    rw [List.map_cons, join_cons, resolve, split_text_append (hsound.resolve design), ih]
  | case3 c rest hread ih =>
    rw [List.map_cons, join_cons, resolve, text, List.singleton_append,
      split_of_readAttribute?_eq_none, ih]
    refine Option.eq_none_iff_forall_ne_some.2 ?_
    rintro ⟨q, value, after⟩ hswept
    obtain ⟨heq, hq, hvalue, hline⟩ := readAttribute?_eq_some_iff.1 hswept
    -- the swept attribute opens, and so closes, where one did before
    have hopening : opening = 'c' :: "lassName=".toList := rfl
    rw [hopening, List.cons_append, List.cons.injEq, List.append_cons] at heq
    obtain ⟨hc, heq⟩ := heq
    have hopen : 'c' ∉ "lassName=".toList ++ [q] := by
      obtain rfl | rfl := hq <;> decide
    obtain ⟨after', hjoin, hafter, hsub⟩ := exists_of_append_eq_join design hopen heq.symm
    obtain ⟨value', rest', hclose, hvalue', hline'⟩ := endsValue_join design hq
      (fun p hp => isSound_of_mem_split (hsub hp)) ⟨value, after, hafter.symm, hvalue, hline⟩
    have hread' : readAttribute? (c :: rest) = some (q, value', rest') := by
      refine readAttribute?_eq_some_iff.2 ⟨?_, hq, hvalue', hline'⟩
      rw [← join_split rest, hjoin, hclose, hc, hopening]
      simp
    rw [hread'] at hread
    exact absurd hread (by simp)

end

end ClassPiece

/-! ### Counting -/

theorem countPlaceholders_cons (piece : ClassPiece) (pieces : List ClassPiece) :
    countPlaceholders (piece :: pieces) =
      countPlaceholders [piece] + countPlaceholders pieces := by
  simp [countPlaceholders]

theorem countPlaceholders_classes (q : Char) (value : List Char) :
    countPlaceholders [.classes q value] = placeholderCount value := by
  unfold countPlaceholders placeholderCount
  rw [← List.countP_eq_length_filter]
  simp only [List.flatMap_cons, List.flatMap_nil, List.append_nil, ClassPiece.tokens,
    List.countP_map]
  congr 1
  funext w
  simp [isPlaceholder]

theorem placeholderCount_intercalate (parts : List (List Char)) :
    placeholderCount (List.intercalate [' '] parts) = (parts.map placeholderCount).sum := by
  unfold placeholderCount
  rw [words_intercalate (by decide), List.countP_flatMap]
  rfl

/-- The fallbacks in a class attribute that are broken by blanks. -/
def ClassPiece.brokenFallbacks (design : VariableTable) : ClassPiece → Nat
  | other _ => 0
  | classes _ value => (splitOn ' ' value).countP fun token => IsBrokenFallback design token

/-- The fallbacks in the class attributes of a text that are broken by blanks. -/
def brokenFallbacks (design : VariableTable) (code : List Char) : Nat :=
  ((ClassPiece.split code).map (ClassPiece.brokenFallbacks design)).sum

section
variable (design : VariableTable)

theorem countPlaceholders_resolve_le {piece : ClassPiece} (h : piece.IsSound) :
    countPlaceholders [piece.resolve design] ≤
      countPlaceholders [piece] + 2 * piece.brokenFallbacks design := by
  cases piece with
  | other c => exact Nat.zero_le _
  | classes q value =>
    have hparts : ∀ parts : List (List Char), (∀ part ∈ parts, '\n' ∉ part) →
        (parts.map (resolvedToken design) |>.map placeholderCount).sum ≤
          (parts.map placeholderCount).sum +
            2 * parts.countP fun token => IsBrokenFallback design token := by
      intro parts hline
      induction parts with
      | nil => exact Nat.zero_le _
      | cons part parts ih =>
        have hpart := placeholderCount_resolvedToken_le design (hline part List.mem_cons_self)
        have hrest := ih fun p hp => hline p (List.mem_cons_of_mem part hp)
        simp only [List.map_cons, List.sum_cons, List.countP_cons, decide_eq_true_eq]
        split at hpart <;> simp_all <;> omega
    have hline : ∀ part ∈ splitOn ' ' value, '\n' ∉ part := fun part hpart hmem =>
      h.2.2 (mem_of_mem_splitOn hpart hmem)
    rw [ClassPiece.resolve, countPlaceholders_classes, countPlaceholders_classes,
      placeholderCount_intercalate]
    have hvalue : placeholderCount value = ((splitOn ' ' value).map placeholderCount).sum := by
      rw [← placeholderCount_intercalate, intercalate_splitOn]
    rw [hvalue]
    exact hparts _ hline

theorem countPlaceholders_map_resolve_le (pieces : List ClassPiece)
    (h : ∀ piece ∈ pieces, piece.IsSound) :
    countPlaceholders (pieces.map (·.resolve design)) ≤ countPlaceholders pieces +
      2 * (pieces.map (ClassPiece.brokenFallbacks design)).sum := by
  induction pieces with
  | nil => exact Nat.zero_le _
  | cons piece pieces ih =>
    have hpiece := countPlaceholders_resolve_le design (h piece List.mem_cons_self)
    have hrest := ih fun p hp => h p (List.mem_cons_of_mem piece hp)
    rw [List.map_cons, countPlaceholders_cons, countPlaceholders_cons piece, List.map_cons,
      List.sum_cons]
    omega

/-- A sweep fixes at most what it finds, and it leaves at most two placeholders behind for each
fallback that is broken by blanks. -/
theorem fixed_bounds (table : ClassTable) (code : List Char) :
    -(2 * (brokenFallbacks design code : Int)) ≤ (sweep design table code).fixed ∧
      (sweep design table code).fixed ≤ (sweep design table code).found := by
  have hle := countPlaceholders_map_resolve_le design (ClassPiece.split code)
    fun piece hpiece => ClassPiece.isSound_of_mem_split hpiece
  unfold sweep brokenFallbacks
  dsimp only
  split
  · constructor <;> dsimp only <;> omega
  · rw [ClassPiece.split_join_resolve]
    constructor <;> dsimp only <;> omega

/-- A fallback that is broken by a tab counts against what is fixed. -/
theorem fixed_negative :
    ¬ 0 ≤ (sweep .empty .empty
      "<p className=\"z-[var(--q)] z-[var(--a\tb,var(--c)]\td)]\" />".toList).fixed := by
  decide +kernel

end

end MarkupTidy
