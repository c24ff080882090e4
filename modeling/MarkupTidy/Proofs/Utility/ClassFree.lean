import MarkupTidy.Markup.Node
import MarkupTidy.Proofs.Json.Quoted
import MarkupTidy.Proofs.Utility.NormalReferences
import MarkupTidy.Proofs.Utility.SweptText

/-! # Texts in which no class attribute begins

No class attribute begins in a text that is made from parts in which none begins, if what parts them
is in no opening of a class attribute.

* `HoldsNoClasses.append`, `HoldsNoClasses.parted`: parts of a text.
* `holdsNoClasses_resolvedToken`, `holdsNoClasses_normalizeReferences`: what resolution makes of a
  text.
* `holdsNoClasses_quoted`: a text as it is written into source.
* `holdsNoClasses_joinTokens`: class tokens as one text. -/

namespace MarkupTidy

open MarkupTidy.Markup MarkupTidy.Text MarkupTidy.Variable

section
variable {x y : List Char}

/-! ### Parts of a text -/

theorem HoldsNoClasses.of_isInfix (h : HoldsNoClasses y) (hpart : x <:+: y) : HoldsNoClasses x :=
  fun hopening => h (hopening.trans hpart)

theorem HoldsNoClasses.append (hx : HoldsNoClasses x) (hy : HoldsNoClasses y)
    (hstop : Stops isOpeningChar y) : HoldsNoClasses (x ++ y) := by
  intro hopening
  obtain h | h | ⟨s, t, heq, hs, ht⟩ := List.infix_append_iff.1 hopening
  · exact hx h
  · exact hy h
  · cases t with
    | nil =>
      rw [List.append_nil] at heq
      exact hx (heq ▸ hs.isInfix)
    | cons c t =>
      obtain ⟨rest, rfl⟩ := ht
      have hc : isOpeningChar c = true := List.contains_iff_mem.2 (by rw [heq]; simp)
      exact Bool.noConfusion (hc.symm.trans (hstop c rfl))

theorem HoldsNoClasses.cons {c : Char} (hc : c ≠ 'c') (hy : HoldsNoClasses y) :
    HoldsNoClasses (c :: y) := by
  intro hopening
  obtain h | h := List.infix_cons_iff.1 hopening
  · exact hc (List.cons_prefix_cons.1 h).1.symm
  · exact hy h

/-- Two texts with a character between them that is in no opening of a class attribute. -/
theorem HoldsNoClasses.parted {c : Char} (hx : HoldsNoClasses x) (hc : isOpeningChar c = false)
    (hy : HoldsNoClasses y) : HoldsNoClasses (x ++ c :: y) := by
  refine hx.append (hy.cons ?_) (stops_cons hc)
  rintro rfl
  exact absurd hc (by decide)

theorem HoldsNoClasses.intercalate {c : Char} (hc : isOpeningChar c = false)
    {parts : List (List Char)} (h : ∀ part ∈ parts, HoldsNoClasses part) :
    HoldsNoClasses (List.intercalate [c] parts) := by
  induction parts with
  | nil => exact holdsNoClasses_of_not_mem (c := '=') rfl (by simp)
  | cons part rest ih =>
    obtain ⟨hpart, hrest⟩ := List.forall_mem_cons.1 h
    cases rest with
    | nil => simpa using hpart
    | cons next rest =>
      rw [List.intercalate_cons_cons, List.append_assoc, List.singleton_append]
      exact hpart.parted hc (ih hrest)

/-- Spaces in place of low lines. -/
theorem HoldsNoClasses.map_lowLine (hx : HoldsNoClasses x) :
    HoldsNoClasses (x.map fun c => if c = '_' then ' ' else c) := by
  rintro ⟨s, t, heq⟩
  obtain ⟨front, back, rfl, hfront, -⟩ := List.map_eq_append_iff.1 heq.symm
  obtain ⟨l, part, rfl, -, hpart⟩ := List.map_eq_append_iff.1 hfront
  have hkept : ∀ c ∈ part, (if c = '_' then ' ' else c) = c := by
    intro c hc
    split
    · rename_i hline
      subst hline
      exact absurd (hpart ▸ List.mem_map_of_mem hc) (show ' ' ∉ ClassPiece.opening by decide)
    · rfl
  have hopening : part = ClassPiece.opening :=
    ((List.map_congr_left hkept).trans (List.map_id part)).symm.trans hpart
  exact hx ⟨l, back, by rw [hopening]⟩

/-- The opening of a class attribute has a capital letter. -/
theorem holdsNoClasses_of_isUpper (h : ∀ c ∈ x, c.isUpper = false) : HoldsNoClasses x :=
  holdsNoClasses_of_not_mem (c := 'N') rfl fun hmem => absurd (h _ hmem) (by decide)

/-! ### Resolution -/

/-- What takes the place of a token. -/
theorem holdsNoClasses_resolvedToken (design : VariableTable) (hline : '\n' ∉ x)
    (h : HoldsNoClasses x) : HoldsNoClasses (resolvedToken design x) := by
  obtain ⟨heq, -⟩ | hreplaces := resolvedToken_cases design hline
  · rwa [heq]
  generalize resolvedToken design x = text at hreplaces
  cases hreplaces with
  | name p body spells isName => exact holdsNoClasses_of_isUpper fun _ => isName.isUpper_of_mem
  | fallback p body rest spells body_eq comma ne_nil =>
    have htoken : x = p.variants ++ p.utility ++ ['-'] ++ '[' ::
        (Placeholder.kindText p.kind? ++ "var(".toList ++ p.reference ++ ',' ::
          (rest ++ [')', ']'])) := by
      rw [spells.token_eq, body_eq]
      simp [Placeholder.opening]
    have hopening : HoldsNoClasses (p.variants ++ p.utility ++ ['-']) :=
      h.of_isInfix (htoken ▸ (List.prefix_append _ _).isInfix)
    have hrest : rest <:+: x := by
      refine ⟨p.variants ++ p.utility ++ ['-'] ++ '[' ::
        (Placeholder.kindText p.kind? ++ "var(".toList ++ p.reference ++ [',']), [')', ']'], ?_⟩
      rw [htoken]
      simp
    have hfallback : HoldsNoClasses (trim rest) := h.of_isInfix ((trim_isInfix rest).trans hrest)
    have hend : HoldsNoClasses [] := holdsNoClasses_of_isUpper (List.forall_mem_nil _)
    have hparted := hopening.parted (c := '[') rfl (hfallback.parted (c := ']') rfl hend)
    simpa [Placeholder.opening] using hparted

/-- What ends a reference does not go on with a class attribute. -/
theorem stops_normalizeReferences (h : Stops isReferenceChar x) :
    Stops isOpeningChar (normalizeReferences x) := by
  have hopening : ∀ c ∈ ClassPiece.opening, isReferenceChar c = true := by decide
  intro c hc
  rw [head?_normalizeReferences] at hc
  refine Bool.eq_false_iff.2 fun hopens => ?_
  exact Bool.noConfusion ((h c hc).symm.trans (hopening c (List.contains_iff_mem.1 hopens)))

/-- A value with its references in clean form. -/
theorem holdsNoClasses_normalizeReferences (h : HoldsNoClasses x) :
    HoldsNoClasses (normalizeReferences x) := by
  fun_induction normalizeReferences x with
  | case1 => exact h
  | case2 c rest reference after hread _ ih =>
    obtain ⟨hsuffix, hstop⟩ := of_readReference? hread
    refine HoldsNoClasses.append (holdsNoClasses_of_isUpper fun d hd => ?_)
      (ih (h.of_isInfix hsuffix.isInfix)) (stops_normalizeReferences hstop)
    obtain hd | hd := List.mem_append.1 hd
    · exact (show ∀ d ∈ "var(--".toList, d.isUpper = false by decide) d hd
    · exact isUpper_of_mem_cleanReference hd
  | case3 c rest hread ih =>
    intro hopening
    obtain hprefix | hinfix := List.infix_cons_iff.1 hopening
    · rw [← normalizeReferences_of_none hread] at hprefix
      exact h (prefix_of_prefix_normalizeReferences (by decide) hprefix).isInfix
    · exact ih (h.of_isInfix (List.suffix_cons c rest).isInfix) hinfix

/-- Clean forms bring in no blanks. -/
theorem mem_normalizeReferences {c : Char} (h : c ∈ normalizeReferences x) :
    c ∈ x ∨ isBlank c = false := by
  fun_induction normalizeReferences x with
  | case1 => exact Or.inl h
  | case2 d rest reference after hread _ ih =>
    rw [List.mem_append, List.mem_append] at h
    obtain (h | h) | h := h
    · exact Or.inr ((show ∀ d ∈ "var(--".toList, isBlank d = false by decide) c h)
    · exact Or.inr (isSolid_cleanReference reference c h)
    · exact (ih h).imp_left fun h => (of_readReference? hread).1.subset h
  | case3 d rest hread ih =>
    obtain rfl | h := List.mem_cons.1 h
    · exact Or.inl List.mem_cons_self
    · exact (ih h).imp_left (List.mem_cons_of_mem d)

/-! ### Texts in source -/

/-- The control character whose escape ends in the letter that a class attribute begins with. -/
def fileSeparator : Char := '\x1c'

theorem not_mem_writeChar_control : ∀ n < 0x20, n ≠ 0x1C →
    'c' ∉ Json.writeChar false (Char.ofNat n) := by
  decide +kernel

/-- No class attribute begins inside of an escape. -/
theorem writeChar_of_mem {c : Char} (hc : c ≠ fileSeparator) (h : 'c' ∈ Json.writeChar false c) :
    c = 'c' := by
  by_cases hcontrol : c.toNat < 0x20
  · have hnumber : c.toNat ≠ 0x1C := fun heq => hc (by
      rw [← Char.ofNat_toNat c, heq]
      rfl)
    have hnone := not_mem_writeChar_control c.toNat hcontrol hnumber
    rw [Char.ofNat_toNat] at hnone
    exact absurd h hnone
  · unfold Json.writeChar at h
    split at h
    · exact absurd h (by decide)
    split at h
    · exact absurd h (by decide)
    simp only [Bool.false_and, Bool.false_eq_true, if_false] at h
    split at h
    · exact absurd h (by decide)
    split at h
    · exact absurd h (by decide)
    split at h
    · exact absurd h (by decide)
    split at h
    · exact absurd h (by decide)
    split at h
    · exact absurd h (by decide)
    exact (List.mem_singleton.1 h).symm

/-- What a written text begins with, it began with before, unless a character is escaped there. -/
theorem prefix_of_prefix_writeChar {w cs : List Char} (hw : '\\' ∉ w)
    (h : w <+: cs.flatMap (Json.writeChar false)) : w <+: cs := by
  induction w generalizing cs with
  | nil => exact List.nil_prefix
  | cons d w ih =>
    rw [List.mem_cons, not_or] at hw
    cases cs with
    | nil => exact absurd h (by simp)
    | cons c cs =>
      rw [List.flatMap_cons] at h
      obtain ⟨e, -, hwrite⟩ | ⟨n, hwrite⟩ | ⟨m, n, hwrite⟩ | ⟨-, hwrite⟩ :=
        Json.writeChar_cases false c
      · rw [hwrite] at h
        exact absurd (List.cons_prefix_cons.1 h).1.symm hw.1
      · rw [hwrite] at h
        exact absurd (List.cons_prefix_cons.1 h).1.symm hw.1
      · rw [hwrite] at h
        exact absurd (List.cons_prefix_cons.1 h).1.symm hw.1
      · rw [hwrite] at h
        obtain ⟨rfl, htail⟩ := List.cons_prefix_cons.1 h
        exact List.cons_prefix_cons.2 ⟨rfl, ih hw.2 htail⟩

theorem holdsNoClasses_flatMap_writeChar (hseparator : fileSeparator ∉ x) (h : HoldsNoClasses x) :
    HoldsNoClasses (x.flatMap (Json.writeChar false)) := by
  induction x with
  | nil => exact h
  | cons c x ih =>
    rw [List.mem_cons, not_or] at hseparator
    intro hopening
    rw [List.flatMap_cons] at hopening
    obtain hc | hx | ⟨s, t, heq, hs, ht⟩ := List.infix_append_iff.1 hopening
    · have hmem := writeChar_of_mem (Ne.symm hseparator.1) (hc.subset (by decide))
      rw [hmem] at hc
      exact absurd hc (by decide)
    · exact ih hseparator.2 (h.of_isInfix (List.suffix_cons c x).isInfix) hx
    · cases s with
      | nil =>
        exact ih hseparator.2 (h.of_isInfix (List.suffix_cons c x).isInfix) (heq ▸ ht.isInfix)
      | cons d s =>
        have hd : d = 'c' := (List.cons.inj heq).1.symm
        subst hd
        have hmem := writeChar_of_mem (Ne.symm hseparator.1) (hs.subset List.mem_cons_self)
        subst hmem
        have hlength : s.length + 1 ≤ 1 := hs.length_le
        obtain rfl : s = [] := List.length_eq_zero_iff.1 (by omega)
        have htail := prefix_of_prefix_writeChar (w := t) (fun hmem =>
          absurd (show '\\' ∈ ClassPiece.opening by rw [heq]; simp [hmem]) (by decide)) ht
        exact h (heq ▸ (List.cons_prefix_cons.2 ⟨rfl, htail⟩ : 'c' :: t <+: 'c' :: x).isInfix)

/-- A text as it is written into source. -/
theorem holdsNoClasses_quoted (hseparator : fileSeparator ∉ x) (h : HoldsNoClasses x) :
    HoldsNoClasses (Json.quoted false x) := by
  have hend : HoldsNoClasses [] := holdsNoClasses_of_isUpper (List.forall_mem_nil _)
  exact ((holdsNoClasses_flatMap_writeChar hseparator h).parted (c := '"') rfl hend).cons (by decide)

/-! ### Class tokens -/

theorem holdsNoClasses_of_mem_classTokens {value token : String} (h : HoldsNoClasses value.toList)
    (htoken : token ∈ classTokens value) : HoldsNoClasses token.toList := by
  obtain ⟨w, hw, rfl⟩ := List.mem_map.1 htoken
  rw [String.toList_ofList]
  exact h.of_isInfix (isInfix_of_mem_words hw)

theorem holdsNoClasses_joinTokens {tokens : List String}
    (h : ∀ t ∈ tokens, HoldsNoClasses t.toList) : HoldsNoClasses (joinTokens tokens).toList := by
  rw [joinTokens, String.toList_intercalate]
  refine HoldsNoClasses.intercalate rfl (List.forall_mem_map.2 fun t ht => ?_)
  exact h t (List.mem_filter.1 ht).1

end

end MarkupTidy
