import MarkupTidy.Proofs.Text.LetterCase
import MarkupTidy.Variable.Name

/-! # The marks of a name

How the characters of a name are written in a custom property, and in which order this can be done:
marks are spelled out, runs of blanks become hyphens, letters are lowered.

* `IsImage`: what may stand for a character; `hyphenateFrom_append_of_isImage`: hyphenation of a text
  that is put together from images of characters.
* `hyphenate_spell`: marks may be written before or after the blanks become hyphens.
* `lowercase_hyphenate`: letters may be lowered before or after the blanks become hyphens.
* `hyphenate_spell_lowerFrom_eq_iff`: letters may be lowered before or after the marks are written
  unless a dot next to a sigma makes a difference. -/

namespace MarkupTidy.Variable

open MarkupTidy.Text

/-- A text with its marks written as in a custom property. -/
def spell (cs : List Char) : List Char :=
  cs.flatMap propertyChar

theorem spell_cons (c : Char) (cs : List Char) : spell (c :: cs) = propertyChar c ++ spell cs :=
  List.flatMap_cons

theorem spell_append (x y : List Char) : spell (x ++ y) = spell x ++ spell y :=
  List.flatMap_append

theorem propertyChar_of_ne {c : Char} (hs : c ≠ '/') (hd : c ≠ '.') : propertyChar c = [c] := by
  simp [propertyChar, hs, hd]

theorem propertyChar_of_isBlank {c : Char} (h : isBlank c = true) : propertyChar c = [c] :=
  propertyChar_of_ne (by rintro rfl; revert h; decide) (by rintro rfl; revert h; decide)

/-- Marks and letters in lower case: the order does not matter for a single character. -/
theorem spell_lowerChar (c : Char) : spell (lowerChar c) = (propertyChar c).flatMap lowerChar := by
  by_cases hs : c = '/'
  · subst hs
    rfl
  by_cases hd : c = '.'
  · subst hd
    rfl
  have hkept : ∀ d ∈ lowerChar c, propertyChar d = [d] := by
    intro d hmem
    obtain ⟨rfl, -⟩ | hlow := mem_lowerChar hmem
    · exact propertyChar_of_ne hs hd
    · refine propertyChar_of_ne ?_ ?_ <;>
        · rintro rfl
          exact absurd hlow.1 (by decide)
  have hflat : ∀ {xs : List Char}, (∀ d ∈ xs, propertyChar d = [d]) → spell xs = xs := by
    intro xs h
    induction xs with
    | nil => rfl
    | cons d xs ih =>
      rw [spell_cons, h d List.mem_cons_self, ih fun e he => h e (List.mem_cons_of_mem d he)]
      rfl
  rw [hflat hkept, propertyChar_of_ne hs hd, List.flatMap_cons, List.flatMap_nil, List.append_nil]

/-! ### Hyphens for blanks -/

/-- What may stand for a character: a blank for itself, and no blank for what is none. -/
def IsImage (c : Char) (image : List Char) : Prop :=
  if isBlank c then image = [c] else IsSolid image ∧ image ≠ []

theorem isImage_propertyChar (c : Char) : IsImage c (propertyChar c) := by
  unfold IsImage
  split
  · rename_i h
    exact propertyChar_of_isBlank h
  · rename_i h
    unfold propertyChar
    split
    · decide
    · split
      · decide
      · exact ⟨isSolid_cons.2 ⟨Bool.eq_false_iff.2 h, isSolid_nil⟩, List.cons_ne_nil _ _⟩

theorem isImage_lowerChar (c : Char) : IsImage c (lowerChar c) := by
  unfold IsImage
  split
  · rename_i h
    exact (lowerChar_of_isBlank h).1
  · rename_i h
    exact ⟨isSolid_lowerChar (Bool.eq_false_iff.2 h), lowerChar_ne_nil c⟩

theorem IsImage.spell {c : Char} {image : List Char} (h : IsImage c image) :
    IsImage c (spell image) := by
  unfold IsImage at h ⊢
  split at h
  · rename_i hc
    rw [if_pos hc, h, spell_cons, propertyChar_of_isBlank hc]
    rfl
  · rename_i hc
    rw [if_neg hc]
    refine ⟨fun d hd => ?_, fun hnil => ?_⟩
    · obtain ⟨e, he, hd⟩ := List.mem_flatMap.1 hd
      have himage := isImage_propertyChar e
      rw [IsImage, if_neg (by simp [h.1 e he])] at himage
      exact himage.1 d hd
    · obtain ⟨e, tail, rfl⟩ := List.exists_cons_of_ne_nil h.2
      have himage := isImage_propertyChar e
      rw [IsImage, if_neg (by simp [h.1 e List.mem_cons_self])] at himage
      rw [spell_cons] at hnil
      exact himage.2 (List.append_eq_nil_iff.1 hnil).1

theorem hyphenateFrom_append_of_isSolid {w : List Char} (h : IsSolid w) (hne : w ≠ [])
    (afterBlank : Bool) (rest : List Char) :
    hyphenateFrom afterBlank (w ++ rest) = w ++ hyphenateFrom false rest := by
  induction w generalizing afterBlank with
  | nil => exact absurd rfl hne
  | cons c w ih =>
    obtain ⟨hc, hw⟩ := isSolid_cons.1 h
    rw [List.cons_append, hyphenateFrom, if_neg (by simp [hc])]
    cases w with
    | nil => rfl
    | cons d w =>
      rw [ih hw (List.cons_ne_nil d w)]
      rfl

/-- How a character that is no part of a longer run is hyphenated. -/
def hyphenated (afterBlank : Bool) (c : Char) (image : List Char) : List Char :=
  if isBlank c then if afterBlank then [] else ['-'] else image

theorem hyphenateFrom_append_of_isImage {c : Char} {image : List Char} (h : IsImage c image)
    (afterBlank : Bool) (rest : List Char) : hyphenateFrom afterBlank (image ++ rest)
      = hyphenated afterBlank c image ++ hyphenateFrom (isBlank c) rest := by
  unfold IsImage at h
  unfold hyphenated
  split at h
  · rename_i hc
    rw [h, List.singleton_append, hyphenateFrom, if_pos hc, if_pos hc, hc]
    cases afterBlank <;> rfl
  · rename_i hc
    rw [if_neg hc, hyphenateFrom_append_of_isSolid h.1 h.2, Bool.eq_false_iff.2 hc]

theorem hyphenateFrom_cons (afterBlank : Bool) (c : Char) (rest : List Char) :
    hyphenateFrom afterBlank (c :: rest)
      = hyphenated afterBlank c [c] ++ hyphenateFrom (isBlank c) rest := by
  unfold hyphenated
  cases hc : isBlank c <;> cases afterBlank <;> simp [hyphenateFrom, hc]

/-- Marks may be written before or after the blanks become hyphens. -/
theorem hyphenateFrom_spell (afterBlank : Bool) (cs : List Char) :
    hyphenateFrom afterBlank (spell cs) = spell (hyphenateFrom afterBlank cs) := by
  induction cs generalizing afterBlank with
  | nil => rfl
  | cons c cs ih =>
    rw [spell_cons, hyphenateFrom_append_of_isImage (isImage_propertyChar c), ih,
      hyphenateFrom_cons, spell_append]
    unfold hyphenated
    cases isBlank c <;> cases afterBlank <;> simp [spell, propertyChar]

theorem hyphenate_spell (cs : List Char) : hyphenate (spell cs) = spell (hyphenate cs) :=
  hyphenateFrom_spell false cs

theorem seesCased_hyphenateFrom (cs : List Char) :
    seesCased (hyphenateFrom false cs) = seesCased cs := by
  induction cs with
  | nil => rfl
  | cons c cs ih =>
    cases hc : isBlank c with
    | true =>
      rw [seesCased_blank_cons hc, hyphenateFrom, if_pos hc]
      exact seesCased_cons '-' _
    | false =>
      rw [hyphenateFrom, if_neg (by simp [hc]), seesCased_cons, seesCased_cons, ih]

/-- Letters may be lowered before or after the blanks become hyphens. -/
theorem lowerFrom_hyphenateFrom {afterBlank : Bool} {before before' : List Char}
    (h : seesCased before = seesCased before') (hblank : afterBlank = true → seesCased before = false)
    (cs : List Char) : lowerFrom before' (hyphenateFrom afterBlank cs)
      = hyphenateFrom afterBlank (lowerFrom before cs) := by
  induction cs generalizing afterBlank before before' with
  | nil => rfl
  | cons c cs ih =>
    have hnext : lowerFrom (c :: before') (hyphenateFrom false cs)
        = hyphenateFrom false (lowerFrom (c :: before) cs) :=
      ih (seesCased_cons_congr h c) fun h => Bool.noConfusion h
    by_cases hc : c = capitalSigma
    · subst hc
      rw [hyphenateFrom, if_neg (by simp [capitalSigma_not_isBlank]), lowerFrom_sigma,
        lowerFrom_sigma, hyphenateFrom, if_neg (by simp [isBlank_lowerSigma]), isFinalSigma_eq,
        isFinalSigma_eq, h, seesCased_hyphenateFrom, hnext]
    · rw [lowerFrom_cons_of_ne hc, hyphenateFrom_append_of_isImage (isImage_lowerChar c),
        hyphenateFrom_cons]
      unfold hyphenated
      cases hb : isBlank c with
      | true =>
        have hcased := seesCased_blank_cons hb before
        cases afterBlank with
        | true => exact ih (hcased.trans ((hblank rfl).symm.trans h)) fun _ => hcased
        | false =>
          exact congrArg _ (ih (hcased.trans (seesCased_cons '-' before').symm) fun _ => hcased)
      | false =>
        simp only [Bool.false_eq_true, if_false, List.singleton_append]
        rw [lowerFrom_cons_of_ne hc, hnext]

theorem lowercase_hyphenate (cs : List Char) : lowercase (hyphenate cs) = hyphenate (lowercase cs) :=
  lowerFrom_hyphenateFrom rfl (fun h => Bool.noConfusion h) cs

/-! ### Letters between marks -/

/-- The sigmas of a name are its first character, if that is one, and those behind it. -/
theorem forall_sigma_cons_iff (before before' : List Char) (c : Char) (cs : List Char) :
    (∀ x z, c :: cs = x ++ capitalSigma :: z → isFinalSigma (x.reverse ++ before) z
        = isFinalSigma ((spell x).reverse ++ before') (spell z)) ↔
      (c = capitalSigma → isFinalSigma before cs = isFinalSigma before' (spell cs)) ∧
        ∀ x z, cs = x ++ capitalSigma :: z → isFinalSigma (x.reverse ++ c :: before) z
          = isFinalSigma ((spell x).reverse ++ ((propertyChar c).reverse ++ before')) (spell z) := by
  have hbehind : ∀ x, (spell (c :: x)).reverse ++ before'
      = (spell x).reverse ++ ((propertyChar c).reverse ++ before') := by
    intro x
    rw [spell_cons]
    simp
  constructor
  · intro h
    refine ⟨fun hc => h [] cs (by rw [hc]; rfl), fun x z hcs => ?_⟩
    have := h (c :: x) z (by rw [hcs]; rfl)
    rwa [hbehind, List.reverse_cons, List.append_assoc] at this
  · rintro ⟨hfirst, hrest⟩ x z heq
    obtain ⟨rfl, heq⟩ | ⟨x, rfl, heq⟩ := List.cons_eq_append_iff.1 heq
    · obtain ⟨hc, rfl⟩ := List.cons.inj heq
      exact hfirst hc
    · rw [hbehind, List.reverse_cons, List.append_assoc]
      exact hrest x z (List.cons.inj heq).2

theorem capitalSigma_not_mem_propertyChar {c : Char} (hc : c ≠ capitalSigma) :
    capitalSigma ∉ propertyChar c := by
  intro h
  unfold propertyChar at h
  split at h
  · exact absurd h (by decide)
  · split at h
    · exact absurd h (by decide)
    · exact hc (List.mem_singleton.1 h).symm

/-- A name whose letters stand between marks and blanks: they may be lowered before or after the
marks are written exactly if every capital sigma is final both times. -/
theorem hyphenate_spell_lowerFrom_eq_iff (afterBlank : Bool) (before before' : List Char)
    (cs : List Char) :
    hyphenateFrom afterBlank (spell (lowerFrom before cs))
        = hyphenateFrom afterBlank (lowerFrom before' (spell cs)) ↔
      ∀ x z, cs = x ++ capitalSigma :: z → isFinalSigma (x.reverse ++ before) z
        = isFinalSigma ((spell x).reverse ++ before') (spell z) := by
  induction cs generalizing afterBlank before before' with
  | nil => simp [lowerFrom, spell]
  | cons c cs ih =>
    rw [forall_sigma_cons_iff, ← ih (isBlank c)]
    by_cases hc : c = capitalSigma
    · subst hc
      have hsigma : propertyChar capitalSigma = [capitalSigma] := by decide
      have hkept : ∀ b, propertyChar (lowerSigma b) = [lowerSigma b] := by decide
      rw [lowerFrom_sigma, spell_cons, spell_cons, hsigma, hkept, List.singleton_append,
        List.singleton_append, lowerFrom_sigma, hyphenateFrom, hyphenateFrom,
        if_neg (by simp [isBlank_lowerSigma]), if_neg (by simp [isBlank_lowerSigma]),
        capitalSigma_not_isBlank, List.cons.injEq, lowerSigma_inj]
      simp
    · have himage : IsImage c (spell (lowerChar c)) := (isImage_lowerChar c).spell
      rw [lowerFrom_cons_of_ne hc, spell_append, spell_cons,
        lowerFrom_append_of_not_mem (capitalSigma_not_mem_propertyChar hc), ← spell_lowerChar,
        hyphenateFrom_append_of_isImage himage, hyphenateFrom_append_of_isImage himage,
        List.append_cancel_left_eq]
      simp [hc]

end MarkupTidy.Variable
