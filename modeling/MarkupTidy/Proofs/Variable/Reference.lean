import MarkupTidy.Proofs.Text.Words
import MarkupTidy.Text.WordChar
import MarkupTidy.Variable.Name

/-! # Characters of bare names

A bare name is a reference in lower case, without blanks and parentheses.

* `CharSet.not_contains`: sets of characters that have no range in common, such as the word
  characters and the blanks.
* `mem_lowercase`: lower case brings in no blank, and nothing below the small letters.
* `isSolid_cleanReference`, `mem_cleanReference`: what a bare name is made of. -/

namespace MarkupTidy.Text

/-- Whether two sets of characters have ranges that overlap nowhere. -/
def CharSet.AreApart (s t : CharSet) : Prop :=
  ∀ p ∈ s, ∀ q ∈ t, p.2 < q.1 ∨ q.2 < p.1

instance (s t : CharSet) : Decidable (CharSet.AreApart s t) :=
  inferInstanceAs (Decidable (∀ p ∈ s, ∀ q ∈ t, p.2 < q.1 ∨ q.2 < p.1))

theorem CharSet.not_contains {s t : CharSet} (h : s.AreApart t) {c : Char}
    (hc : CharSet.contains s c = true) : CharSet.contains t c = false := by
  obtain ⟨p, hp, hpc⟩ := List.any_eq_true.1 hc
  refine List.any_eq_false.2 fun q hq hqc => ?_
  simp only [Bool.and_eq_true, decide_eq_true_eq] at hpc hqc
  have := h p hp q hq
  omega

theorem isBlank_of_isWordChar {c : Char} (h : isWordChar c = true) : isBlank c = false := by
  have hapart : CharSet.AreApart (wordCharsA ++ wordCharsB ++ wordCharsC ++ wordCharsD ++
      wordCharsE ++ wordCharsF) blankChars := by decide +kernel
  have hascii : ∀ n < 0x80, (Char.ofNat n).isAlphanum || Char.ofNat n == '_' →
      isBlank (Char.ofNat n) = false := by decide +kernel
  unfold isWordChar at h
  split at h
  · rename_i hc
    have := hascii c.toNat hc
    rw [Char.ofNat_toNat] at this
    exact this h
  · exact CharSet.not_contains hapart (by simpa only [CharSet.contains_append] using h)

/-! ### Lower case -/

/-- A character that lower case may bring in: no blank, and none below the small letters. -/
def IsLowered (c : Char) : Prop :=
  0x61 ≤ c.toNat ∧ isBlank c = false

/-- The images of a run lie among the small letters and above, and among no blanks. -/
def CaseRun.IsHigh (r : CaseRun) : Prop :=
  0x61 ≤ r.first + r.distance ∧
    (r.last + r.distance < 0xD800 ∨ 0xE000 ≤ r.first + r.distance ∧ r.last + r.distance < 0x110000) ∧
    ∀ b ∈ blankChars, r.last + r.distance < b.1 ∨ b.2 < r.first + r.distance

instance (r : CaseRun) : Decidable r.IsHigh :=
  inferInstanceAs (Decidable (_ ∧ _ ∧ _))

theorem isHigh_of_mem_lowerRuns : ∀ r ∈ lowerRuns, r.IsHigh := by
  decide +kernel

/-- The image of a run has the code point that the distance leads to. -/
theorem CaseRun.IsHigh.toNat_image {r : CaseRun} (h : r.IsHigh) {n : Nat}
    (hn : r.covers n = true) :
    (Char.ofNat (Int.toNat (n + r.distance))).toNat = Int.toNat (n + r.distance) := by
  obtain ⟨hlow, hvalid, -⟩ := h
  simp only [covers, Bool.and_eq_true, decide_eq_true_eq] at hn
  have hchar : (Int.toNat (n + r.distance)).isValidChar := by
    unfold Nat.isValidChar
    omega
  rw [Char.ofNat, dif_pos hchar]
  rfl

theorem CaseRun.IsHigh.isLowered {r : CaseRun} (h : r.IsHigh) {n : Nat} (hn : r.covers n = true) :
    IsLowered (Char.ofNat (Int.toNat (n + r.distance))) := by
  have htoNat := h.toNat_image hn
  obtain ⟨hlow, -, hblank⟩ := h
  simp only [covers, Bool.and_eq_true, decide_eq_true_eq] at hn
  refine ⟨by rw [htoNat]; omega, List.any_eq_false.2 fun b hb hc => ?_⟩
  simp only [htoNat, Bool.and_eq_true, decide_eq_true_eq] at hc
  have := hblank b hb
  omega

theorem isUpper_of_lt {c : Char} (h : 0x5A < c.toNat) : c.isUpper = false := by
  refine Bool.eq_false_iff.2 fun hupper => ?_
  exact Nat.not_le.2 h (of_decide_eq_true hupper).2

theorem IsLowered.isUpper {c : Char} (h : IsLowered c) : c.isUpper = false :=
  isUpper_of_lt (Nat.lt_of_lt_of_le (by decide) h.1)

theorem toLower_of_lt : ∀ n < 0x80,
    (Char.ofNat n).toLower = Char.ofNat n ∧ (Char.ofNat n).isUpper = false ∨
      IsLowered (Char.ofNat n).toLower := by
  unfold IsLowered
  decide +kernel

theorem mem_lowerChar {c d : Char} (h : d ∈ lowerChar c) :
    d = c ∧ c.isUpper = false ∨ IsLowered d := by
  unfold lowerChar at h
  split at h
  · rename_i hc
    have hlower := toLower_of_lt c.toNat hc
    rw [Char.ofNat_toNat] at hlower
    rwa [List.mem_singleton.1 h]
  · split at h
    · simp only [List.mem_cons, List.not_mem_nil, or_false] at h
      obtain rfl | rfl := h
      · exact Or.inr (by unfold IsLowered; decide)
      · exact Or.inr (by unfold IsLowered; decide)
    · obtain rfl := List.mem_singleton.1 h
      unfold mapByRuns
      split
      · rename_i r hr
        have hcovers : r.covers c.toNat = true := by simpa using List.find?_some hr
        exact Or.inr ((isHigh_of_mem_lowerRuns r (List.mem_of_find?_eq_some hr)).isLowered hcovers)
      · exact Or.inl ⟨rfl, isUpper_of_lt (by omega)⟩

/-- What a text in lower case is made of. -/
theorem mem_lowercase {cs : List Char} {d : Char} (h : d ∈ lowercase cs) :
    d ∈ cs ∧ d.isUpper = false ∨ IsLowered d := by
  have hfrom : ∀ before, d ∈ lowerFrom before cs → d ∈ cs ∧ d.isUpper = false ∨ IsLowered d := by
    clear h
    induction cs with
    | nil => exact fun _ h => absurd h List.not_mem_nil
    | cons c cs ih =>
      intro before h
      rw [lowerFrom, List.mem_append] at h
      obtain h | h := h
      · split at h
        · split at h <;> obtain rfl := List.mem_singleton.1 h <;>
            exact Or.inr (by unfold IsLowered; decide)
        · obtain ⟨rfl, hupper⟩ | hd := mem_lowerChar h
          · exact Or.inl ⟨List.mem_cons_self, hupper⟩
          · exact Or.inr hd
      · exact (ih (c :: before) h).imp_left (And.imp_left (List.mem_cons_of_mem c))
  exact hfrom [] h

end MarkupTidy.Text

namespace MarkupTidy.Variable

open MarkupTidy.Text

theorem mem_hyphenate {cs : List Char} {d : Char} (h : d ∈ hyphenate cs) :
    d = '-' ∨ d ∈ cs ∧ isBlank d = false := by
  have hfrom : ∀ afterBlank, d ∈ hyphenateFrom afterBlank cs →
      d = '-' ∨ d ∈ cs ∧ isBlank d = false := by
    clear h
    induction cs with
    | nil => exact fun _ h => absurd h (List.not_mem_nil)
    | cons c cs ih =>
      have htail : ∀ afterBlank, d ∈ hyphenateFrom afterBlank cs →
          d = '-' ∨ d ∈ c :: cs ∧ isBlank d = false := fun afterBlank h =>
        (ih afterBlank h).imp_right fun ⟨hd, hb⟩ => ⟨List.mem_cons_of_mem c hd, hb⟩
      intro afterBlank h
      rw [hyphenateFrom] at h
      split at h
      · split at h
        · exact htail _ h
        · exact (List.mem_cons.1 h).elim Or.inl (htail _)
      · rename_i hc
        obtain rfl | h := List.mem_cons.1 h
        · exact Or.inr ⟨List.mem_cons_self, Bool.eq_false_iff.2 hc⟩
        · exact htail _ h
  exact hfrom false h

theorem mem_referenceChar {c d : Char} (h : d ∈ referenceChar c) :
    d ≠ '(' ∧ d ≠ ')' ∧ (d = c ∨ d ∈ ['_', '-', 'd', 'o', 't']) := by
  unfold referenceChar propertyChar at h
  split at h
  · exact absurd h List.not_mem_nil
  · rename_i hdrop
    simp only [Bool.or_eq_true, decide_eq_true_eq, not_or] at hdrop
    split at h
    · obtain rfl := List.mem_singleton.1 h
      exact ⟨by decide, by decide, Or.inr (by decide)⟩
    · rename_i hopen
      split at h
      · obtain rfl := List.mem_singleton.1 h
        exact ⟨by decide, by decide, Or.inr (by decide)⟩
      · split at h
        · refine ⟨?_, ?_, Or.inr (List.mem_cons_of_mem _ (List.mem_cons_of_mem _ h))⟩ <;>
            · rintro rfl
              exact absurd h (by decide)
        · obtain rfl := List.mem_singleton.1 h
          exact ⟨hopen, hdrop.2, Or.inl rfl⟩

/-- A bare name is made of characters of the reference, of those that stand for others, and of
small letters. -/
theorem mem_cleanReference {reference : List Char} {d : Char} (h : d ∈ cleanReference reference) :
    isBlank d = false ∧ d ≠ '(' ∧ d ≠ ')' ∧
      (d ∈ reference ∨ d ∈ ['_', '-', 'd', 'o', 't'] ∨ IsLowered d) := by
  unfold cleanReference at h
  dsimp only at h
  obtain ⟨h, -⟩ | h := mem_lowercase h
  · obtain rfl | ⟨h, hblank⟩ := mem_hyphenate h
    · exact ⟨by decide, by decide, by decide, Or.inr (Or.inl (by decide))⟩
    · refine ⟨hblank, ?_⟩
      obtain ⟨c, hc, hd⟩ := List.mem_flatMap.1 (mem_of_mem_trim h)
      obtain ⟨hopen, hclose, hd⟩ := mem_referenceChar hd
      refine ⟨hopen, hclose, hd.imp (fun hd => ?_) Or.inl⟩
      subst hd
      refine mem_of_mem_trim ?_
      cases hafter : afterText? ['-', '-'] (trim reference) with
      | none => simpa [hafter] using hc
      | some bare =>
        rw [afterText?_eq_some.1 hafter]
        exact List.mem_append_right _ (by simpa [hafter] using hc)
  · refine ⟨h.2, ?_, ?_, Or.inr (Or.inr h)⟩
    · rintro rfl
      exact absurd h.1 (by decide)
    · rintro rfl
      exact absurd h.1 (by decide)

/-- A bare name has no capital letters. -/
theorem isUpper_of_mem_cleanReference {reference : List Char} {d : Char}
    (h : d ∈ cleanReference reference) : d.isUpper = false :=
  (mem_lowercase h).elim And.right IsLowered.isUpper

theorem isSolid_cleanReference (reference : List Char) : IsSolid (cleanReference reference) :=
  fun _ h => (mem_cleanReference h).1

end MarkupTidy.Variable
