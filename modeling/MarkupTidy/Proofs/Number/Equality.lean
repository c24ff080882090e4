import MarkupTidy.Proofs.Number.Shortest
import MarkupTidy.Text.Search

/-! # Numbers that are the same

Numbers of one value and one sign are kept alike.  The sign of a number that is read is the sign that is
written; of the numbers that are not below zero, only one has it.

* `eq_of_same`: equality by value, and equality.
* `isNegative_read?`: the sign of a number that is read.
* `eq_of_same_abs`: a number with the magnitude of a natural number, and not below zero. -/

namespace MarkupTidy

open MarkupTidy.Number MarkupTidy.Text

namespace Binary64

/-! ### Values -/

/-- A number as it is kept is what its magnitude is rounded to. -/
theorem ofRatio_ratio {m : ℕ} {e : ℤ} (hkept : IsKept m e) (hm : 0 < m) (negative : Bool) :
    ofRatio negative (ratio m e).1 (ratio m e).2 = .finite negative m e := by
  have hu := two_zpow_pos e
  refine ofRatio_of_near hkept hm (ratio_pos hm e).2 ?_ (.inl ?_) negative
  · rw [ratio_eq, sub_self, abs_zero]
    exact half_pos hu
  · rw [ratio_eq]
    linarith

theorem ratio_zero (e : ℤ) : (ratio 0 e).1 = 0 := by
  unfold ratio
  split <;> simp

theorem ratio_den_pos (m : ℕ) (e : ℤ) : 0 < (ratio m e).2 := by
  unfold ratio
  split
  · exact Nat.one_pos
  · exact Nat.pow_pos (by decide)

theorem pos_of_ratio {m : ℕ} {e : ℤ} (h : 0 < (ratio m e).1) : 0 < m := by
  by_contra hm
  rw [Nat.eq_zero_of_not_pos hm, ratio_zero] at h
  exact absurd h (Nat.lt_irrefl 0)

theorem IsKept.eq_of_zero {e : ℤ} (h : IsKept 0 e) : e = leastExponent :=
  h.full.resolve_left (by decide)

/-- Numbers as they are kept are equal if they have one value and one sign. -/
theorem eq_of_same {x y : Binary64} (hx : x.IsCanonical) (hy : y.IsCanonical)
    (hsign : x.isNegative = y.isNegative) (h : same x y = true) : x = y := by
  cases x with
  | nan => exact absurd h (by simp [same])
  | infinity s =>
    cases y with
    | infinity s' => exact congrArg infinity hsign
    | finite _ _ _ | nan => exact absurd h (by simp [same])
  | finite s m e =>
    cases y with
    | infinity _ | nan => exact absurd h (by simp [same])
    | finite s' m' e' =>
      obtain rfl : s = s' := hsign
      simp only [same, Bool.and_eq_true, beq_iff_eq] at h
      have hcross := h.1
      have hden := ratio_den_pos m e
      have hden' := ratio_den_pos m' e'
      obtain rfl | hm := m.eq_zero_or_pos
      · rw [ratio_zero, Nat.zero_mul] at hcross
        have hnum' := (Nat.mul_eq_zero.1 hcross.symm).resolve_right hden.ne'
        obtain rfl : m' = 0 := by
          by_contra hm'
          exact (ratio_pos (Nat.pos_of_ne_zero hm') e').1.ne' hnum'
        rw [IsKept.eq_of_zero hx, IsKept.eq_of_zero hy]
      · have hnum := (ratio_pos hm e).1
        have hnum' : 0 < (ratio m' e').1 :=
          Nat.pos_of_mul_pos_right (hcross ▸ Nat.mul_pos hnum hden')
        have hequal : ((ratio m e).1 / (ratio m e).2 : ℚ) = (ratio m' e').1 / (ratio m' e').2 := by
          rw [div_eq_div_iff (by exact_mod_cast hden.ne') (by exact_mod_cast hden'.ne')]
          exact_mod_cast hcross
        rw [← ofRatio_ratio hx hm s, ← ofRatio_ratio hy (pos_of_ratio hnum') s]
        exact ofRatio_congr s hnum hden hnum' hden' hequal

/-! ### Signs -/

theorem isNegative_ofRatio (negative : Bool) (num den : ℕ) :
    (ofRatio negative num den).isNegative = negative := by
  unfold ofRatio
  dsimp only
  repeat' split
  all_goals rfl

theorem isNegative_ofDecimal (negative : Bool) (digits : ℕ) (exponent : ℤ) :
    (ofDecimal negative digits exponent).isNegative = negative := by
  unfold ofDecimal
  split
  · rfl
  · split
    · rfl
    · split
      · exact isNegative_ofRatio ..
      · split
        · rfl
        · exact isNegative_ofRatio ..

theorem isNegative_ofNat (n : ℕ) : (ofNat n).isNegative = false :=
  isNegative_ofRatio false n 1

theorem isCanonical_ofNat (n : ℕ) : (ofNat n).IsCanonical :=
  isCanonical_ofRatio false n Nat.one_pos

theorem mem_of_mem_trimPadding {cs : List Char} {c : Char} (h : c ∈ trimPadding cs) : c ∈ cs := by
  rw [trimPadding, List.mem_reverse] at h
  have hback := List.mem_reverse.1 ((List.dropWhile_suffix _).subset h)
  exact (List.dropWhile_suffix _).subset hback

theorem readSign_of_not_mem {cs : List Char} (h : '-' ∉ cs) : (readSign cs).1 = false := by
  unfold readSign
  split
  · exact absurd List.mem_cons_self h
  · rfl
  · rfl

/-- White space aside, a minus sign is in front. -/
theorem readSign_trimPadding_minus (cs : List Char) : (readSign (trimPadding ('-' :: cs))).1 = true := by
  have hminus : isPadding '-' = false := by decide +kernel
  rw [trimPadding, List.dropWhile_cons_of_neg (by simp [hminus]), List.reverse_cons,
    List.dropWhile_append]
  split
  · rw [List.dropWhile_cons_of_neg (by simp [hminus])]
    rfl
  · rw [List.reverse_append]
    rfl

theorem readSign_of_isPlainNumber {cs : List Char} (h : isPlainNumber cs = true) :
    (readSign (trimPadding cs)).1 = startsWith ['-'] cs := by
  by_cases hminus : cs.head? = some '-'
  · obtain ⟨rest, rfl⟩ := List.head?_eq_some_iff.1 hminus
    exact readSign_trimPadding_minus rest
  · have hnone : '-' ∉ cs := by
      intro hmem
      rw [isPlainNumber_of_ne hminus] at h
      exact absurd (mem_of_isUnsignedNumber h '-' hmem) (by decide)
    rw [readSign_of_not_mem fun hmem => hnone (mem_of_mem_trimPadding hmem)]
    cases cs with
    | nil => rfl
    | cons c rest =>
      have hc : c ≠ '-' := fun heq => hminus (congrArg some heq)
      simp [startsWith, List.isPrefixOf, hc.symm]

/-- A number that is read has the sign that is written. -/
theorem isNegative_read? {cs : List Char} {x : Binary64} (hplain : isPlainNumber cs = true)
    (h : read? cs = some x) : x = .nan ∨ x.isNegative = startsWith ['-'] cs := by
  rw [← readSign_of_isPlainNumber hplain]
  unfold read? at h
  dsimp only at h
  split at h
  · exact .inr (Option.some.inj h ▸ rfl)
  · split at h
    · exact .inl (Option.some.inj h).symm
    · unfold readUnsigned? at h
      dsimp only at h
      split at h
      · exact absurd h (by simp)
      · obtain ⟨exponent, -, rfl⟩ := Option.map_eq_some_iff.1 h
        exact .inr (isNegative_ofDecimal ..)

/-! ### Magnitudes -/

theorem isCanonical_abs {x : Binary64} (h : x.IsCanonical) : x.abs.IsCanonical := by
  cases x <;> exact h

theorem isNegative_abs (x : Binary64) : x.abs.isNegative = false := by
  cases x <;> rfl

theorem abs_of_not_negative {x : Binary64} (h : x.isNegative = false) : x.abs = x := by
  cases x with
  | finite s m e => exact congrArg (finite · m e) h.symm
  | infinity s => exact congrArg infinity h.symm
  | nan => rfl

theorem below_zero {m : ℕ} (hm : 0 < m) (e e' : ℤ) :
    below (.finite true m e) (.finite false 0 e') = true := by
  have hnum := (ratio_pos hm e).1
  have hden := ratio_den_pos 0 e'
  have hneg : -((ratio m e).1 : ℤ) * ((ratio 0 e').2 : ℤ) < 0 :=
    Int.mul_neg_of_neg_of_pos (by omega) (by exact_mod_cast hden)
  simp only [below, fraction, ratio_zero]
  simpa using hneg

/-- A negative number that is not below zero is zero. -/
theorem eq_zero_of_not_below {x : Binary64} (hx : x.IsCanonical) (hsign : x.isNegative = true)
    (h : x.below (ofNat 0) = false) : x = .finite true 0 leastExponent := by
  cases x with
  | nan => exact absurd hsign (by simp [isNegative])
  | infinity s =>
    obtain rfl : s = true := hsign
    exact absurd h (by decide)
  | finite s m e =>
    obtain rfl : s = true := hsign
    have hzero : ofNat 0 = .finite false 0 leastExponent := rfl
    obtain rfl | hm := m.eq_zero_or_pos
    · rw [IsKept.eq_of_zero hx]
    · rw [hzero, below_zero hm] at h
      exact absurd h (by decide)

/-- A number with the magnitude of a natural number, and not below zero, is that natural number, or zero
with a sign. -/
theorem eq_of_same_abs {x : Binary64} {n : ℕ} (hx : x.IsCanonical) (h : same x.abs (ofNat n) = true)
    (hbelow : x.below (ofNat 0) = false) : x = ofNat n ∨ x = .finite true 0 leastExponent := by
  have habs : x.abs = ofNat n := eq_of_same (isCanonical_abs hx) (isCanonical_ofNat n)
    ((isNegative_abs x).trans (isNegative_ofNat n).symm) h
  cases hsign : x.isNegative with
  | false => exact .inl ((abs_of_not_negative hsign).symm.trans habs)
  | true => exact .inr (eq_zero_of_not_below hx hsign hbelow)

end Binary64

end MarkupTidy
