import Mathlib.Data.Int.Log
import MarkupTidy.Proofs.Number.Equality

/-! # Rounding over the rationals

What a ratio is rounded to is again a ratio.  Rounding keeps the order, leaves the numbers of double
precision alone, and changes a number that is not all too small by a part in `2 ^ 53` at most.

* `rounded`: what a ratio is rounded to, wherever the exponents end.
* `RoundsTo`: the number that a ratio is rounded to; `roundsTo_ofRatio`, `roundsTo_ofDecimal`.
* `rounded_mono`, `rounded_of_isDouble`, `abs_rounded_sub_le`: the order, the fixed points, the error.
* `RoundsTo.least`: the lesser of two rounded numbers; `RoundsTo.half`: the half of one. -/

namespace MarkupTidy.Binary64

/-! ### The nearest natural number -/

theorem nearest_mono {r s : ℚ} (h : r ≤ s) : nearest r ≤ nearest s := by
  have hfloor : ⌊r⌋₊ ≤ ⌊s⌋₊ := Nat.floor_mono h
  obtain hlt | heq := hfloor.lt_or_eq
  · have hr : nearest r ≤ ⌊r⌋₊ + 1 := by
      unfold nearest
      split <;> omega
    have hs : ⌊s⌋₊ ≤ nearest s := by
      unfold nearest
      split <;> omega
    omega
  · unfold nearest
    rw [heq]
    split
    · rename_i hup
      rw [if_pos]
      obtain hup | ⟨hhalf, hodd⟩ := hup
      · exact .inl (by linarith)
      · obtain hlt | hhalf' := (show (1 / 2 : ℚ) ≤ s - ⌊s⌋₊ by linarith).lt_or_eq
        · exact .inl hlt
        · exact .inr ⟨hhalf'.symm, hodd⟩
    · split <;> omega

theorem nearest_natCast (n : ℕ) : nearest (n : ℚ) = n :=
  nearest_of_near (by norm_num)

/-! ### What a ratio is rounded to -/

/-- The last binary place that is kept of a ratio. -/
def place (r : ℚ) : ℤ :=
  lastPlace (Int.log 2 r)

/-- What a ratio is rounded to, wherever the exponents end. -/
def rounded (r : ℚ) : ℚ :=
  nearest (r / 2 ^ place r) * 2 ^ place r

theorem rounded_zero : rounded 0 = 0 := by
  have hzero : nearest 0 = 0 := nearest_natCast 0
  rw [rounded, zero_div, hzero, Nat.cast_zero, zero_mul]

theorem rounded_nonneg (r : ℚ) : 0 ≤ rounded r :=
  mul_nonneg (Nat.cast_nonneg _) (two_zpow_pos _).le

theorem log2Ratio_eq_log {num den : ℕ} (hnum : 0 < num) (hden : 0 < den) :
    log2Ratio num den = Int.log 2 (num / den : ℚ) := by
  have hpos : (0 : ℚ) < num / den := by positivity
  exact log2Ratio_eq hnum hden (Int.zpow_log_le_self one_lt_two hpos)
    (Int.lt_zpow_succ_log_self one_lt_two _)

theorem bounds_of_pos {r : ℚ} (h : 0 < r) : nearest (r / 2 ^ place r) ≤ 2 ^ 53 ∧
    (2 ^ 52 ≤ nearest (r / 2 ^ place r) ∨ place r = -1074) :=
  nearest_bounds (Int.zpow_log_le_self one_lt_two h) (Int.lt_zpow_succ_log_self one_lt_two _)

theorem place_mono {r s : ℚ} (hr : 0 < r) (h : r ≤ s) : place r ≤ place s := by
  have hlog := Int.log_mono_right (b := 2) hr h
  rw [place, place, lastPlace_eq, lastPlace_eq]
  omega

/-- Rounding keeps the order. -/
theorem rounded_mono {r s : ℚ} (hr : 0 ≤ r) (h : r ≤ s) : rounded r ≤ rounded s := by
  obtain rfl | hpos := hr.eq_or_lt
  · rw [rounded_zero]
    exact rounded_nonneg s
  · obtain hlt | heq := (place_mono hpos h).lt_or_eq
    · -- A greater ratio with a later last place begins a later power of two.
      have hr53 := (bounds_of_pos hpos).1
      have hs52 : 2 ^ 52 ≤ nearest (s / 2 ^ place s) := by
        refine (bounds_of_pos (hpos.trans_le h)).2.resolve_right fun hleast => ?_
        have hplace : place r = max _ _ := lastPlace_eq (Int.log 2 r)
        omega
      have hstep : (2 : ℚ) ^ (place r + (1 : ℕ)) ≤ 2 ^ place s :=
        zpow_le_zpow_right₀ one_le_two (by omega)
      rw [two_zpow_add, pow_one] at hstep
      calc rounded r ≤ 2 ^ 53 * 2 ^ place r :=
            mul_le_mul_of_nonneg_right (by exact_mod_cast hr53) (two_zpow_pos _).le
        _ = 2 ^ 52 * (2 * 2 ^ place r) := by ring
        _ ≤ 2 ^ 52 * 2 ^ place s := mul_le_mul_of_nonneg_left hstep (by norm_num)
        _ ≤ rounded s := mul_le_mul_of_nonneg_right (by exact_mod_cast hs52) (two_zpow_pos _).le
    · rw [rounded, rounded, heq]
      refine mul_le_mul_of_nonneg_right ?_ (two_zpow_pos _).le
      exact_mod_cast nearest_mono (div_le_div_of_nonneg_right h (two_zpow_pos _).le)

theorem abs_rounded_sub_le_place {r : ℚ} (h : 0 ≤ r) : |rounded r - r| ≤ 2 ^ place r / 2 := by
  have hu := two_zpow_pos (place r)
  have hnear := abs_sub_nearest_le (r := r / 2 ^ place r) (by positivity)
  rw [div_sub' hu.ne', abs_div, abs_of_pos hu, div_le_iff₀ hu, abs_sub_comm, mul_comm] at hnear
  rw [rounded]
  linarith

/-- The numbers for which all bits of the precision are left. -/
def leastNormal : ℚ := 2 ^ (-1022 : ℤ)

theorem leastNormal_le_one : leastNormal ≤ 1 :=
  zpow_le_one_of_nonpos₀ one_le_two (by norm_num)

/-- A ratio that is not all too small is changed by a part in `2 ^ 53` at most. -/
theorem abs_rounded_sub_le {r : ℚ} (h : leastNormal ≤ r) : |rounded r - r| ≤ r / 2 ^ 53 := by
  have hpos : 0 < r := (two_zpow_pos _).trans_le h
  have hlog : -1022 ≤ Int.log 2 r := (Int.zpow_le_iff_le_log one_lt_two hpos).1 h
  have hplace : place r + (52 : ℕ) = Int.log 2 r := by
    rw [place, lastPlace_eq]
    omega
  have hlow : (2 : ℚ) ^ Int.log 2 r ≤ r := Int.zpow_log_le_self one_lt_two hpos
  rw [← hplace, two_zpow_add] at hlow
  have herror := abs_rounded_sub_le_place hpos.le
  linarith

/-! ### Numbers of double precision -/

/-- The ratio is a number of double precision. -/
def IsDouble (r : ℚ) : Prop :=
  ∃ m e, IsKept m e ∧ r = m * 2 ^ e

/-- The number that a ratio is rounded to, if the ratio is not below zero. -/
inductive RoundsTo (r : ℚ) : Binary64 → Prop where
  | finite {m : ℕ} {e : ℤ} (hkept : IsKept m e) (h : m * 2 ^ e = rounded r) :
      RoundsTo r (.finite false m e)
  | overflow (h : 2 ^ (1024 : ℤ) ≤ rounded r) : RoundsTo r (.infinity false)

theorem IsKept.lt_overflow {m : ℕ} {e : ℤ} (h : IsKept m e) : (m * 2 ^ e : ℚ) < 2 ^ (1024 : ℤ) := by
  have hgreatest := h.greatest
  have hlt : (m : ℚ) < 2 ^ 53 := by exact_mod_cast h.lt
  calc (m * 2 ^ e : ℚ) < 2 ^ 53 * 2 ^ e := mul_lt_mul_of_pos_right hlt (two_zpow_pos e)
    _ = 2 ^ (e + (53 : ℕ)) := (two_zpow_add e 53).symm
    _ ≤ 2 ^ (1024 : ℤ) := zpow_le_zpow_right₀ one_le_two (by omega)

theorem carried_value (m : ℕ) (e : ℤ) : ((carried m e).1 * 2 ^ (carried m e).2 : ℚ) = m * 2 ^ e := by
  have hprecision : precision = 53 := rfl
  unfold carried
  rw [hprecision]
  split
  · rename_i heq
    rw [heq, show e + 1 = e + (1 : ℕ) from rfl, two_zpow_add]
    push_cast
    ring
  · rfl

theorem carried_full {m : ℕ} {e : ℤ} (h : 2 ^ 52 ≤ m ∨ e = -1074) :
    2 ^ 52 ≤ (carried m e).1 ∨ (carried m e).2 = -1074 := by
  have hprecision : precision = 53 := rfl
  unfold carried
  rw [hprecision]
  split
  · exact .inl le_rfl
  · exact h

/-- A significand that is filled, with an exponent above the greatest one, is out of range. -/
theorem overflow_le {m : ℕ} {e : ℤ} (hm : 2 ^ 52 ≤ m) (he : 971 < e) :
    (2 : ℚ) ^ (1024 : ℤ) ≤ m * 2 ^ e := by
  have hm' : (2 : ℚ) ^ 52 ≤ m := by exact_mod_cast hm
  calc (2 : ℚ) ^ (1024 : ℤ) ≤ 2 ^ (e + (52 : ℕ)) := zpow_le_zpow_right₀ one_le_two (by omega)
    _ = 2 ^ 52 * 2 ^ e := two_zpow_add e 52
    _ ≤ m * 2 ^ e := mul_le_mul_of_nonneg_right hm' (two_zpow_pos e).le

/-- A ratio is rounded to the number that `rounded` says. -/
theorem roundsTo_ofRatio (num : ℕ) {den : ℕ} (hden : 0 < den) :
    RoundsTo (num / den) (ofRatio false num den) := by
  obtain rfl | hnum := num.eq_zero_or_pos
  · refine .finite isKept_zero ?_
    rw [Nat.cast_zero, zero_mul, zero_div, rounded_zero]
  · have hpos : (0 : ℚ) < num / den := by positivity
    obtain ⟨hm, hfull⟩ := bounds_of_pos hpos
    have hleast : -1074 ≤ place (num / den : ℚ) := by
      rw [place, lastPlace_eq]
      omega
    have hvalue : _ = rounded (num / den : ℚ) := carried_value _ _
    have hover := carried_full hfull
    have hkept := isKept_carried hm hleast hfull
    rw [ofRatio_eq false hnum hden, log2Ratio_eq_log hnum hden, ← place, ofParts]
    generalize carried (nearest (num / den / 2 ^ place (num / den : ℚ))) (place (num / den : ℚ)) = parts
      at hvalue hover hkept ⊢
    split
    · rename_i hgreat
      have hgreat' : 971 < parts.2 := hgreat
      exact .overflow ((overflow_le (hover.resolve_right (by omega)) hgreat').trans_eq hvalue)
    · rename_i hle
      exact .finite (hkept (not_lt.1 hle)) hvalue

/-- Numbers of double precision are not changed. -/
theorem rounded_of_isDouble {r : ℚ} (h : IsDouble r) : rounded r = r := by
  obtain ⟨m, e, hkept, rfl⟩ := h
  obtain rfl | hm := m.eq_zero_or_pos
  · rw [Nat.cast_zero, zero_mul, rounded_zero]
  · have hround := roundsTo_ofRatio (ratio m e).1 (ratio_pos hm e).2
    rw [ofRatio_ratio hkept hm false, ratio_eq] at hround
    cases hround with
    | finite _ h => exact h.symm

theorem two_zpow_isDouble {k : ℤ} (hleast : -1022 ≤ k) (hgreatest : k ≤ 1023) : IsDouble (2 ^ k) := by
  refine ⟨2 ^ 52, k - 52, ⟨by norm_num, by omega, by omega, .inl le_rfl⟩, ?_⟩
  rw [Nat.cast_pow, Nat.cast_ofNat, ← two_zpow_add, Nat.cast_ofNat, sub_add_cancel]

theorem rounded_lt_overflow {r : ℚ} (h : 0 ≤ r) (hle : r ≤ 2 ^ (1023 : ℤ)) :
    rounded r < 2 ^ (1024 : ℤ) := by
  have hround := rounded_mono h hle
  rw [rounded_of_isDouble (two_zpow_isDouble (by norm_num) (by norm_num))] at hround
  exact hround.trans_lt (zpow_lt_zpow_right₀ one_lt_two (by norm_num))

/-- Natural numbers that need no place after the last bit are not changed. -/
theorem rounded_of_place_le {n : ℕ} (h : place n ≤ 0) : rounded n = n := by
  obtain ⟨k, hk⟩ := Int.eq_ofNat_of_zero_le (a := -place n) (by omega)
  have hdiv : (n / 2 ^ place n : ℚ) = (n * 2 ^ k : ℕ) := by
    rw [show place n = -(k : ℤ) by omega, zpow_neg, zpow_natCast, div_inv_eq_mul]
    push_cast
    rfl
  rw [rounded, hdiv, nearest_natCast, ← hdiv, div_mul_cancel₀ _ (two_zpow_pos _).ne']

theorem rounded_natCast {n : ℕ} (h : n < 2 ^ 53) : rounded n = n := by
  obtain rfl | hn := n.eq_zero_or_pos
  · exact rounded_zero
  · refine rounded_of_place_le ?_
    have hlog : Int.log 2 (n : ℚ) < 53 := by
      refine (Int.lt_zpow_iff_log_lt one_lt_two (by exact_mod_cast hn)).1 ?_
      exact_mod_cast h
    rw [place, lastPlace_eq]
    omega

/-- Even numbers are rounded to even numbers. -/
theorem exists_rounded_even (n : ℕ) : ∃ k : ℕ, rounded (2 * n : ℕ) = 2 * k := by
  obtain hplace | hplace := le_or_gt (place (2 * n : ℕ)) 0
  · refine ⟨n, ?_⟩
    rw [rounded_of_place_le hplace]
    push_cast
    rfl
  · obtain ⟨k, hk⟩ := Int.eq_ofNat_of_zero_le (a := place (2 * n : ℕ) - 1) (by omega)
    refine ⟨nearest ((2 * n : ℕ) / 2 ^ place (2 * n : ℕ)) * 2 ^ k, ?_⟩
    rw [rounded, show place (2 * n : ℕ) = (k : ℤ) + (1 : ℕ) by omega, two_zpow_add, zpow_natCast]
    push_cast
    ring

/-! ### Decimals -/

theorem overflow_le_rounded {r : ℚ} (h : 2 ^ (1024 : ℤ) ≤ r) : 2 ^ (1024 : ℤ) ≤ rounded r := by
  have hpos : 0 < r := (two_zpow_pos _).trans_le h
  have hlog : 1024 ≤ Int.log 2 r := (Int.zpow_le_iff_le_log one_lt_two hpos).1 h
  have hplace : place r = max _ _ := lastPlace_eq (Int.log 2 r)
  exact overflow_le ((bounds_of_pos hpos).2.resolve_right (by omega)) (by omega)

/-- What lies closer to zero than to the numbers next to it is rounded to zero. -/
theorem rounded_eq_zero {r : ℚ} (h : 0 ≤ r) (hlt : r < 2 ^ (-1075 : ℤ)) : rounded r = 0 := by
  obtain rfl | hpos := h.eq_or_lt
  · exact rounded_zero
  · have hlog : Int.log 2 r < -1075 := (Int.lt_zpow_iff_log_lt one_lt_two hpos).1 hlt
    have hplace : place r = -1074 := by
      rw [place, lastPlace_eq]
      omega
    have hzero : nearest (r / 2 ^ (-1074 : ℤ)) = 0 := by
      refine nearest_of_near ?_
      have hu := two_zpow_pos (-1074)
      have hhalf : (2 : ℚ) ^ (-1075 : ℤ) * 2 = 2 ^ (-1074 : ℤ) := by
        rw [← zpow_add_one₀ (by norm_num)]
        norm_num
      rw [Nat.cast_zero, sub_zero, abs_of_nonneg (by positivity), div_lt_iff₀ hu]
      linarith
    rw [rounded, hplace, hzero, Nat.cast_zero, zero_mul]

/-- A decimal is rounded to the number that `rounded` says, also where its exponent is out of range. -/
theorem roundsTo_ofDecimal (digits : ℕ) (exponent : ℤ) :
    RoundsTo (decimalValue (digits, exponent)) (ofDecimal false digits exponent) := by
  have hnonneg : 0 ≤ decimalValue (digits, exponent) := by
    unfold decimalValue
    positivity
  by_cases hcomputed : IsComputed digits exponent
  · rw [ofDecimal_eq_ofRatio hcomputed]
    obtain ⟨-, hden⟩ := productBy_pos (by decide : 0 < 10) (Nat.pos_of_ne_zero hcomputed.ne_zero) exponent
    have hround := roundsTo_ofRatio (productBy 10 digits exponent).1 hden
    rwa [productBy_ratio] at hround
  · unfold ofDecimal
    split
    · rename_i hzero
      refine .finite isKept_zero ?_
      rw [hzero, decimalValue, Nat.cast_zero, zero_mul, zero_mul, rounded_zero]
    · rename_i hdigits
      have hone : (1 : ℚ) ≤ digits := by exact_mod_cast Nat.pos_of_ne_zero hdigits
      split
      · rename_i hgreat
        refine .overflow (overflow_le_rounded ?_)
        have hpow : 2 ^ 1024 ≤ 10 ^ 310 := by decide +kernel
        calc (2 : ℚ) ^ (1024 : ℤ) ≤ 10 ^ (310 : ℤ) := by exact_mod_cast hpow
          _ ≤ 10 ^ exponent := zpow_le_zpow_right₀ (by norm_num) hgreat.le
          _ ≤ digits * 10 ^ exponent := le_mul_of_one_le_left (by positivity) hone
      · rename_i hle
        have hlow : exponent < -400 - Nat.log2 digits := by
          by_contra hge
          exact hcomputed ⟨hdigits, not_lt.1 hle, not_lt.1 hge⟩
        rw [if_neg (by omega), if_pos hlow]
        refine .finite isKept_zero ?_
        have hdigits' : digits ≤ 10 ^ (Nat.log2 digits + 1) :=
          Nat.lt_log2_self.le.trans (Nat.pow_le_pow_left (by decide) _)
        have hpow : 2 ^ 1075 < 10 ^ 400 := by decide +kernel
        have htiny : decimalValue (digits, exponent) < 2 ^ (-1075 : ℤ) :=
          calc (digits * 10 ^ exponent : ℚ)
              ≤ 10 ^ (Nat.log2 digits + 1) * 10 ^ (-400 - ((Nat.log2 digits + 1 : ℕ) : ℤ)) :=
                mul_le_mul (by exact_mod_cast hdigits')
                  (zpow_le_zpow_right₀ (by norm_num) (by omega)) (by positivity) (by positivity)
            _ = 10 ^ (-400 : ℤ) := by
                rw [← zpow_natCast, ← zpow_add₀ (by norm_num), add_sub_cancel]
            _ < 2 ^ (-1075 : ℤ) := by
                rw [zpow_neg, zpow_neg]
                exact inv_strictAnti₀ (by positivity) (by exact_mod_cast hpow)
        rw [rounded_eq_zero hnonneg htiny, Nat.cast_zero, zero_mul]

/-! ### Comparison and halves -/

/-- Finite numbers are compared by value. -/
theorem below_finite_iff (m m' : ℕ) (e e' : ℤ) :
    below (.finite false m e) (.finite false m' e') = true ↔ (m * 2 ^ e : ℚ) < m' * 2 ^ e' := by
  rw [← ratio_eq, ← ratio_eq, div_lt_div_iff₀ (by exact_mod_cast ratio_den_pos m e)
    (by exact_mod_cast ratio_den_pos m' e')]
  simp only [below, fraction, Bool.false_eq_true, if_false, decide_eq_true_eq]
  norm_cast

theorem scale_half {m : ℕ} {e : ℤ} (hkept : IsKept m (e - 1)) (hm : 0 < m) :
    (finite false m e).scale 1 2 = .finite false m (e - 1) := by
  obtain ⟨hnum, hden⟩ := ratio_pos hm e
  obtain ⟨hnum', hden'⟩ := ratio_pos hm (e - 1)
  rw [← ofRatio_ratio hkept hm false]
  refine ofRatio_congr false (Nat.mul_pos hnum one_pos) (Nat.mul_pos hden two_pos) hnum' hden' ?_
  have hvalue := ratio_eq m e
  rw [ratio_eq, zpow_sub_one₀ (by norm_num), ← mul_assoc, ← hvalue]
  push_cast
  rw [mul_one, div_mul_eq_div_div]
  rfl

namespace RoundsTo

variable {v w : ℚ} {x y : Binary64}

theorem congr (h : rounded v = rounded w) (hx : RoundsTo v x) : RoundsTo w x := by
  cases hx with
  | finite hkept hvalue => exact .finite hkept (hvalue.trans h)
  | overflow hover => exact .overflow (h ▸ hover)

/-- A ratio that rounding does not change is a number of double precision, unless it is out of range. -/
theorem isDouble_of_eq (hx : RoundsTo v x) (h : rounded v = v) (hfinite : x ≠ .infinity false) :
    IsDouble v := by
  cases hx with
  | finite hkept hvalue => exact ⟨_, _, hkept, (hvalue.trans h).symm⟩
  | overflow _ => exact absurd rfl hfinite

/-- A ratio that is not out of range is rounded to a finite number. -/
theorem exists_finite (hv : 0 ≤ v) (hle : v ≤ 2 ^ (1023 : ℤ)) (hx : RoundsTo v x) :
    ∃ m e, IsKept m e ∧ x = .finite false m e := by
  cases hx with
  | finite hkept _ => exact ⟨_, _, hkept, rfl⟩
  | overflow hover => exact absurd (rounded_lt_overflow hv hle) hover.not_gt

/-- Numbers that one ratio is rounded to are equal. -/
theorem same (hx : RoundsTo v x) (hy : RoundsTo v y) : x.same y = true := by
  cases hx with
  | finite hkept hvalue =>
    cases hy with
    | finite hkept' hvalue' =>
      rename_i m e m' e'
      have hequal := hvalue.trans hvalue'.symm
      rw [← ratio_eq, ← ratio_eq, div_eq_div_iff (by exact_mod_cast (ratio_den_pos m e).ne')
        (by exact_mod_cast (ratio_den_pos m' e').ne')] at hequal
      have hcross : (ratio m e).1 * (ratio m' e').2 = (ratio m' e').1 * (ratio m e).2 := by
        exact_mod_cast hequal
      simp [Binary64.same, hcross]
    | overflow hover => exact absurd (hvalue ▸ hkept.lt_overflow) hover.not_gt
  | overflow hover =>
    cases hy with
    | finite hkept hvalue => exact absurd (hvalue ▸ hkept.lt_overflow) hover.not_gt
    | overflow hover' => rfl

theorem isCanonical (hx : RoundsTo v x) : x.IsCanonical := by
  cases hx with
  | finite hkept => exact hkept
  | overflow => trivial

theorem isNegative (hx : RoundsTo v x) : x.isNegative = false := by
  cases hx <;> rfl

/-- A ratio is rounded to one number only. -/
theorem unique (hx : RoundsTo v x) (hy : RoundsTo v y) : x = y :=
  eq_of_same hx.isCanonical hy.isCanonical (hx.isNegative.trans hy.isNegative.symm) (hx.same hy)

/-- The lesser of two ratios is rounded to the lesser of the numbers that they are rounded to. -/
theorem least (hv : 0 ≤ v) (hw : 0 ≤ w) (hx : RoundsTo v x) (hy : RoundsTo w y) :
    RoundsTo (min v w) (x.least y) := by
  have hlesser : ∀ {a b : ℚ}, 0 ≤ a → rounded b ≤ rounded a → rounded (min a b) = rounded b := by
    intro a b ha hab
    obtain hle | hlt := le_or_gt b a
    · rw [min_eq_right hle]
    · rw [min_eq_left hlt.le]
      exact le_antisymm (rounded_mono ha hlt.le) hab
  cases hx with
  | finite hkept hvalue =>
    cases hy with
    | finite hkept' hvalue' =>
      rename_i m e m' e'
      unfold Binary64.least
      split
      · rename_i hbelow
        rw [below_finite_iff, hvalue, hvalue'] at hbelow
        exact congr (hlesser hv hbelow.le).symm (.finite hkept' hvalue')
      · rename_i hbelow
        rw [below_finite_iff, hvalue, hvalue', not_lt] at hbelow
        rw [min_comm]
        exact congr (hlesser hw hbelow).symm (.finite hkept hvalue)
    | overflow hover =>
      have hle : rounded v ≤ rounded w := ((hvalue ▸ hkept.lt_overflow).trans_le hover).le
      rw [min_comm]
      exact congr (hlesser hw hle).symm (.finite hkept hvalue)
  | overflow hover =>
    cases hy with
    | finite hkept hvalue =>
      have hle : rounded w ≤ rounded v := ((hvalue ▸ hkept.lt_overflow).trans_le hover).le
      exact congr (hlesser hv hle).symm (.finite hkept hvalue)
    | overflow hover' =>
      refine .overflow ?_
      obtain hmin | hmin := min_choice v w <;> rw [hmin]
      · exact hover
      · exact hover'

/-- Half of a number is exact, unless the number is one of those nearest to zero. -/
theorem half (hv : v = 0 ∨ 2 * leastNormal ≤ v) (hx : RoundsTo v x) :
    (∃ m e, IsKept m e ∧ x.scale 1 2 = .finite false m e ∧ (m * 2 ^ e : ℚ) = rounded v / 2) ∨
      x.scale 1 2 = .infinity false ∧ 2 ^ (1024 : ℤ) ≤ rounded v := by
  cases hx with
  | overflow hover => exact .inr ⟨rfl, hover⟩
  | finite hkept hvalue =>
    rename_i m e
    left
    have hu := two_zpow_pos e
    obtain rfl | hnormal := hv
    · rw [rounded_zero] at hvalue ⊢
      obtain rfl : m = 0 := by
        exact_mod_cast (mul_eq_zero.1 hvalue).resolve_right hu.ne'
      obtain rfl := IsKept.eq_of_zero hkept
      exact ⟨0, -1074, isKept_zero, by decide +kernel, by norm_num⟩
    · have hleast : 2 * leastNormal ≤ m * 2 ^ e := by
        have htwice : 2 * leastNormal = 2 ^ (-1021 : ℤ) := by
          rw [leastNormal, ← zpow_one_add₀ (by norm_num)]
          norm_num
        rw [htwice] at hnormal ⊢
        rw [hvalue, ← rounded_of_isDouble (two_zpow_isDouble (by norm_num) (by norm_num))]
        exact rounded_mono (two_zpow_pos _).le hnormal
      have he : e ≠ -1074 := by
        rintro rfl
        have hlt : (m : ℚ) < 2 ^ 53 := by exact_mod_cast hkept.lt
        have htop : (2 : ℚ) ^ 53 * 2 ^ (-1074 : ℤ) = 2 * leastNormal := by
          rw [leastNormal, ← two_zpow_add, ← zpow_one_add₀ (by norm_num)]
          norm_num
        have := mul_lt_mul_of_pos_right hlt hu
        linarith
      have hm := hkept.full.resolve_right he
      have hleast' := hkept.least
      have hgreatest := hkept.greatest
      have hkept' : IsKept m (e - 1) := ⟨hkept.lt, by omega, by omega, .inl hm⟩
      refine ⟨m, e - 1, hkept', scale_half hkept' (by omega), ?_⟩
      rw [zpow_sub_one₀ (by norm_num), ← hvalue]
      ring

end RoundsTo

/-! ### Rounding to decimal places -/

theorem lt_of_forall_ne_natCast {m : ℕ} {e : ℤ} (hkept : IsKept m e)
    (h : ∀ n : ℕ, (m * 2 ^ e : ℚ) ≠ n) :
    (m * 2 ^ e : ℚ) < 2 ^ 53 := by
  have hm : (m : ℚ) < 2 ^ 53 := by exact_mod_cast hkept.lt
  have he : e ≤ 0 := by
    by_contra hpos
    obtain ⟨k, rfl⟩ := Int.eq_ofNat_of_zero_le (a := e) (by omega)
    refine h (m * 2 ^ k) ?_
    rw [zpow_natCast]
    push_cast
    rfl
  exact (mul_le_of_le_one_right (Nat.cast_nonneg m) (zpow_le_one_of_nonpos₀ one_le_two he)).trans_lt hm

theorem roundsTo_roundPlaces (m : ℕ) (e : ℤ) (places : ℕ) :
    RoundsTo (nearest (m * 2 ^ e * 10 ^ places) / 10 ^ places)
      ((finite false m e).roundPlaces places) := by
  have hquotient : roundQuotient ((ratio m e).1 * 10 ^ places) (ratio m e).2
      = nearest (m * 2 ^ e * 10 ^ places) := by
    rw [roundQuotient_eq _ (ratio_den_pos m e)]
    push_cast
    rw [mul_div_right_comm, ratio_eq]
  have hplaces : (finite false m e).roundPlaces places
      = ofRatio false (nearest (m * 2 ^ e * 10 ^ places)) (10 ^ places) := by
    rw [← hquotient]
    rfl
  have hround := roundsTo_ofRatio (nearest (m * 2 ^ e * 10 ^ places))
    (Nat.pow_pos (n := places) (by decide : 0 < 10))
  rw [hplaces]
  exact_mod_cast hround

/-- A finite number that is rounded to some decimal places stays finite. -/
theorem exists_finite_roundPlaces {m : ℕ} {e : ℤ} (hkept : IsKept m e) (places : ℕ) :
    ∃ m' e', IsKept m' e' ∧ (finite false m e).roundPlaces places = .finite false m' e' := by
  have hu : (0 : ℚ) < 10 ^ places := by positivity
  have hround := roundsTo_roundPlaces m e places
  generalize (finite false m e).roundPlaces places = x at hround ⊢
  by_cases hwhole : ∃ n : ℕ, (m * 2 ^ e : ℚ) = n
  · obtain ⟨n, hn⟩ := hwhole
    have hvalue : (nearest (m * 2 ^ e * 10 ^ places) / 10 ^ places : ℚ) = m * 2 ^ e := by
      have hnearest : nearest (n * 10 ^ places) = n * 10 ^ places := by
        exact_mod_cast nearest_natCast (n * 10 ^ places)
      rw [hn, hnearest]
      push_cast
      field_simp
    rw [hvalue] at hround
    cases hround with
    | finite hkept' _ => exact ⟨_, _, hkept', rfl⟩
    | overflow hover =>
      rw [rounded_of_isDouble ⟨m, e, hkept, rfl⟩] at hover
      exact absurd hkept.lt_overflow hover.not_gt
  · have hlt := lt_of_forall_ne_natCast hkept (not_exists.1 hwhole)
    have hnear := (abs_le.1 (abs_sub_nearest_le (r := m * 2 ^ e * 10 ^ places) (by positivity))).1
    have hone : (1 : ℚ) ≤ 10 ^ places := one_le_pow₀ (by norm_num)
    have hsmall : (nearest (m * 2 ^ e * 10 ^ places) / 10 ^ places : ℚ) ≤ 2 ^ (54 : ℤ) := by
      rw [div_le_iff₀ hu]
      have hscaled : (m * 2 ^ e * 10 ^ places : ℚ) ≤ 2 ^ 53 * 10 ^ places :=
        mul_le_mul_of_nonneg_right hlt.le hu.le
      norm_num
      linarith
    have hpow : (2 : ℚ) ^ (54 : ℤ) ≤ 2 ^ (1023 : ℤ) := zpow_le_zpow_right₀ one_le_two (by norm_num)
    exact hround.exists_finite (div_nonneg (Nat.cast_nonneg _) hu.le) (hsmall.trans hpow)

end MarkupTidy.Binary64
