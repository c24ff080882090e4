import Mathlib.Algebra.Order.Field.Power
import Mathlib.Algebra.Order.Floor.Semifield
import Mathlib.Data.Rat.Floor
import Mathlib.Tactic.FieldSimp
import Mathlib.Tactic.Linarith
import Mathlib.Tactic.Ring
import MarkupTidy.Number.DecimalText
import MarkupTidy.Proofs.Number.Reader

/-! # The shortest digits

A number of double precision is written with the fewest digits that are rounded to it.  Seventeen digits
always are, so the search for them comes to an end.

* `ofRatio_eq`: rounding in terms of the ratio alone, so `ofRatio_congr`: equal ratios are rounded alike.
* `ofRatio_of_near`: a ratio next to a number is rounded to it.
* `ofDecimal_seventeen`: so is the decimal of seventeen digits next to it; `ofDecimal_shortestFrom`: and
  what the search finds.
* `isCanonical_read?`: numbers are read as they are kept. -/

namespace MarkupTidy.Binary64

/-! ### The nearest natural number -/

/-- The natural number nearest to a ratio, of two the even one. -/
def nearest (r : ℚ) : ℕ :=
  if 1 / 2 < r - ⌊r⌋₊ ∨ r - ⌊r⌋₊ = 1 / 2 ∧ ⌊r⌋₊ % 2 = 1 then ⌊r⌋₊ + 1 else ⌊r⌋₊

theorem roundQuotient_eq (n : ℕ) {d : ℕ} (hd : 0 < d) : roundQuotient n d = nearest (n / d) := by
  have hfloor : ⌊(n / d : ℚ)⌋₊ = n / d := Nat.floor_div_eq_div n d
  have hd' : (0 : ℚ) < d := by exact_mod_cast hd
  have hrest : (n / d : ℚ) - (n / d : ℕ) = (n % d : ℕ) / d := by
    have h : (n : ℚ) = d * (n / d : ℕ) + (n % d : ℕ) := by exact_mod_cast (Nat.div_add_mod n d).symm
    field_simp
    linarith
  have hlt : 1 / 2 < ((n % d : ℕ) / d : ℚ) ↔ d < 2 * (n % d) := by
    rw [lt_div_iff₀ hd', ← Nat.cast_lt (α := ℚ)]
    push_cast
    constructor <;> intro h <;> linarith
  have heq : ((n % d : ℕ) / d : ℚ) = 1 / 2 ↔ d = 2 * (n % d) := by
    rw [div_eq_iff hd'.ne', ← Nat.cast_inj (R := ℚ)]
    push_cast
    constructor <;> intro h <;> linarith
  simp only [roundQuotient, nearest, hfloor, hrest, hlt, heq, Bool.or_eq_true, decide_eq_true_eq,
    Bool.and_eq_true, beq_iff_eq]

theorem nearest_of_near {r : ℚ} {m : ℕ} (h : |r - m| < 1 / 2) : nearest r = m := by
  obtain ⟨hlow, hhigh⟩ := abs_lt.1 h
  by_cases hm : (m : ℚ) ≤ r
  · have hfloor : ⌊r⌋₊ = m := by
      rw [Nat.floor_eq_iff (by linarith [Nat.cast_nonneg (α := ℚ) m])]
      exact ⟨hm, by linarith⟩
    rw [nearest, hfloor, if_neg]
    rintro (h | ⟨h, -⟩) <;> linarith
  · rw [not_le] at hm
    obtain _ | m := m
    · have hfloor : ⌊r⌋₊ = 0 := Nat.floor_of_nonpos (by exact_mod_cast hm.le)
      rw [nearest, hfloor, if_neg]
      push_cast at *
      rintro (h | ⟨h, -⟩) <;> linarith
    · have hfloor : ⌊r⌋₊ = m := by
        push_cast at *
        rw [Nat.floor_eq_iff (by linarith [Nat.cast_nonneg (α := ℚ) m])]
        exact ⟨by linarith, by linarith⟩
      rw [nearest, hfloor, if_pos]
      left
      push_cast at *
      linarith

theorem abs_sub_nearest_le {r : ℚ} (h : 0 ≤ r) : |r - nearest r| ≤ 1 / 2 := by
  have hlow := Nat.floor_le h
  have hhigh := Nat.lt_floor_add_one r
  rw [nearest, abs_le]
  split
  · rename_i hup
    push_cast
    constructor
    · rcases hup with h | ⟨h, -⟩ <;> linarith
    · linarith
  · rename_i hdown
    rw [not_or, not_lt] at hdown
    exact ⟨by linarith, hdown.1⟩

/-! ### Ratios and powers -/

/-- The ratio `num / (den · base ^ e)` as numerator and denominator. -/
def quotientBy (base num den : ℕ) (e : ℤ) : ℕ × ℕ :=
  if 0 ≤ e then (num, den * base ^ e.toNat) else (num * base ^ (-e).toNat, den)

/-- The ratio `num · base ^ e` as numerator and denominator. -/
def productBy (base num : ℕ) (e : ℤ) : ℕ × ℕ :=
  if 0 ≤ e then (num * base ^ e.toNat, 1) else (num, base ^ (-e).toNat)

theorem quotientBy_ratio (base num den : ℕ) (e : ℤ) :
    ((quotientBy base num den e).1 / (quotientBy base num den e).2 : ℚ) = num / den / base ^ e := by
  unfold quotientBy
  split
  · rename_i he
    obtain ⟨k, rfl⟩ := Int.eq_ofNat_of_zero_le he
    rw [Int.toNat_natCast, zpow_natCast]
    push_cast
    rw [div_div]
  · rename_i he
    obtain ⟨k, hk⟩ := Int.eq_ofNat_of_zero_le (a := -e) (by omega)
    obtain rfl : e = -(k : ℤ) := by omega
    rw [neg_neg, Int.toNat_natCast, zpow_neg, zpow_natCast, div_inv_eq_mul]
    push_cast
    ring

theorem productBy_ratio (base num : ℕ) (e : ℤ) :
    ((productBy base num e).1 / (productBy base num e).2 : ℚ) = num * base ^ e := by
  unfold productBy
  split
  · rename_i he
    obtain ⟨k, rfl⟩ := Int.eq_ofNat_of_zero_le he
    rw [Int.toNat_natCast, zpow_natCast]
    push_cast
    rw [div_one]
  · rename_i he
    obtain ⟨k, hk⟩ := Int.eq_ofNat_of_zero_le (a := -e) (by omega)
    obtain rfl : e = -(k : ℤ) := by omega
    rw [neg_neg, Int.toNat_natCast, zpow_neg, zpow_natCast, div_eq_mul_inv]
    push_cast
    rfl

theorem quotientBy_pos {base : ℕ} (hbase : 0 < base) (num : ℕ) {den : ℕ} (hden : 0 < den) (e : ℤ) :
    0 < (quotientBy base num den e).2 := by
  unfold quotientBy
  split
  · exact Nat.mul_pos hden (Nat.pow_pos hbase)
  · exact hden

theorem productBy_pos {base num : ℕ} (hbase : 0 < base) (hnum : 0 < num) (e : ℤ) :
    0 < (productBy base num e).1 ∧ 0 < (productBy base num e).2 := by
  unfold productBy
  split
  · exact ⟨Nat.mul_pos hnum (Nat.pow_pos hbase), Nat.one_pos⟩
  · exact ⟨hnum, Nat.pow_pos hbase⟩

theorem descale_ratio (num den : ℕ) (e : ℤ) :
    ((descale num den e).1 / (descale num den e).2 : ℚ) = num / den / 2 ^ e :=
  quotientBy_ratio 2 num den e

theorem descale_pos (num : ℕ) {den : ℕ} (hden : 0 < den) (e : ℤ) : 0 < (descale num den e).2 :=
  quotientBy_pos (by decide) num hden e

theorem decimalGrid_ratio (num den : ℕ) (e : ℤ) :
    ((decimalGrid num den e).1 / (decimalGrid num den e).2 : ℚ) = num / den / 10 ^ e :=
  quotientBy_ratio 10 num den e

theorem decimalGrid_pos (num : ℕ) {den : ℕ} (hden : 0 < den) (e : ℤ) : 0 < (decimalGrid num den e).2 :=
  quotientBy_pos (by decide) num hden e

theorem ratio_eq (m : ℕ) (e : ℤ) : ((ratio m e).1 / (ratio m e).2 : ℚ) = m * 2 ^ e :=
  productBy_ratio 2 m e

theorem ratio_pos {m : ℕ} (hm : 0 < m) (e : ℤ) : 0 < (ratio m e).1 ∧ 0 < (ratio m e).2 :=
  productBy_pos (by decide) hm e

theorem ten_zpow_pos (e : ℤ) : (0 : ℚ) < 10 ^ e :=
  zpow_pos (by norm_num) e

/-! ### Binary exponents -/

theorem two_zpow_pos (e : ℤ) : (0 : ℚ) < 2 ^ e :=
  zpow_pos (by norm_num) e

theorem two_zpow_add (e : ℤ) (k : ℕ) : (2 : ℚ) ^ (e + k) = 2 ^ k * 2 ^ e := by
  rw [zpow_add₀ (by norm_num), zpow_natCast, mul_comm]

theorem lt_iff_of_ratio {p : ℕ × ℕ} (h : 0 < p.2) : p.1 < p.2 ↔ (p.1 / p.2 : ℚ) < 1 := by
  rw [div_lt_one (by exact_mod_cast h), Nat.cast_lt]

/-- The exponent of a ratio is the greatest one that it reaches. -/
theorem log2Ratio_spec {num den : ℕ} (hnum : 0 < num) (hden : 0 < den) :
    (2 : ℚ) ^ log2Ratio num den ≤ num / den ∧ (num / den : ℚ) < 2 ^ (log2Ratio num den + 1) := by
  have hden' : (0 : ℚ) < den := by exact_mod_cast hden
  set guess : ℤ := (Nat.log2 num : ℤ) - Nat.log2 den with hguess
  have hnumlow : (2 : ℚ) ^ (Nat.log2 num : ℤ) ≤ num := by
    exact_mod_cast Nat.log2_self_le hnum.ne'
  have hnumhigh : (num : ℚ) < 2 ^ ((Nat.log2 num : ℤ) + 1) := by
    exact_mod_cast Nat.lt_log2_self
  have hdenlow : (2 : ℚ) ^ (Nat.log2 den : ℤ) ≤ den := by
    exact_mod_cast Nat.log2_self_le hden.ne'
  have hdenhigh : (den : ℚ) < 2 ^ ((Nat.log2 den : ℤ) + 1) := by
    exact_mod_cast Nat.lt_log2_self
  have hlow : (2 : ℚ) ^ (guess - 1) ≤ num / den := by
    have hsplit : (2 : ℚ) ^ (guess - 1) * 2 ^ ((Nat.log2 den : ℤ) + 1) = 2 ^ (Nat.log2 num : ℤ) := by
      rw [← zpow_add₀ (by norm_num)]
      congr 1
      omega
    rw [le_div_iff₀ hden']
    exact (mul_le_mul_of_nonneg_left hdenhigh.le (two_zpow_pos _).le).trans (hsplit.trans_le hnumlow)
  have hhigh : (num / den : ℚ) < 2 ^ (guess + 1) := by
    have hsplit : (2 : ℚ) ^ (guess + 1) * 2 ^ (Nat.log2 den : ℤ) = 2 ^ ((Nat.log2 num : ℤ) + 1) := by
      rw [← zpow_add₀ (by norm_num)]
      congr 1
      omega
    rw [div_lt_iff₀ hden']
    exact (hnumhigh.trans_eq hsplit.symm).trans_le (mul_le_mul_of_nonneg_left hdenlow (two_zpow_pos _).le)
  have hbelow := lt_iff_of_ratio (descale_pos num hden guess)
  rw [descale_ratio, div_lt_one (two_zpow_pos guess)] at hbelow
  unfold log2Ratio
  rw [← hguess]
  dsimp only
  split
  · rename_i hlt
    rw [sub_add_cancel]
    exact ⟨hlow, hbelow.1 hlt⟩
  · rename_i hle
    exact ⟨not_lt.1 (mt hbelow.2 hle), hhigh⟩

theorem log2Ratio_eq {num den : ℕ} (hnum : 0 < num) (hden : 0 < den) {k : ℤ}
    (hlow : (2 : ℚ) ^ k ≤ num / den) (hhigh : (num / den : ℚ) < 2 ^ (k + 1)) :
    log2Ratio num den = k := by
  obtain ⟨hlow', hhigh'⟩ := log2Ratio_spec hnum hden
  have h := (zpow_lt_zpow_iff_right₀ one_lt_two).1 (hlow.trans_lt hhigh')
  have h' := (zpow_lt_zpow_iff_right₀ one_lt_two).1 (hlow'.trans_lt hhigh)
  omega

/-- A power of two that a ratio does not reach lies above its exponent. -/
theorem log2Ratio_lt {num den : ℕ} (hnum : 0 < num) (hden : 0 < den) {k : ℤ}
    (h : (num / den : ℚ) < 2 ^ k) : log2Ratio num den < k :=
  (zpow_lt_zpow_iff_right₀ one_lt_two).1 ((log2Ratio_spec hnum hden).1.trans_lt h)

theorem le_log2Ratio {num den : ℕ} (hnum : 0 < num) (hden : 0 < den) {k : ℤ}
    (h : (2 : ℚ) ^ k ≤ num / den) : k ≤ log2Ratio num den := by
  have := (zpow_lt_zpow_iff_right₀ one_lt_two).1 (h.trans_lt (log2Ratio_spec hnum hden).2)
  omega

/-! ### Rounding a ratio -/

/-- The last binary place that is kept of a ratio with an exponent. -/
def lastPlace (exponent : ℤ) : ℤ :=
  max (exponent - (precision - 1)) leastExponent

/-- A significand with the exponent of its last place, after a carry out of the precision. -/
def carried (significand : ℕ) (exponent : ℤ) : ℕ × ℤ :=
  if significand = 2 ^ precision then (2 ^ (precision - 1), exponent + 1) else (significand, exponent)

/-- The number with a sign, a significand and an exponent, or an infinity. -/
def ofParts (negative : Bool) (parts : ℕ × ℤ) : Binary64 :=
  if greatestExponent < parts.2 then .infinity negative else .finite negative parts.1 parts.2

/-- What a positive ratio is rounded to depends on nothing but the ratio. -/
theorem ofRatio_eq (negative : Bool) {num den : ℕ} (hnum : 0 < num) (hden : 0 < den) :
    ofRatio negative num den = ofParts negative
      (carried (nearest (num / den / 2 ^ lastPlace (log2Ratio num den)))
        (lastPlace (log2Ratio num den))) := by
  rw [← descale_ratio, ← roundQuotient_eq _ (descale_pos _ hden _)]
  unfold ofRatio
  rw [if_neg hnum.ne']
  rfl

theorem ofRatio_congr (negative : Bool) {num den num' den' : ℕ} (hnum : 0 < num) (hden : 0 < den)
    (hnum' : 0 < num') (hden' : 0 < den') (h : (num / den : ℚ) = num' / den') :
    ofRatio negative num den = ofRatio negative num' den' := by
  obtain ⟨hlow, hhigh⟩ := log2Ratio_spec hnum' hden'
  rw [ofRatio_eq negative hnum hden, ofRatio_eq negative hnum' hden',
    log2Ratio_eq hnum hden (h ▸ hlow) (h ▸ hhigh), h]

/-- The sign does not matter for what the magnitude is rounded to. -/
theorem ofRatio_sign {num den : ℕ} (hnum : 0 < num) (hden : 0 < den) {m : ℕ} {e : ℤ}
    (h : ofRatio false num den = .finite false m e) (negative : Bool) :
    ofRatio negative num den = .finite negative m e := by
  rw [ofRatio_eq _ hnum hden, ofParts] at h ⊢
  split at h
  · exact absurd h (by simp)
  · rename_i hle
    obtain ⟨-, hm, he⟩ := finite.inj h
    rw [if_neg hle, hm, he]

/-! ### Numbers as they are kept -/

/-- A significand and an exponent that a finite number is kept with. -/
structure IsKept (m : ℕ) (e : ℤ) : Prop where
  lt : m < 2 ^ 53
  least : -1074 ≤ e
  greatest : e ≤ 971
  full : 2 ^ 52 ≤ m ∨ e = -1074

/-- Finite numbers are kept with a significand of 53 bits, or with the least exponent. -/
def IsCanonical : Binary64 → Prop
  | finite _ m e => IsKept m e
  | _ => True

theorem nearest_le {r : ℚ} {m : ℕ} (hm : m ≠ 0) (h : r < m) : nearest r ≤ m := by
  have hfloor : ⌊r⌋₊ < m := (Nat.floor_lt' hm).2 h
  unfold nearest
  split <;> omega

theorem le_nearest {r : ℚ} {m : ℕ} (h : m ≤ r) : m ≤ nearest r := by
  have hfloor : m ≤ ⌊r⌋₊ := Nat.le_floor h
  unfold nearest
  split <;> omega

theorem isKept_zero : IsKept 0 (-1074) :=
  ⟨by norm_num, by norm_num, by norm_num, .inr rfl⟩

theorem lastPlace_eq (k : ℤ) : lastPlace k = max (k - 52) (-1074) :=
  rfl

theorem isKept_carried {m : ℕ} {e : ℤ} (hm : m ≤ 2 ^ 53) (hleast : -1074 ≤ e)
    (hfull : 2 ^ 52 ≤ m ∨ e = -1074) (hgreatest : (carried m e).2 ≤ 971) :
    IsKept (carried m e).1 (carried m e).2 := by
  have hprecision : precision = 53 := rfl
  unfold carried at hgreatest ⊢
  rw [hprecision] at hgreatest ⊢
  split
  · rename_i heq
    rw [if_pos heq] at hgreatest
    exact ⟨by norm_num, by dsimp only; omega, hgreatest, .inl le_rfl⟩
  · rename_i hne
    rw [if_neg hne] at hgreatest
    exact ⟨by dsimp only; omega, hleast, hgreatest, hfull⟩

/-- The significand of a ratio between two powers of two has at most one bit more than the precision, and
fills it unless the ratio lies among the numbers nearest to zero. -/
theorem nearest_bounds {r : ℚ} {k : ℤ} (hlow : (2 : ℚ) ^ k ≤ r) (hhigh : r < 2 ^ (k + 1)) :
    nearest (r / 2 ^ lastPlace k) ≤ 2 ^ 53 ∧
      (2 ^ 52 ≤ nearest (r / 2 ^ lastPlace k) ∨ lastPlace k = -1074) := by
  have hplace := lastPlace_eq k
  have hlt : (r / 2 ^ lastPlace k : ℚ) < (2 ^ 53 : ℕ) := by
    have hle : (2 : ℚ) ^ (k + 1) ≤ 2 ^ (lastPlace k + (53 : ℕ)) :=
      zpow_le_zpow_right₀ one_le_two (by omega)
    rw [div_lt_iff₀ (two_zpow_pos _)]
    push_cast
    exact hhigh.trans_le (hle.trans_eq (two_zpow_add _ 53))
  refine ⟨nearest_le (by norm_num) hlt, ?_⟩
  by_cases hk : -1074 ≤ k - 52
  · refine .inl (le_nearest ?_)
    have heq : (2 : ℚ) ^ 52 * 2 ^ lastPlace k = 2 ^ k := by
      rw [← zpow_natCast, ← zpow_add₀ (by norm_num)]
      congr 1
      omega
    rw [le_div_iff₀ (two_zpow_pos _)]
    push_cast
    exact heq.trans_le hlow
  · exact .inr (by omega)

/-- A ratio is rounded to a number as it is kept. -/
theorem isCanonical_ofRatio (negative : Bool) (num : ℕ) {den : ℕ} (hden : 0 < den) :
    IsCanonical (ofRatio negative num den) := by
  obtain rfl | hnum := num.eq_zero_or_pos
  · exact isKept_zero
  · obtain ⟨hlow, hhigh⟩ := log2Ratio_spec hnum hden
    rw [ofRatio_eq negative hnum hden, ofParts]
    generalize log2Ratio num den = k at hlow hhigh ⊢
    obtain ⟨hm, hfull⟩ := nearest_bounds hlow hhigh
    have hplace := lastPlace_eq k
    split
    · trivial
    · rename_i hle
      exact isKept_carried hm (by omega) hfull (not_lt.1 hle)

theorem ofParts_carried {m : ℕ} {e : ℤ} (hkept : IsKept m e) (negative : Bool) :
    ofParts negative (carried m e) = .finite negative m e := by
  have hne : m ≠ 2 ^ precision := hkept.lt.ne
  have hle : ¬greatestExponent < e := hkept.greatest.not_gt
  rw [carried, if_neg hne, ofParts, if_neg hle]

/-- A ratio that is kept to the last place of a number next to it is rounded to that number. -/
theorem ofRatio_of_lastPlace {m : ℕ} {e : ℤ} (hkept : IsKept m e) {num den : ℕ} (hnum : 0 < num)
    (hden : 0 < den) (hplace : lastPlace (log2Ratio num den) = e)
    (hnear : |(num / den : ℚ) - m * 2 ^ e| < 2 ^ e / 2) (negative : Bool) :
    ofRatio negative num den = .finite negative m e := by
  have hu := two_zpow_pos e
  have hscaled : |(num / den / 2 ^ e : ℚ) - m| < 1 / 2 := by
    rw [div_sub' hu.ne', abs_div, abs_of_pos hu, div_lt_iff₀ hu, mul_comm (2 ^ e : ℚ)]
    linarith
  rw [ofRatio_eq negative hnum hden, hplace, nearest_of_near hscaled, ofParts_carried hkept]

/-- A ratio below a power of two is kept to one more place, and the carry takes it back. -/
theorem ofRatio_below_binade {e : ℤ} (hkept : IsKept (2 ^ 52) e) (he : e ≠ -1074) {num den : ℕ}
    (hnum : 0 < num) (hden : 0 < den) (hbelow : (num / den : ℚ) < 2 ^ 52 * 2 ^ e)
    (hclose : (2 ^ 52 * 2 ^ e - 2 ^ e / 4 : ℚ) < num / den) (negative : Bool) :
    ofRatio negative num den = .finite negative (2 ^ 52) e := by
  have hu := two_zpow_pos e
  have hlog : log2Ratio num den = e + (51 : ℕ) := by
    refine log2Ratio_eq hnum hden ?_ ?_
    · rw [two_zpow_add]
      linarith
    · rwa [add_assoc, show ((51 : ℕ) : ℤ) + 1 = (52 : ℕ) from rfl, two_zpow_add]
  have hplace : lastPlace (log2Ratio num den) = e - 1 := by
    have heq := lastPlace_eq (log2Ratio num den)
    have hleast := hkept.least
    omega
  have hhalf : (2 : ℚ) ^ (e - 1) = 2 ^ e / 2 := by
    rw [zpow_sub₀ (by norm_num), zpow_one]
  have hscaled : |(num / den / 2 ^ (e - 1) : ℚ) - (2 ^ 53 : ℕ)| < 1 / 2 := by
    push_cast
    rw [hhalf, div_sub' (by positivity), abs_div, abs_of_pos (half_pos hu),
      div_lt_iff₀ (half_pos hu), abs_lt]
    constructor <;> linarith
  have hcarried : carried (2 ^ 53) (e - 1) = (2 ^ 52, e) := by
    have hprecision : precision = 53 := rfl
    rw [carried, hprecision, if_pos rfl, sub_add_cancel]
  have hle : ¬greatestExponent < e := hkept.greatest.not_gt
  rw [ofRatio_eq negative hnum hden, hplace, nearest_of_near hscaled, hcarried, ofParts, if_neg hle]

/-- A ratio next to a number is rounded to it.  Below a power of two the numbers lie closer. -/
theorem ofRatio_of_near {m : ℕ} {e : ℤ} (hkept : IsKept m e) (hm : 0 < m) {num den : ℕ} (hden : 0 < den)
    (hnear : |(num / den : ℚ) - m * 2 ^ e| < 2 ^ e / 2)
    (hbelow : (m * 2 ^ e - 2 ^ e / 4 : ℚ) < num / den ∨ m ≠ 2 ^ 52) (negative : Bool) :
    ofRatio negative num den = .finite negative m e := by
  have hu := two_zpow_pos e
  obtain ⟨hlow, hhigh⟩ := abs_lt.1 hnear
  have hnum : 0 < num := by
    have hm' : (1 : ℚ) * 2 ^ e ≤ m * 2 ^ e := mul_le_mul_of_nonneg_right (by exact_mod_cast hm) hu.le
    have hpos : (0 : ℚ) < num / den := by linarith
    rcases num.eq_zero_or_pos with rfl | h
    · simp at hpos
    · exact h
  have hm53 : ((m : ℚ) + 1) * 2 ^ e ≤ 2 ^ 53 * 2 ^ e :=
    mul_le_mul_of_nonneg_right (by exact_mod_cast hkept.lt) hu.le
  have hplace := lastPlace_eq (log2Ratio num den)
  have hleast := hkept.least
  rcases le_or_gt (2 ^ (e + (52 : ℕ)) : ℚ) (num / den) with hbinade | hbinade
  · have hlog : log2Ratio num den = e + (52 : ℕ) := by
      refine log2Ratio_eq hnum hden hbinade ?_
      rw [add_assoc, show ((52 : ℕ) : ℤ) + 1 = (53 : ℕ) from rfl, two_zpow_add]
      linarith
    exact ofRatio_of_lastPlace hkept hnum hden (by omega) hnear negative
  · have hlog := log2Ratio_lt hnum hden hbinade
    by_cases he : e = -1074
    · exact ofRatio_of_lastPlace hkept hnum hden (by omega) hnear negative
    · rw [two_zpow_add] at hbinade
      -- the number is the power of two itself, since the ratio is next to it
      obtain rfl : m = 2 ^ 52 := by
        refine le_antisymm ?_ (hkept.full.resolve_right he)
        have hlt : ((m : ℚ) - 1 / 2) * 2 ^ e < 2 ^ 52 * 2 ^ e := by linarith
        have hlt' : (m : ℚ) - 1 / 2 < 2 ^ 52 := lt_of_mul_lt_mul_right hlt hu.le
        have hlt'' : (m : ℚ) < (2 ^ 52 + 1 : ℕ) := by push_cast; linarith
        exact Nat.lt_succ_iff.1 (Nat.cast_lt.1 hlt'')
      have hclose := hbelow.resolve_right (not_not.2 rfl)
      push_cast at hclose
      exact ofRatio_below_binade hkept he hnum hden hbinade hclose negative

/-! ### Powers of ten -/

/-- The exponents of the numbers that are kept. -/
def IsInRange (k : ℤ) : Prop :=
  -1074 ≤ k ∧ k < 1024

/-- Powers of two beside powers of ten, as far as one power of each lies beside the other. -/
theorem zpow_le_of_pow_le {a b : ℕ} (ha : a ≠ 0) (hle : (2 : ℚ) ^ a ≤ 10 ^ b)
    (hge : (10 : ℚ) ^ b ≤ 2 * 2 ^ a) {k q : ℤ} (hk : |k| ≤ a) (h : b * k ≤ a * q) :
    (2 : ℚ) ^ k ≤ 2 * 10 ^ q := by
  have hpow : ((2 : ℚ) ^ a) ^ k ≤ 2 ^ a * (10 ^ b) ^ k := by
    rcases le_or_gt 0 k with hsign | hsign
    · obtain ⟨n, rfl⟩ := Int.eq_ofNat_of_zero_le hsign
      have hone : (1 : ℚ) ≤ 2 ^ a := one_le_pow₀ one_le_two
      rw [zpow_natCast, zpow_natCast]
      exact (pow_le_pow_left₀ (by positivity) hle n).trans (le_mul_of_one_le_left (by positivity) hone)
    · obtain ⟨n, hn⟩ := Int.eq_ofNat_of_zero_le (a := -k) (by omega)
      obtain rfl : k = -(n : ℤ) := by omega
      have hna : n ≤ a := by
        rw [abs_neg, Nat.abs_cast] at hk
        exact_mod_cast hk
      have hlower : ((10 : ℚ) ^ b) ^ n ≤ 2 ^ a * (2 ^ a) ^ n := by
        refine (pow_le_pow_left₀ (by positivity) hge n).trans ?_
        rw [mul_pow]
        exact mul_le_mul_of_nonneg_right (pow_le_pow_right₀ one_le_two hna) (by positivity)
      rw [zpow_neg, zpow_neg, zpow_natCast, zpow_natCast, inv_eq_one_div, ← div_eq_mul_inv,
        div_le_div_iff₀ (by positivity) (by positivity), one_mul]
      exact hlower
  have hcomm (x : ℚ) (k : ℤ) : (x ^ k) ^ a = (x ^ a) ^ k := by
    rw [← zpow_natCast, ← zpow_natCast x a, zpow_comm]
  refine (pow_le_pow_iff_left₀ (by positivity) (by positivity) ha).1 ?_
  calc ((2 : ℚ) ^ k) ^ a = (2 ^ a) ^ k := hcomm 2 k
    _ ≤ 2 ^ a * (10 ^ b) ^ k := hpow
    _ ≤ 2 ^ a * 10 ^ (a * q : ℤ) := by
      rw [← zpow_natCast 10 b, ← zpow_mul]
      exact mul_le_mul_of_nonneg_left (zpow_le_zpow_right₀ (by norm_num) h) (by positivity)
    _ = (2 * 10 ^ q) ^ a := by rw [mul_pow, hcomm, zpow_mul, zpow_natCast]

/-- The decimal logarithm of two is next to `30103 / 100000`. -/
theorem two_zpow_le {k q : ℤ} (hk : |k| ≤ 100000) (h : 30103 * k ≤ 100000 * q) :
    (2 : ℚ) ^ k ≤ 2 * 10 ^ q := by
  have hle : 2 ^ 100000 ≤ 10 ^ 30103 := by decide +kernel
  have hge : 10 ^ 30103 ≤ 2 * 2 ^ 100000 := by decide +kernel
  exact zpow_le_of_pow_le (by norm_num) (by exact_mod_cast hle) (by exact_mod_cast hge) hk h

theorem ten_zpow_le {k q : ℤ} (hk : |k| ≤ 100000) (h : 100000 * q ≤ 30103 * k) :
    (10 : ℚ) ^ q ≤ 2 * 2 ^ k := by
  have hinv := @two_zpow_le (-k) (-q) (by rwa [abs_neg]) (by omega)
  rw [zpow_neg, zpow_neg, inv_eq_one_div, ← div_eq_mul_inv,
    div_le_div_iff₀ (two_zpow_pos k) (ten_zpow_pos q), one_mul] at hinv
  exact hinv

/-- The estimate of a decimal exponent is at most one too high. -/
theorem zpow_estimate_le {k : ℤ} (hk : IsInRange k) :
    (10 : ℚ) ^ ((k * 30103).fdiv 100000 - 1) ≤ 2 ^ k := by
  obtain ⟨hlow, hhigh⟩ := hk
  have hpow := ten_zpow_le (k := k) (q := (k * 30103).fdiv 100000)
    (abs_le.2 ⟨by omega, by omega⟩) (by rw [Int.fdiv_eq_ediv_of_nonneg _ (by norm_num)]; omega)
  have hpos := two_zpow_pos k
  rw [zpow_sub₀ (by norm_num), zpow_one, div_le_iff₀ (by norm_num)]
  linarith

/-- The estimate of a decimal exponent is at most one too low. -/
theorem zpow_le_estimate {k : ℤ} (hk : IsInRange k) :
    (2 : ℚ) ^ (k + 1) ≤ 10 ^ ((k * 30103).fdiv 100000 + 2) := by
  obtain ⟨hlow, hhigh⟩ := hk
  have hpow := two_zpow_le (k := k) (q := (k * 30103).fdiv 100000 + 1)
    (abs_le.2 ⟨by omega, by omega⟩) (by rw [Int.fdiv_eq_ediv_of_nonneg _ (by norm_num)]; omega)
  have hpos := ten_zpow_pos ((k * 30103).fdiv 100000 + 1)
  have hten : (10 : ℚ) ^ ((k * 30103).fdiv 100000 + 2) = 10 * 10 ^ ((k * 30103).fdiv 100000 + 1) := by
    rw [← zpow_one_add₀ (by norm_num)]
    congr 1
    ring
  rw [zpow_add_one₀ (by norm_num), hten]
  linarith

/-- Whether a ratio reaches a power of ten. -/
def reaches (num den : ℕ) (k : ℤ) : Bool :=
  (decimalGrid num den k).2 ≤ (decimalGrid num den k).1

theorem reaches_iff {num den : ℕ} (hden : 0 < den) (k : ℤ) :
    reaches num den k = true ↔ (10 : ℚ) ^ k ≤ num / den := by
  rw [reaches, decide_eq_true_iff, ← not_lt, lt_iff_of_ratio (decimalGrid_pos num hden k),
    decimalGrid_ratio, div_lt_one (ten_zpow_pos k), not_lt]

theorem log10Ratio_eq (num den : ℕ) : log10Ratio num den =
    let guess := (log2Ratio num den * 30103).fdiv 100000
    if reaches num den (guess + 1) then guess + 1 else if reaches num den guess then guess
    else guess - 1 :=
  rfl

/-- The decimal exponent of a ratio is one that it reaches. -/
theorem log10Ratio_spec {num den : ℕ} (hnum : 0 < num) (hden : 0 < den)
    (hk : IsInRange (log2Ratio num den)) :
    (10 : ℚ) ^ log10Ratio num den ≤ num / den ∧ -330 ≤ log10Ratio num den ∧ log10Ratio num den ≤ 310 := by
  have hestimate := (zpow_estimate_le hk).trans (log2Ratio_spec hnum hden).1
  have hguess : -324 ≤ (log2Ratio num den * 30103).fdiv 100000 ∧
      (log2Ratio num den * 30103).fdiv 100000 ≤ 308 := by
    obtain ⟨hlow, hhigh⟩ := hk
    rw [Int.fdiv_eq_ediv_of_nonneg _ (by norm_num)]
    omega
  rw [log10Ratio_eq]
  dsimp only
  split
  · rename_i hreaches
    exact ⟨(reaches_iff hden _).1 hreaches, by omega⟩
  · split
    · rename_i hreaches
      exact ⟨(reaches_iff hden _).1 hreaches, by omega⟩
    · exact ⟨hestimate, by omega⟩

/-! ### Seventeen digits -/

theorem isInRange_log2Ratio {m : ℕ} {e : ℤ} (hkept : IsKept m e) (hm : 0 < m) {num den : ℕ}
    (hnum : 0 < num) (hden : 0 < den) (hvalue : (num / den : ℚ) = m * 2 ^ e) :
    IsInRange (log2Ratio num den) := by
  have hu := two_zpow_pos e
  have hleast := hkept.least
  have hgreatest := hkept.greatest
  constructor
  · refine hleast.trans (le_log2Ratio hnum hden ?_)
    have hone : (1 : ℚ) * 2 ^ e ≤ m * 2 ^ e := mul_le_mul_of_nonneg_right (by exact_mod_cast hm) hu.le
    linarith
  · have hlt : log2Ratio num den < e + (53 : ℕ) := by
      refine log2Ratio_lt hnum hden ?_
      rw [hvalue, two_zpow_add]
      exact mul_lt_mul_of_pos_right (by exact_mod_cast hkept.lt) hu
    omega

/-- The value of a decimal. -/
def decimalValue (decimal : ℕ × ℤ) : ℚ :=
  decimal.1 * 10 ^ decimal.2

/-- The exponents of a decimal for which its power of ten is computed. -/
structure IsComputed (digits : ℕ) (exponent : ℤ) : Prop where
  ne_zero : digits ≠ 0
  le : exponent ≤ 310
  ge : -400 - (Nat.log2 digits : ℤ) ≤ exponent

/-- A decimal is rounded as the ratio that it stands for. -/
theorem ofDecimal_eq_ofRatio {digits : ℕ} {exponent : ℤ} (h : IsComputed digits exponent)
    (negative : Bool) : ofDecimal negative digits exponent
      = ofRatio negative (productBy 10 digits exponent).1 (productBy 10 digits exponent).2 := by
  unfold ofDecimal productBy
  rw [if_neg h.ne_zero, if_neg h.le.not_gt]
  split
  · rfl
  · rw [if_neg h.ge.not_gt]
    rfl

/-- Where rounding gives a number other than zero, the power of ten has been computed. -/
theorem isComputed_of_eq {digits : ℕ} {exponent : ℤ} {m : ℕ} {e : ℤ} (hm : m ≠ 0)
    (h : ofDecimal false digits exponent = .finite false m e) : IsComputed digits exponent := by
  unfold ofDecimal at h
  split at h
  · exact absurd (finite.inj h).2.1.symm hm
  · rename_i hdigits
    split at h
    · exact absurd h (by simp)
    · rename_i hle
      split at h
      · exact ⟨hdigits, not_lt.1 hle, by omega⟩
      · split at h
        · exact absurd (finite.inj h).2.1.symm hm
        · rename_i hge
          exact ⟨hdigits, not_lt.1 hle, not_lt.1 hge⟩

/-- The sign of a decimal is the sign of the number that it is rounded to. -/
theorem ofDecimal_sign {digits : ℕ} {exponent : ℤ} {m : ℕ} {e : ℤ} (hm : m ≠ 0)
    (h : ofDecimal false digits exponent = .finite false m e) (negative : Bool) :
    ofDecimal negative digits exponent = .finite negative m e := by
  have hcomputed := isComputed_of_eq hm h
  obtain ⟨hnum, hden⟩ := productBy_pos (by decide : 0 < 10) (Nat.pos_of_ne_zero hcomputed.ne_zero) exponent
  rw [ofDecimal_eq_ofRatio hcomputed] at h ⊢
  exact ofRatio_sign hnum hden h negative

theorem ofDecimal_of_near {m : ℕ} {e : ℤ} (hkept : IsKept m e) (hm : 0 < m) {digits : ℕ} {exponent : ℤ}
    (h : IsComputed digits exponent)
    (hnear : |decimalValue (digits, exponent) - m * 2 ^ e| < 2 ^ e / 2)
    (hbelow : (m * 2 ^ e - 2 ^ e / 4 : ℚ) < decimalValue (digits, exponent) ∨ m ≠ 2 ^ 52) :
    ofDecimal false digits exponent = .finite false m e := by
  obtain ⟨-, hden⟩ := productBy_pos (by decide : 0 < 10) (Nat.pos_of_ne_zero h.ne_zero) exponent
  have hratio : ((productBy 10 digits exponent).1 / (productBy 10 digits exponent).2 : ℚ)
      = decimalValue (digits, exponent) := productBy_ratio 10 digits exponent
  rw [ofDecimal_eq_ofRatio h]
  exact ofRatio_of_near hkept hm hden (hratio ▸ hnear) (hratio ▸ hbelow) false

/-- Seventeen digits are enough to tell a number from its neighbours. -/
theorem ofDecimal_seventeen {m : ℕ} {e : ℤ} (hkept : IsKept m e) (hm : 0 < m) {num den : ℕ}
    (hnum : 0 < num) (hden : 0 < den) (hvalue : (num / den : ℚ) = m * 2 ^ e) {exponent : ℤ}
    (hexponent : exponent = log10Ratio num den - 16) :
    ofDecimal false (roundQuotient (decimalGrid num den exponent).1 (decimalGrid num den exponent).2)
      exponent = .finite false m e := by
  obtain ⟨hpow, hlow, hhigh⟩ :=
    log10Ratio_spec hnum hden (isInRange_log2Ratio hkept hm hnum hden hvalue)
  have hu := two_zpow_pos e
  have hunit := ten_zpow_pos exponent
  -- One unit of the last digit is a small part of the number.
  have hsmall : 10 ^ 16 * (10 : ℚ) ^ exponent ≤ m * 2 ^ e := by
    have hsplit : 10 ^ 16 * (10 : ℚ) ^ exponent = 10 ^ log10Ratio num den := by
      rw [← zpow_natCast, ← zpow_add₀ (by norm_num)]
      congr 1
      omega
    rw [hsplit, ← hvalue]
    exact hpow
  rw [roundQuotient_eq _ (decimalGrid_pos _ hden _), decimalGrid_ratio, hvalue]
  have hnear : |(nearest (m * 2 ^ e / 10 ^ exponent) : ℚ) * 10 ^ exponent - m * 2 ^ e|
      ≤ 10 ^ exponent / 2 := by
    have hround := abs_sub_nearest_le (r := m * 2 ^ e / 10 ^ exponent) (by positivity)
    rw [abs_sub_comm, sub_div' hunit.ne', abs_div, abs_of_pos hunit, div_le_iff₀ hunit] at hround
    linarith
  have hm53 : (m : ℚ) * 2 ^ e ≤ 2 ^ 53 * 2 ^ e :=
    mul_le_mul_of_nonneg_right (by exact_mod_cast hkept.lt.le) hu.le
  have hclose := abs_le.1 hnear
  refine ofDecimal_of_near hkept hm ⟨?_, by omega, by omega⟩ ?_ ?_
  · intro hzero
    rw [hzero] at hclose
    push_cast at hclose
    linarith
  · refine hnear.trans_lt ?_
    linarith
  · by_cases hm52 : m = 2 ^ 52
    · left
      rw [hm52] at hclose hsmall ⊢
      push_cast at hclose hsmall ⊢
      unfold decimalValue
      dsimp only
      linarith
    · exact .inr hm52

/-- With seventeen digits there is a decimal that is read back. -/
theorem isSome_decimalWith {m : ℕ} {e : ℤ} (hkept : IsKept m e) (hm : 0 < m) {num den : ℕ}
    (hnum : 0 < num) (hden : 0 < den) (hvalue : (num / den : ℚ) = m * 2 ^ e) :
    (decimalWith (.finite false m e) num den 17).isSome = true := by
  unfold decimalWith
  dsimp only
  rw [if_pos (ofDecimal_seventeen hkept hm hnum hden hvalue (by rfl))]
  rfl

theorem ofDecimal_decimalWith {x : Binary64} {num den count : ℕ} {decimal : ℕ × ℤ}
    (h : decimalWith x num den count = some decimal) : ofDecimal false decimal.1 decimal.2 = x := by
  unfold decimalWith at h
  dsimp only at h
  split at h
  · rename_i hnearest
    obtain rfl := Option.some.inj h
    exact hnearest
  · obtain ⟨hother, hdecimal⟩ := Option.ite_none_right_eq_some.1 h
    obtain rfl := Option.some.inj hdecimal
    exact hother

/-- The search for the fewest digits finds some that are read back. -/
theorem ofDecimal_shortestFrom {x : Binary64} {num den fuel count : ℕ}
    (h : (decimalWith x num den (count + fuel)).isSome = true) :
    ofDecimal false (shortestFrom x num den fuel count).1 (shortestFrom x num den fuel count).2 = x := by
  induction fuel generalizing count with
  | zero =>
    obtain ⟨decimal, hdecimal⟩ := Option.isSome_iff_exists.1 h
    have hfound : shortestFrom x num den 0 count = decimal := congrArg (Option.getD · (0, 0)) hdecimal
    rw [hfound]
    exact ofDecimal_decimalWith hdecimal
  | succ fuel ih =>
    rw [shortestFrom_succ]
    cases hdecimal : decimalWith x num den count with
    | some decimal => exact ofDecimal_decimalWith hdecimal
    | none =>
      rw [← Nat.add_assoc, Nat.add_right_comm] at h
      exact ih h

theorem stripZeros_spec (fuel : ℕ) {digits : ℕ} (hdigits : digits ≠ 0) (exponent : ℤ) :
    (stripZeros fuel digits exponent).1 ≠ 0 ∧
      decimalValue (stripZeros fuel digits exponent) = decimalValue (digits, exponent) := by
  induction fuel generalizing digits exponent with
  | zero => exact ⟨hdigits, rfl⟩
  | succ fuel ih =>
    rw [stripZeros]
    split
    · rename_i hzero
      obtain ⟨hne, hvalue⟩ := @ih (digits / 10) (by omega) (exponent + 1)
      refine ⟨hne, hvalue.trans ?_⟩
      have hsplit : (digits : ℚ) = (digits / 10 : ℕ) * 10 := by
        exact_mod_cast (Nat.div_mul_cancel (Nat.dvd_of_mod_eq_zero hzero)).symm
      unfold decimalValue
      dsimp only
      rw [hsplit, zpow_add₀ (by norm_num), zpow_one]
      ring
    · exact ⟨hdigits, rfl⟩

/-! ### Numbers that are read -/

open MarkupTidy.Number MarkupTidy.Text

theorem isCanonical_ofDecimal (negative : Bool) (digits : ℕ) (exponent : ℤ) :
    IsCanonical (ofDecimal negative digits exponent) := by
  unfold ofDecimal
  split
  · exact isKept_zero
  · split
    · trivial
    · split
      · exact isCanonical_ofRatio _ _ Nat.one_pos
      · split
        · exact isKept_zero
        · exact isCanonical_ofRatio _ _ (Nat.pow_pos (by decide))

/-- Numbers are read as they are kept. -/
theorem isCanonical_read? {cs : List Char} {x : Binary64} (h : read? cs = some x) : x.IsCanonical := by
  unfold read? at h
  dsimp only at h
  split at h
  · exact Option.some.inj h ▸ trivial
  · split at h
    · exact Option.some.inj h ▸ trivial
    · unfold readUnsigned? at h
      dsimp only at h
      split at h
      · exact absurd h (by simp)
      · obtain ⟨exponent, -, rfl⟩ := Option.map_eq_some_iff.1 h
        exact isCanonical_ofDecimal _ _ _

end MarkupTidy.Binary64
