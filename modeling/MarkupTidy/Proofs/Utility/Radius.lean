import MarkupTidy.Proofs.Number.Written
import MarkupTidy.Proofs.Utility.Sizes

/-! # The radius of a round shape

Sizes are decimals, and half of one is a decimal again; but the radius is computed in double precision and
written with six digits, unless it is whole.

* `HasSide`: the size that arbitrary values give to a side, exactly; `exists_dimensions`: what is read of it.
* `radiusPixels?`: the pixels that a radius token stands for, exactly.
* `HalvesExactly`: sizes whose half is written as it is.
* `radiusPixels?_cornerRadius_iff`: these are the sizes for which the radius is half of the lesser side. -/

namespace MarkupTidy

open MarkupTidy.Markup MarkupTidy.Number MarkupTidy.Text MarkupTidy.Binary64

/-! ### Tokens with another radius -/

/-- A token that sets the corner radius begins with its letter. -/
theorem head_of_isRounded {token : String} (h : isRounded token = true) :
    token.toList.head? = some 'r' := by
  have hfront : ∃ rest, afterText? "rounded".toList (dropFinalNewline token.toList) = some rest := by
    unfold isRounded at h
    split at h
    · exact ⟨_, ‹_›⟩
    · exact ⟨_, ‹_›⟩
    · exact absurd h Bool.false_ne_true
  obtain ⟨rest, hrest⟩ := hfront
  obtain heq | heq := eq_dropFinalNewline_or token.toList <;>
  · rw [heq, afterText?_eq_some.1 hrest]
    rfl

/-- Another corner radius leaves all tokens that have nothing to do with it. -/
theorem filter_withRadius {q : String → Bool} (h : ∀ t, isRounded t = true → q t = false)
    {radius : String} (hradius : isRounded radius = true) (tokens : List String) :
    (withRadius tokens radius).filter q = tokens.filter q := by
  have hothers : tokens.filter (fun t => q t && !isRounded t) = tokens.filter q := by
    refine List.filter_congr fun t _ => ?_
    cases hround : isRounded t with
    | false => rw [Bool.not_false, Bool.and_true]
    | true => rw [h t hround, Bool.false_and]
  rw [withRadius, List.filter_append, List.filter_filter, hothers, List.filter_singleton, h radius hradius,
    cond_false, List.append_nil]

/-- Another corner radius changes no size. -/
theorem dimensions_withRadius {radius : String} (h : isRounded radius = true) (tokens : List String) :
    dimensions (withRadius tokens radius) = dimensions tokens := by
  have hnone : ∀ t, isRounded t = true → readSize? t = none := fun t ht =>
    readSize?_eq_none (head_of_isRounded ht) (by decide)
  rw [withRadius, dimensions, List.filterMap_append, List.filterMap_cons_none (hnone radius h),
    List.filterMap_nil, List.append_nil, ← dimensions]
  exact dimensions_filter fun t _ hround => hnone t (by simpa using hround)

/-! ### Sizes as they are written -/

/-- A number without a sign is read as what its value is rounded to. -/
theorem exists_readPlain? {number : List Char} {q : ℚ} (h : isUnsignedNumber number = true)
    (hq : written? number = some q) : ∃ x, readPlain? number = some x ∧ RoundsTo q x := by
  obtain ⟨decimal, hdecimal, rfl⟩ := Option.map_eq_some_iff.1 hq
  refine ⟨ofDecimal false decimal.1 decimal.2, ?_, roundsTo_ofDecimal _ _⟩
  rw [readPlain?, isPlainNumber_and_not_minus, if_pos h, read?_of_isUnsignedNumber h, hdecimal,
    Option.map_some]

/-- A token that gives a side its size by an arbitrary value, with that value. -/
def IsPixelSize (side : Axis) (token : String) (pixels : ℚ) : Prop :=
  ∃ utility axis number, (utility, axis) ∈ sizeUtilities ∧ (axis = .both ∨ axis = side) ∧
    token = utility ++ "-[" ++ String.ofList number ++ "px]" ∧ isUnsignedNumber number = true ∧
    written? number = some pixels

/-- The last token that gives a side its size, does so by an arbitrary value. -/
def HasSide (side : Axis) (tokens : List String) (pixels : ℚ) : Prop :=
  ∃ before token after, tokens = before ++ token :: after ∧ IsPixelSize side token pixels ∧
    ∀ t ∈ after, sizeOn? side t = none

/-- A single size gives each side its pixels. -/
theorem hasSide_of_size {number : List Char} {pixels : ℚ} (h : isUnsignedNumber number = true)
    (hpixels : written? number = some pixels) (side : Axis) :
    HasSide side ["size-[" ++ String.ofList number ++ "px]"] pixels :=
  ⟨[], _, [], rfl, ⟨"size", .both, number, by decide, .inl rfl, rfl, h, hpixels⟩,
    fun _ ht => absurd ht List.not_mem_nil⟩

theorem IsPixelSize.exists_sizeOn? {side : Axis} {token : String} {pixels : ℚ}
    (h : IsPixelSize side token pixels) : ∃ x, sizeOn? side token = some x ∧ RoundsTo pixels x := by
  obtain ⟨utility, axis, number, hutility, haxis, rfl, hnumber, hpixels⟩ := h
  obtain ⟨x, hread, hround⟩ := exists_readPlain? hnumber hpixels
  refine ⟨x, ?_, hround⟩
  have htext : (utility ++ "-[" ++ String.ofList number ++ "px]").toList
      = utility.toList ++ '-' :: '[' :: (number ++ "px]".toList) := by
    simp
  have hlast : dropFinalNewline (utility.toList ++ '-' :: '[' :: (number ++ "px]".toList))
      = utility.toList ++ '-' :: '[' :: (number ++ "px]".toList) := by
    have hbracket : ']' ≠ '\n' := by decide
    simpa [dropFinalNewline] using
      dropFinalNewline_append_cons hbracket (utility.toList ++ '-' :: '[' :: (number ++ "px".toList)) []
  rw [sizeOn?, readSize?, htext, hlast, readAxis?_of_mem hutility]
  dsimp only [Option.bind_eq_bind, Option.bind_some]
  rw [readPixels?_of_pixels, hread]
  simp [haxis]

theorem HasSide.exists_getLast? {side : Axis} {tokens : List String} {pixels : ℚ}
    (h : HasSide side tokens pixels) :
    ∃ x, (sizesOn side tokens).getLast? = some x ∧ RoundsTo pixels x := by
  obtain ⟨before, token, after, rfl, htoken, hafter⟩ := h
  obtain ⟨x, hsize, hround⟩ := htoken.exists_sizeOn?
  refine ⟨x, ?_, hround⟩
  have hnone : sizesOn side after = [] := List.filterMap_eq_nil_iff.2 hafter
  rw [sizesOn, List.filterMap_append, List.filterMap_cons_some hsize, ← sizesOn, ← sizesOn, hnone,
    List.getLast?_append]
  rfl

/-- What is read of the sides is what their sizes are rounded to. -/
theorem exists_dimensions {tokens : List String} {w h : ℚ} (hw : HasSide .width tokens w)
    (hh : HasSide .height tokens h) :
    ∃ x y, dimensions tokens = ⟨some x, some y⟩ ∧ RoundsTo w x ∧ RoundsTo h y := by
  obtain ⟨x, hx, hroundx⟩ := hw.exists_getLast?
  obtain ⟨y, hy, hroundy⟩ := hh.exists_getLast?
  exact ⟨x, y, by rw [dimensions_eq, hx, hy], hroundx, hroundy⟩

theorem HasSide.nonneg {side : Axis} {tokens : List String} {pixels : ℚ}
    (h : HasSide side tokens pixels) : 0 ≤ pixels := by
  obtain ⟨-, -, -, -, ⟨-, -, number, -, -, -, -, hpixels⟩, -⟩ := h
  obtain ⟨decimal, -, rfl⟩ := Option.map_eq_some_iff.1 hpixels
  unfold decimalValue
  positivity

/-! ### Radius tokens as they are written -/

/-- The pixels that a radius token stands for, exactly. -/
def radiusPixels? (token : String) : Option ℚ :=
  match radiusScale.find? fun entry => entry.2 = token with
  | some entry => some entry.1
  | none =>
    (afterText? "rounded-[".toList token.toList).bind fun value =>
      if endsWith "px]".toList value then written? (value.take (value.length - 3)) else none

theorem radiusPixels?_of_mem : ∀ entry ∈ radiusScale, radiusPixels? entry.2 = some (entry.1 : ℚ) := by
  decide +kernel

theorem radiusPixels?_arbitrary (number : List Char) :
    radiusPixels? ("rounded-[" ++ String.ofList number ++ "px]") = written? number := by
  have hscale : ∀ entry ∈ radiusScale, '[' ∉ entry.2.toList := by decide +kernel
  have htext : ("rounded-[" ++ String.ofList number ++ "px]").toList
      = "rounded-[".toList ++ (number ++ "px]".toList) := by
    simp
  have hnone : radiusScale.find? (fun entry => entry.2 = "rounded-[" ++ String.ofList number ++ "px]")
      = none := by
    refine List.find?_eq_none.2 fun entry hentry heq => hscale entry hentry ?_
    rw [decide_eq_true_eq] at heq
    rw [heq, htext]
    simp
  have hend : endsWith "px]".toList (number ++ "px]".toList) = true :=
    List.isSuffixOf_iff_suffix.2 ⟨number, rfl⟩
  rw [radiusPixels?, hnone, htext, afterText?_eq_some.2 rfl]
  dsimp only [Option.bind_some]
  rw [if_pos hend, List.length_append]
  exact congrArg written? List.take_left

section
variable {m : ℕ} {e : ℤ} (hkept : IsKept m e)
include hkept

/-- A standard radius has the number of pixels for which it is taken. -/
theorem value_of_same_ofNat {n : ℕ} (hn : n < 2 ^ 53) (h : (finite false m e).same (ofNat n) = true) :
    (m * 2 ^ e : ℚ) = n := by
  have hround : RoundsTo (n : ℚ) (ofNat n) := by
    have hround := roundsTo_ofRatio n one_pos
    rwa [Nat.cast_one, div_one] at hround
  have hcanonical : IsCanonical (finite false m e) := hkept
  rw [← eq_of_same hcanonical (isCanonical_ofNat n) (isNegative_ofNat n).symm h] at hround
  cases hround with
  | finite _ hvalue => rw [hvalue, rounded_natCast hn]

theorem radiusToken_cases : (∃ n : ℕ, (m * 2 ^ e : ℚ) = n ∧
        radiusPixels? (radiusToken (finite false m e)) = some (n : ℚ)) ∨
      radiusToken (finite false m e)
        = "rounded-[" ++ String.ofList ((finite false m e).wholeOr general) ++ "px]" := by
  have hsmall : ∀ entry ∈ radiusScale, entry.1 < 10000 := by decide
  cases hlookup : Binary64.lookup radiusScale (finite false m e) with
  | none =>
    right
    rw [radiusToken, hlookup]
  | some token =>
    left
    obtain ⟨n, hentry, hsame⟩ := exists_of_lookup hlookup
    refine ⟨n, value_of_same_ofNat hkept ((hsmall _ hentry).trans (by norm_num)) hsame, ?_⟩
    rw [radiusToken, hlookup]
    exact radiusPixels?_of_mem _ hentry

/-- The token of a whole radius stands for it. -/
theorem radiusPixels?_radiusToken_natCast {n : ℕ} (h : (m * 2 ^ e : ℚ) = n) :
    radiusPixels? (radiusToken (finite false m e)) = some (n : ℚ) := by
  obtain ⟨k, hk, hpixels⟩ | htoken := radiusToken_cases hkept
  · rw [hpixels, ← hk, h]
  · rw [htoken, radiusPixels?_arbitrary, written?_wholeOr_natCast h]

/-- The token of any other radius stands for the radius to six digits. -/
theorem radiusPixels?_radiusToken_general (h : ∀ n : ℕ, (m * 2 ^ e : ℚ) ≠ n) :
    radiusPixels? (radiusToken (finite false m e)) = some (sixDigits (m * 2 ^ e)) := by
  obtain ⟨k, hk, -⟩ | htoken := radiusToken_cases hkept
  · exact absurd hk (h k)
  · rw [htoken, radiusPixels?_arbitrary, written?_wholeOr_general hkept h]

end

/-! ### Half of a size -/

/-- Sizes whose half is written as it is: with a whole half, the numbers of double precision; else those
whose half has at most six digits. -/
def HalvesExactly (size : ℚ) : Prop :=
  (∃ n : ℕ, size / 2 = n) ∧ IsDouble size ∨ (∀ n : ℕ, size / 2 ≠ n) ∧ HasSixDigits (size / 2)

theorem radiusPixels?_radiusToken_infinity : radiusPixels? (radiusToken (.infinity false)) = none := by
  decide +kernel

section
variable {size : ℚ}

/-- What is out of range is halved exactly by no radius. -/
theorem not_halvesExactly_of_overflow (hsize : 0 ≤ size) (h : 2 ^ (1024 : ℤ) ≤ rounded size) :
    ¬ HalvesExactly size := by
  rintro (⟨-, hdouble⟩ | ⟨hwhole, hdigits⟩)
  · obtain ⟨m, e, hkept, hvalue⟩ := hdouble
    rw [rounded_of_isDouble ⟨m, e, hkept, hvalue⟩, hvalue] at h
    exact absurd h hkept.lt_overflow.not_ge
  · have hlt := hdigits.lt_of_forall_ne hwhole
    have hpow : (2 : ℚ) ^ (21 : ℤ) ≤ 2 ^ (1023 : ℤ) := zpow_le_zpow_right₀ one_le_two (by norm_num)
    have hsmall : size ≤ 2 ^ (21 : ℤ) := by
      norm_num
      linarith
    exact absurd (rounded_lt_overflow hsize (hsmall.trans hpow)) h.not_gt

/-- The half of what a size is rounded to lies next to the half of the size. -/
theorem abs_half_rounded_sub_le (h : leastNormal ≤ size) :
    |rounded size / 2 - size / 2| ≤ size / 2 / 2 ^ 53 := by
  have herror := abs_rounded_sub_le h
  rw [← sub_div, abs_div, abs_of_pos (two_pos : (0 : ℚ) < 2)]
  linarith

/-- With a whole half, what a size is rounded to has a whole half, too. -/
theorem exists_half_rounded {n : ℕ} (h : size / 2 = n) : ∃ k : ℕ, rounded size / 2 = k := by
  obtain ⟨k, hk⟩ := exists_rounded_even n
  have hsize : size = (2 * n : ℕ) := by
    push_cast
    linarith
  refine ⟨k, ?_⟩
  rw [hsize, hk]
  ring

/-- The radius of a size, out of the half of what the size is rounded to. -/
theorem radiusPixels?_half_iff {x : Binary64} (hround : RoundsTo size x)
    (hnormal : size = 0 ∨ 2 * leastNormal ≤ size) :
    radiusPixels? (radiusToken (x.scale 1 2)) = some (size / 2) ↔ HalvesExactly size := by
  have hpositive : 0 < leastNormal := two_zpow_pos _
  have hnear : (∀ n : ℕ, size / 2 ≠ n) → 0 < size ∧
      |rounded size / 2 - size / 2| ≤ size / 2 / 2 ^ 53 := by
    intro hfraction
    obtain rfl | hnormal := hnormal
    · exact absurd (by norm_num) (hfraction 0)
    · exact ⟨by linarith, abs_half_rounded_sub_le (by linarith)⟩
  obtain ⟨m, e, hkept, hscale, hvalue⟩ | ⟨hscale, hover⟩ := hround.half hnormal
  · rw [hscale]
    by_cases hwhole : ∃ n : ℕ, (m * 2 ^ e : ℚ) = n
    · obtain ⟨n, hn⟩ := hwhole
      rw [radiusPixels?_radiusToken_natCast hkept hn, Option.some.injEq, ← hn, hvalue]
      constructor
      · intro hexact
        have hfixed : rounded size = size := by linarith
        refine .inl ⟨⟨n, by rw [← hexact, ← hvalue, hn]⟩, hround.isDouble_of_eq hfixed ?_⟩
        rintro rfl
        exact absurd hscale (by simp [scale])
      · rintro (⟨-, hdouble⟩ | ⟨hfraction, hdigits⟩)
        · rw [rounded_of_isDouble hdouble]
        · have habs := (hnear hfraction).2
          rw [← hvalue, hn] at habs
          exact absurd habs (not_near_natCast hdigits hfraction n)
    · rw [not_exists] at hwhole
      have hfraction : ∀ n : ℕ, size / 2 ≠ n := by
        intro n hn
        obtain ⟨k, hk⟩ := exists_half_rounded hn
        exact hwhole k (hvalue.trans hk)
      obtain ⟨hpos, habs⟩ := hnear hfraction
      have hhalf : (0 : ℚ) < m * 2 ^ e := by
        refine lt_of_le_of_ne (by positivity) fun hzero => hwhole 0 ?_
        rw [← hzero, Nat.cast_zero]
      rw [radiusPixels?_radiusToken_general hkept hwhole, Option.some.injEq]
      constructor
      · intro hexact
        exact .inr ⟨hfraction, hexact ▸ hasSixDigits_sixDigits hhalf⟩
      · rintro (⟨⟨n, hn⟩, -⟩ | ⟨-, hdigits⟩)
        · exact absurd hn (hfraction n)
        · rw [hvalue] at hhalf ⊢
          exact sixDigits_of_near hdigits hhalf (half_pos hpos) habs
  · rw [hscale, radiusPixels?_radiusToken_infinity]
    refine iff_of_false (by simp) (not_halvesExactly_of_overflow ?_ hover)
    obtain rfl | hnormal := hnormal
    · exact le_rfl
    · linarith

end

/-- The radius is half of the lesser side, exactly, if this one can be halved so. -/
theorem radiusPixels?_cornerRadius_iff {isCircle : Bool} {w h : ℚ} {x y : Binary64} (hw : 0 ≤ w)
    (hh : 0 ≤ h) (hx : RoundsTo w x) (hy : RoundsTo h y)
    (hshape : isCircle = true ∨ w = h) (hnormal : min w h = 0 ∨ 2 * leastNormal ≤ min w h) :
    radiusPixels? (cornerRadius isCircle x y) = some (min w h / 2) ↔ HalvesExactly (min w h) := by
  have hrounded : (isCircle || x.same y) = true := by
    obtain rfl | rfl := hshape
    · rfl
    · rw [hx.same hy, Bool.or_true]
  rw [cornerRadius, if_pos hrounded]
  exact radiusPixels?_half_iff (hx.least hw hh hy) hnormal

end MarkupTidy
