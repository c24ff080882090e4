import MarkupTidy.Proofs.Number.Rounding

/-! # Numbers as they are written

* `decimalOf?`: the decimal that a text writes, before anything is rounded; `readUnsigned?_eq`: a number
  is read as what this decimal is rounded to.
* `written?`: the value of this decimal; `written?_write`: what a layout writes stands for its digits, also
  with an exponent.
* `log10Ratio_eq_log`: the decimal exponent of a ratio is its logarithm.
* `sixDigits`: a ratio to six digits; `sixDigits_of_near`: a decimal of six digits comes back from any
  ratio next to it.
* `written?_wholeOr_natCast`, `written?_wholeOr_general`: what a number of double precision is written
  as.
* `read?_shortest`: a number is read back from its shortest digits, if these have no exponent;
  `point_mem_shortest`: they have a point. -/

namespace MarkupTidy.Binary64

open MarkupTidy.Number MarkupTidy.Text

/-! ### Decimals as they are written -/

/-- The value of digits. -/
def digitsValue (cs : List Char) : ℕ :=
  Nat.ofDigitChars 10 cs 0

theorem digitsValue_repr (n : ℕ) : digitsValue (Nat.repr n).toList = n := by
  rw [digitsValue, Nat.toList_repr, Nat.ofDigitChars_ten_toDigits]

theorem isDigit_of_mem_replicate {k : ℕ} : ∀ c ∈ List.replicate k '0', c.isDigit = true :=
  fun _ hc => List.eq_of_mem_replicate hc ▸ rfl

/-- The digits and the exponent of an unsigned decimal that takes up the whole text. -/
def decimalOf? (cs : List Char) : Option (ℕ × ℤ) :=
  let (whole, rest) := readDigits cs
  let (fraction, rest) := readFraction rest
  if whole.count + fraction.count = 0 then none
  else
    (readExponent? rest).map fun exponent =>
      (whole.value * Nat.pow 10 fraction.count + fraction.value, exponent - fraction.count)

/-- A number is read as what the decimal is rounded to that its text writes. -/
theorem readUnsigned?_eq (negative : Bool) (cs : List Char) : readUnsigned? negative cs
    = (decimalOf? cs).map fun decimal => ofDecimal negative decimal.1 decimal.2 := by
  unfold readUnsigned? decimalOf?
  dsimp only
  split
  · rfl
  · rw [Option.map_map]
    rfl

/-- Characters before which digits end. -/
def EndsDigits (rest : List Char) : Prop :=
  ∀ c ∈ rest.head?, digitValue? c = none ∧ c ≠ '_'

theorem readDigits_append {cs rest : List Char} (h : ∀ c ∈ cs, c.isDigit = true)
    (hrest : EndsDigits rest) : readDigits (cs ++ rest) = (⟨cs.length, digitsValue cs⟩, rest) := by
  rw [readDigits, readDigitsFrom_append h, Nat.zero_add]
  cases rest with
  | nil => rfl
  | cons c rest =>
    obtain ⟨hdigit, hline⟩ := hrest c rfl
    rw [readDigitsFrom, hdigit]
    · rfl
    · intro _ _ heq
      exact absurd heq hline

/-- The mark of an exponent, or the end. -/
def IsTail (tail : List Char) : Prop :=
  tail = [] ∨ ∃ rest, tail = 'e' :: rest

theorem IsTail.endsDigits {tail : List Char} (h : IsTail tail) : EndsDigits tail := by
  have hmark : digitValue? 'e' = none ∧ 'e' ≠ '_' := by decide
  obtain rfl | ⟨rest, rfl⟩ := h
  · exact fun c hc => absurd hc (by simp)
  · exact fun c hc => Option.some.inj hc ▸ hmark

theorem decimalOf?_whole {whole tail : List Char} (h : ∀ c ∈ whole, c.isDigit = true)
    (hne : whole ≠ []) (htail : IsTail tail) : decimalOf? (whole ++ tail)
      = (readExponent? tail).map fun exponent => (digitsValue whole, exponent) := by
  have hfraction : readFraction tail = (⟨0, 0⟩, tail) := by
    obtain rfl | ⟨rest, rfl⟩ := htail <;> rfl
  have hcount : whole.length + 0 ≠ 0 := by
    have := List.length_pos_iff.2 hne
    omega
  unfold decimalOf?
  rw [readDigits_append h htail.endsDigits]
  dsimp only
  rw [hfraction]
  dsimp only
  rw [if_neg hcount]
  simp

theorem decimalOf?_point {whole fraction tail : List Char}
    (h : ∀ c ∈ whole ++ fraction, c.isDigit = true) (hne : whole ≠ []) (htail : IsTail tail) :
    decimalOf? (whole ++ '.' :: (fraction ++ tail))
      = (readExponent? tail).map fun exponent =>
          (digitsValue (whole ++ fraction), exponent - (fraction.length : ℤ)) := by
  obtain ⟨hwhole, hfraction⟩ := List.forall_mem_append.1 h
  have hpoint : EndsDigits ('.' :: (fraction ++ tail)) := fun c hc => by
    have hpoint : digitValue? '.' = none ∧ '.' ≠ '_' := by decide
    exact Option.some.inj hc ▸ hpoint
  have hcount : whole.length + fraction.length ≠ 0 := by
    have := List.length_pos_iff.2 hne
    omega
  have hvalue : digitsValue whole * Nat.pow 10 fraction.length + digitsValue fraction
      = digitsValue (whole ++ fraction) := by
    rw [digitsValue, digitsValue, digitsValue, Nat.ofDigitChars_append, Nat.mul_comm]
    exact Nat.ofDigitChars_eq_ofDigitChars_zero.symm
  have hrest : readFraction ('.' :: (fraction ++ tail)) = readDigits (fraction ++ tail) := rfl
  unfold decimalOf?
  rw [readDigits_append hwhole hpoint]
  dsimp only
  rw [hrest, readDigits_append hfraction htail.endsDigits]
  dsimp only
  rw [if_neg hcount, hvalue]

/-- An exponent is read back with its sign. -/
theorem readExponent?_exponentText (k : ℤ) :
    readExponent? ('e' :: DecimalLayout.exponentText k) = some k := by
  have hdigits := isDigit_of_mem_repr (n := k.natAbs)
  have hvalue := digitsValue_repr k.natAbs
  have hne := repr_ne_nil k.natAbs
  have hread : ∃ digits, DecimalLayout.exponentText k = (if k < 0 then '-' else '+') :: digits ∧
      (∀ c ∈ digits, c.isDigit = true) ∧ digits ≠ [] ∧ digitsValue digits = k.natAbs := by
    refine ⟨_, rfl, ?_⟩
    split
    · refine ⟨List.forall_mem_cons.2 ⟨rfl, hdigits⟩, by simp, ?_⟩
      rw [digitsValue, Nat.ofDigitChars_cons]
      exact hvalue
    · exact ⟨hdigits, hne, hvalue⟩
  obtain ⟨digits, htext, hdigits, hne, hvalue⟩ := hread
  have hall := readDigitsFrom_of_forall hdigits ⟨0, 0⟩
  have hcount : ¬(0 + digits.length = 0) := by
    have := List.length_pos_iff.2 hne
    omega
  change Nat.ofDigitChars 10 digits 0 = k.natAbs at hvalue
  rw [htext, readExponent?]
  by_cases hsign : k < 0
  · simp only [hsign, if_true, readSign, readDigits, hall, hvalue]
    simp [hne, abs_of_neg hsign]
  · simp only [hsign, if_false, readSign, readDigits, hall, hvalue]
    simp [hne, abs_of_nonneg (not_lt.1 hsign)]

/-! ### Values of decimals -/

/-- The value of the unsigned decimal that takes up the whole text. -/
def written? (cs : List Char) : Option ℚ :=
  (decimalOf? cs).map decimalValue

theorem written?_whole {whole : List Char} (h : ∀ c ∈ whole, c.isDigit = true) (hne : whole ≠ []) :
    written? whole = some (digitsValue whole : ℚ) := by
  have hread := decimalOf?_whole h hne (.inl rfl)
  rw [List.append_nil] at hread
  rw [written?, hread, readExponent?, Option.map_some, Option.map_some, decimalValue, zpow_zero, mul_one]

theorem written?_point {whole fraction : List Char}
    (h : ∀ c ∈ whole ++ fraction, c.isDigit = true) (hne : whole ≠ []) :
    written? (whole ++ '.' :: fraction)
      = some (decimalValue (digitsValue (whole ++ fraction), -(fraction.length : ℤ))) := by
  have hread := decimalOf?_point h hne (.inl rfl)
  rw [List.append_nil] at hread
  rw [written?, hread, readExponent?, Option.map_some, Option.map_some, zero_sub]

theorem digitsValue_append (cs ds : List Char) :
    digitsValue (cs ++ ds) = digitsValue cs * 10 ^ ds.length + digitsValue ds := by
  rw [digitsValue, digitsValue, digitsValue, Nat.ofDigitChars_append,
    Nat.mul_comm (Nat.ofDigitChars 10 cs 0)]
  exact Nat.ofDigitChars_eq_ofDigitChars_zero

theorem digitsValue_zeros (k : ℕ) : digitsValue (List.replicate k '0') = 0 := by
  rw [digitsValue, Nat.ofDigitChars_replicate_zero, Nat.mul_zero]

section
variable {digits : List Char} (h : ∀ c ∈ digits, c.isDigit = true)
include h

/-- Zeros between the point and the digits. -/
theorem written?_front (k : ℕ) : written? ('0' :: '.' :: (List.replicate k '0' ++ digits))
    = some (decimalValue (digitsValue digits, -((k + digits.length : ℕ) : ℤ))) := by
  have hall : ∀ c ∈ ['0'] ++ (List.replicate k '0' ++ digits), c.isDigit = true :=
    List.forall_mem_append.2 ⟨List.forall_mem_singleton.2 rfl,
      List.forall_mem_append.2 ⟨isDigit_of_mem_replicate, h⟩⟩
  have hvalue : digitsValue (['0'] ++ (List.replicate k '0' ++ digits)) = digitsValue digits := by
    have hzero : digitsValue ['0'] = 0 := rfl
    rw [digitsValue_append, digitsValue_append, digitsValue_zeros, hzero, Nat.zero_mul, Nat.zero_mul,
      Nat.zero_add, Nat.zero_add]
  have hread := written?_point hall (by simp)
  rwa [hvalue, List.length_append, List.length_replicate] at hread

/-- Zeros between the digits and the point. -/
theorem written?_padded (hne : digits ≠ []) (k : ℕ) (keepsFraction : Bool) :
    written? (digits ++ List.replicate k '0' ++ if keepsFraction then ['.', '0'] else [])
      = some (decimalValue (digitsValue digits, (k : ℤ))) := by
  have hall : ∀ c ∈ digits ++ List.replicate k '0', c.isDigit = true :=
    List.forall_mem_append.2 ⟨h, isDigit_of_mem_replicate⟩
  have hne' := List.append_ne_nil_of_left_ne_nil hne (List.replicate k '0')
  have hvalue : digitsValue (digits ++ List.replicate k '0') = digitsValue digits * 10 ^ k := by
    rw [digitsValue_append, digitsValue_zeros, List.length_replicate, Nat.add_zero]
  cases keepsFraction with
  | true =>
    have hzero : digitsValue ['0'] = 0 := rfl
    have hdigit : '0'.isDigit = true := rfl
    rw [if_pos rfl, written?_point
      (List.forall_mem_append.2 ⟨hall, List.forall_mem_singleton.2 hdigit⟩) hne',
      digitsValue_append, hvalue, hzero, List.length_singleton, decimalValue, decimalValue, Nat.cast_one,
      zpow_neg, zpow_one, zpow_natCast]
    push_cast
    congr 1
    ring
  | false =>
    rw [if_neg Bool.false_ne_true, List.append_nil, written?_whole hall hne', hvalue, decimalValue,
      zpow_natCast]
    push_cast
    rfl

/-- The point among the digits. -/
theorem written?_within {k : ℕ} (hk : k ≠ 0) (hlt : k < digits.length) :
    written? (digits.take k ++ '.' :: digits.drop k)
      = some (decimalValue (digitsValue digits, (k : ℤ) - digits.length)) := by
  have hne : digits.take k ≠ [] := by
    rw [Ne, List.take_eq_nil_iff]
    rintro (hzero | rfl)
    · exact hk hzero
    · exact absurd hlt (Nat.not_lt_zero k)
  have hread := written?_point (by rwa [List.take_append_drop]) hne
  rw [List.take_append_drop, List.length_drop, Nat.cast_sub hlt.le, neg_sub] at hread
  exact hread

/-- The first digit, the point and the other digits, and an exponent. -/
theorem written?_exponent {first : Char} {rest : List Char} (hdigits : digits = first :: rest) (k : ℤ) :
    written? ((if rest.isEmpty then [first] else first :: '.' :: rest)
        ++ 'e' :: DecimalLayout.exponentText k)
      = some (decimalValue (digitsValue digits, k - rest.length)) := by
  have htail : IsTail ('e' :: DecimalLayout.exponentText k) := .inr ⟨_, rfl⟩
  subst hdigits
  cases rest with
  | nil =>
    have hread := decimalOf?_whole h (by simp) htail
    rw [readExponent?_exponentText] at hread
    rw [List.isEmpty_nil, if_pos rfl, written?, hread, List.length_nil, Nat.cast_zero, sub_zero]
    rfl
  | cons second rest =>
    have hread := @decimalOf?_point [first] (second :: rest) _ h (by simp) htail
    rw [readExponent?_exponentText] at hread
    rw [List.isEmpty_cons, if_neg Bool.false_ne_true, written?]
    exact congrArg (Option.map decimalValue) hread

end

/-- What a layout writes stands for its digits, up to the place of the point. -/
theorem written?_write (layout : DecimalLayout) (n : ℕ) (place : ℤ) :
    written? (layout.write (Nat.repr n).toList place)
      = some (decimalValue (n, place - (Nat.repr n).toList.length)) := by
  have hdigits := isDigit_of_mem_repr (n := n)
  have hvalue := digitsValue_repr n
  have hne := repr_ne_nil n
  generalize (Nat.repr n).toList = digits at hdigits hvalue hne
  subst hvalue
  unfold DecimalLayout.write
  split
  · split
    · rw [written?_front hdigits]
      congr 3
      omega
    · split
      · rw [written?_padded hdigits hne]
        congr 3
        omega
      · rw [written?_within hdigits (by omega) (by omega)]
        congr 3
        omega
  · obtain ⟨first, rest, rfl⟩ := List.exists_cons_of_ne_nil hne
    have hread := written?_exponent hdigits rfl (place - 1)
    rw [sub_sub, add_comm 1] at hread
    exact hread

/-! ### Numbers without a sign -/

theorem isPlainNumber_and_not_minus (cs : List Char) :
    (isPlainNumber cs && !startsWith ['-'] cs) = isUnsignedNumber cs := by
  by_cases hminus : cs.head? = some '-'
  · obtain ⟨rest, rfl⟩ := List.head?_eq_some_iff.1 hminus
    have hdigit : isDecimalDigit '-' = false := by decide
    simp [startsWith, isUnsignedNumber, hdigit]
  · rw [isPlainNumber_of_ne hminus]
    cases cs with
    | nil => rfl
    | cons c rest =>
      have hc : '-' ≠ c := fun heq => hminus (congrArg some heq.symm)
      simp [startsWith, List.isPrefixOf, hc]

theorem isPlainNumber_sign {text : List Char} (h : ∀ c ∈ text.head?, c.isDigit = true)
    (negative : Bool) :
    isPlainNumber ((if negative then ['-'] else []) ++ text) = isUnsignedNumber text := by
  cases negative with
  | false =>
    refine isPlainNumber_of_ne fun hminus => ?_
    exact absurd (h '-' hminus) (by decide)
  | true => exact isPlainNumber_minus text

/-- A number is read, with either sign, as what the decimal is rounded to that its text writes. -/
theorem read?_sign_append {number : List Char} (h : isUnsignedNumber number = true) (negative : Bool) :
    read? ((if negative then ['-'] else []) ++ number)
      = (decimalOf? number).map fun decimal => ofDecimal negative decimal.1 decimal.2 := by
  rw [← readUnsigned?_eq]
  exact read?_sign (mem_of_isUnsignedNumber h) negative

theorem read?_of_isUnsignedNumber {number : List Char} (h : isUnsignedNumber number = true) :
    read? number = (decimalOf? number).map fun decimal => ofDecimal false decimal.1 decimal.2 :=
  read?_sign_append h false

/-- A number is read, with either sign, as the one that the decimal is rounded to. -/
theorem read?_of_roundsTo {number : List Char} {q : ℚ} {m : ℕ} {e : ℤ} (h : isUnsignedNumber number = true)
    (hq : written? number = some q) (hm : m ≠ 0) (hround : RoundsTo q (.finite false m e))
    (negative : Bool) :
    read? ((if negative then ['-'] else []) ++ number) = some (.finite negative m e) := by
  obtain ⟨decimal, hdecimal, rfl⟩ := Option.map_eq_some_iff.1 hq
  have hsame : ofDecimal false decimal.1 decimal.2 = .finite false m e :=
    (roundsTo_ofDecimal decimal.1 decimal.2).unique hround
  rw [read?_sign_append h, hdecimal, Option.map_some, ofDecimal_sign hm hsame]

/-- Digits of a number that is out of range are read as an infinite number. -/
theorem read?_of_overflow {whole : List Char} (h : ∀ c ∈ whole, c.isDigit = true)
    (hover : 2 ^ 1024 ≤ digitsValue whole) : read? whole = some (.infinity false) := by
  have hne : whole ≠ [] := by
    rintro rfl
    exact absurd hover (by decide +kernel)
  have hdecimal := decimalOf?_whole h hne (.inl rfl)
  rw [List.append_nil, readExponent?, Option.map_some] at hdecimal
  have hround := roundsTo_ofDecimal (digitsValue whole) 0
  have hbound : (2 : ℚ) ^ (1024 : ℤ) ≤ rounded (decimalValue (digitsValue whole, 0)) := by
    refine overflow_le_rounded ?_
    rw [decimalValue, zpow_zero, mul_one]
    exact_mod_cast hover
  rw [read?_of_isUnsignedNumber (isUnsignedNumber_of_forall h hne), hdecimal, Option.map_some]
  dsimp only
  generalize ofDecimal false (digitsValue whole) 0 = x at hround
  cases hround with
  | finite hkept hvalue => exact absurd (hvalue ▸ hkept.lt_overflow) hbound.not_gt
  | overflow _ => rfl

/-! ### Decimal exponents -/

/-- The decimal exponent of a ratio is its logarithm. -/
theorem log10Ratio_eq_log {num den : ℕ} (hnum : 0 < num) (hden : 0 < den)
    (hk : IsInRange (log2Ratio num den)) : log10Ratio num den = Int.log 10 (num / den : ℚ) := by
  have hpos : (0 : ℚ) < num / den := by positivity
  have hestimate := (log2Ratio_spec hnum hden).2.trans_le (zpow_le_estimate hk)
  have hlow := (log10Ratio_spec hnum hden hk).1
  have hhigh : (num / den : ℚ) < 10 ^ (log10Ratio num den + 1) := by
    rw [log10Ratio_eq]
    dsimp only
    split
    · rwa [add_assoc]
    · rename_i hnext
      rw [reaches_iff hden, not_le] at hnext
      split
      · exact hnext
      · rename_i hguess
        rw [reaches_iff hden, not_le] at hguess
        rwa [sub_add_cancel]
  have hone : 1 < 10 := by norm_num
  have hle := (Int.zpow_le_iff_le_log hone hpos).1 (by exact_mod_cast hlow)
  have hlt := (Int.lt_zpow_iff_log_lt hone hpos).1 (by exact_mod_cast hhigh)
  omega

/-! ### Six digits -/

/-- A decimal of at most six digits. -/
def HasSixDigits (q : ℚ) : Prop :=
  ∃ digits < 10 ^ 6, ∃ exponent : ℤ, q = decimalValue (digits, exponent)

/-- The place of the last of six digits of a ratio. -/
def sixthPlace (r : ℚ) : ℤ :=
  Int.log 10 r - 5

/-- A ratio to six digits. -/
def sixDigits (r : ℚ) : ℚ :=
  decimalValue (nearest (r / 10 ^ sixthPlace r), sixthPlace r)

theorem sixthPlace_bounds {r : ℚ} (h : 0 < r) :
    10 ^ 5 * (10 : ℚ) ^ sixthPlace r ≤ r ∧ r < 10 ^ 6 * (10 : ℚ) ^ sixthPlace r := by
  have hlow := Int.zpow_log_le_self (b := 10) (by norm_num) h
  have hhigh := Int.lt_zpow_succ_log_self (b := 10) (by norm_num) r
  rw [Nat.cast_ofNat] at hlow hhigh
  have hpow (k : ℕ) : (10 : ℚ) ^ k * 10 ^ sixthPlace r = 10 ^ (sixthPlace r + k) := by
    rw [zpow_add₀ (by norm_num), zpow_natCast, mul_comm]
  have hplace : Int.log 10 r = sixthPlace r + (5 : ℕ) := by
    rw [sixthPlace]
    omega
  rw [hpow, hpow]
  rw [hplace] at hlow hhigh
  rw [add_assoc] at hhigh
  exact ⟨hlow, hhigh⟩

/-- Six digits are six digits; a carry out of them leaves a power of ten. -/
theorem hasSixDigits_sixDigits {r : ℚ} (h : 0 < r) : HasSixDigits (sixDigits r) := by
  have hle : nearest (r / 10 ^ sixthPlace r) ≤ 10 ^ 6 := by
    refine nearest_le (by norm_num) ?_
    rw [div_lt_iff₀ (ten_zpow_pos _)]
    exact_mod_cast (sixthPlace_bounds h).2
  obtain hlt | heq := hle.lt_or_eq
  · exact ⟨_, hlt, _, rfl⟩
  · refine ⟨1, by norm_num, sixthPlace r + 6, ?_⟩
    have hsix : (10 : ℚ) ^ (6 : ℤ) = 10 ^ 6 := rfl
    rw [sixDigits, heq, decimalValue, decimalValue, zpow_add₀ (by norm_num), hsix]
    push_cast
    ring

/-- A decimal of six digits next to a ratio ends at the sixth place of the ratio. -/
theorem exists_multiple {q r : ℚ} (hq : HasSixDigits q) (hr : 0 < r) (hpos : 0 < q)
    (h : |r - q| ≤ q / 2 ^ 53) : ∃ n : ℕ, q = n * 10 ^ sixthPlace r := by
  obtain ⟨digits, hdigits, exponent, rfl⟩ := hq
  obtain ⟨hlow, hhigh⟩ := sixthPlace_bounds hr
  have hdigits' : (digits : ℚ) ≤ 10 ^ 6 - 1 := by
    have : (digits : ℚ) + 1 ≤ 10 ^ 6 := by exact_mod_cast hdigits
    linarith
  unfold decimalValue at *
  dsimp only at *
  obtain hle | hlt := le_or_gt (sixthPlace r) exponent
  · obtain ⟨k, hk⟩ := Int.eq_ofNat_of_zero_le (a := exponent - sixthPlace r) (by omega)
    refine ⟨digits * 10 ^ k, ?_⟩
    rw [show exponent = k + sixthPlace r by omega, zpow_add₀ (by norm_num), zpow_natCast]
    push_cast
    ring
  · -- The digits would have to reach a power of ten.
    exfalso
    have hu := ten_zpow_pos exponent
    have hstep : (10 : ℚ) * 10 ^ exponent ≤ 10 ^ sixthPlace r := by
      rw [← zpow_one_add₀ (by norm_num)]
      exact zpow_le_zpow_right₀ (by norm_num) (by omega)
    have hq : (digits * 10 ^ exponent : ℚ) ≤ (10 ^ 6 - 1) * 10 ^ exponent :=
      mul_le_mul_of_nonneg_right hdigits' hu.le
    have := (abs_le.1 h).2
    linarith

/-- A decimal of six digits comes back from a ratio next to it. -/
theorem sixDigits_of_near {q r : ℚ} (hq : HasSixDigits q) (hr : 0 < r) (hpos : 0 < q)
    (h : |r - q| ≤ q / 2 ^ 53) : sixDigits r = q := by
  obtain ⟨n, hn⟩ := exists_multiple hq hr hpos h
  have hu := ten_zpow_pos (sixthPlace r)
  obtain ⟨hlow, hhigh⟩ := sixthPlace_bounds hr
  obtain ⟨hbelow, habove⟩ := abs_le.1 h
  have hnear : nearest (r / 10 ^ sixthPlace r) = n := by
    refine nearest_of_near ?_
    rw [div_sub' hu.ne', abs_div, abs_of_pos hu, div_lt_iff₀ hu, mul_comm (10 ^ sixthPlace r), ← hn]
    refine h.trans_lt ?_
    linarith
  rw [sixDigits, hnear, hn, decimalValue]

/-- A decimal of six digits that is no natural number has digits after the point. -/
theorem HasSixDigits.exists_div {q : ℚ} (hq : HasSixDigits q) (hwhole : ∀ n : ℕ, q ≠ n) :
    ∃ digits k : ℕ, digits < 10 ^ 6 ∧ q = digits / 10 ^ k := by
  obtain ⟨digits, hdigits, exponent, rfl⟩ := hq
  obtain hsign | hsign := le_or_gt 0 exponent
  · obtain ⟨k, rfl⟩ := Int.eq_ofNat_of_zero_le hsign
    refine absurd ?_ (hwhole (digits * 10 ^ k))
    rw [decimalValue, zpow_natCast]
    push_cast
    rfl
  · obtain ⟨k, hk⟩ := Int.eq_ofNat_of_zero_le (a := -exponent) (by omega)
    refine ⟨digits, k, hdigits, ?_⟩
    rw [show exponent = -(k : ℤ) by omega, decimalValue, zpow_neg, zpow_natCast, div_eq_mul_inv]

theorem HasSixDigits.lt_of_forall_ne {q : ℚ} (hq : HasSixDigits q) (hwhole : ∀ n : ℕ, q ≠ n) :
    q < 10 ^ 6 := by
  obtain ⟨digits, k, hdigits, rfl⟩ := hq.exists_div hwhole
  have hone : (1 : ℚ) ≤ 10 ^ k := one_le_pow₀ (by norm_num)
  exact (div_le_self (Nat.cast_nonneg _) hone).trans_lt (by exact_mod_cast hdigits)

/-- A decimal of six digits that is no natural number does not lie next to one. -/
theorem not_near_natCast {q : ℚ} (hq : HasSixDigits q) (hwhole : ∀ n : ℕ, q ≠ n) (n : ℕ) :
    ¬ |(n : ℚ) - q| ≤ q / 2 ^ 53 := by
  obtain ⟨digits, k, hdigits, rfl⟩ := hq.exists_div hwhole
  have hu : (0 : ℚ) < 10 ^ k := by positivity
  have hdigits' : (digits : ℚ) < 10 ^ 6 := by exact_mod_cast hdigits
  intro hnear
  rw [sub_div' hu.ne', abs_div, abs_of_pos hu, div_div, mul_comm (10 ^ k : ℚ) (2 ^ 53), ← div_div,
    div_le_div_iff_of_pos_right hu] at hnear
  have hlt : |((n * 10 ^ k : ℕ) : ℚ) - (digits : ℚ)| < 1 := by
    push_cast
    refine hnear.trans_lt ?_
    linarith
  have hlt' : |((n * 10 ^ k : ℕ) : ℤ) - (digits : ℤ)| < 1 := by exact_mod_cast hlt
  have heq : n * 10 ^ k = digits := by
    have := Int.abs_lt_one_iff.1 hlt'
    omega
  refine hwhole n ?_
  rw [← heq]
  push_cast
  field_simp

/-! ### Numbers as they are written -/

theorem written?_digitsAndPlace (layout : DecimalLayout) {digits : ℕ} (hdigits : digits ≠ 0)
    (exponent : ℤ) : written? (layout.write (digitsAndPlace (digits, exponent)).1
        (digitsAndPlace (digits, exponent)).2) = some (decimalValue (digits, exponent)) := by
  have hplace : (digitsAndPlace (digits, exponent)).2
      - ((Nat.repr (stripZeros 400 digits exponent).1).toList.length : ℤ)
        = (stripZeros 400 digits exponent).2 := add_sub_cancel_right _ _
  have hread := written?_write layout (stripZeros 400 digits exponent).1
    (digitsAndPlace (digits, exponent)).2
  rw [hplace, (stripZeros_spec 400 hdigits exponent).2] at hread
  exact hread

theorem isIntegral_iff (negative : Bool) (m : ℕ) (e : ℤ) :
    (finite negative m e).isIntegral = true ↔ ∃ n : ℕ, (m * 2 ^ e : ℚ) = n := by
  have hden := ratio_den_pos m e
  have hden' : ((ratio m e).2 : ℚ) ≠ 0 := by exact_mod_cast hden.ne'
  rw [← ratio_eq]
  constructor
  · intro h
    have hmod : (ratio m e).1 % (ratio m e).2 = 0 := by simpa [isIntegral] using h
    refine ⟨((ratio m e).1 / (ratio m e).2 : ℕ), ?_⟩
    rw [div_eq_iff hden']
    exact_mod_cast (Nat.div_mul_cancel (Nat.dvd_of_mod_eq_zero hmod)).symm
  · rintro ⟨n, hn⟩
    rw [div_eq_iff hden'] at hn
    have hn' : (ratio m e).1 = n * (ratio m e).2 := by exact_mod_cast hn
    simp [isIntegral, hn']

/-- A whole number is written in full. -/
theorem written?_wholeOr_natCast {m n : ℕ} {e : ℤ} (h : (m * 2 ^ e : ℚ) = n)
    (other : Binary64 → List Char) :
    written? ((finite false m e).wholeOr other) = some (n : ℚ) := by
  have hden := ratio_den_pos m e
  have hden' : ((ratio m e).2 : ℚ) ≠ 0 := by exact_mod_cast hden.ne'
  have hquotient : (ratio m e).1 / (ratio m e).2 = n := by
    rw [← ratio_eq, div_eq_iff hden'] at h
    have h' : (ratio m e).1 = n * (ratio m e).2 := by exact_mod_cast h
    rw [h', Nat.mul_div_cancel _ hden]
  have htruncate : (finite false m e).truncate = (n : ℤ) := by
    rw [← hquotient]
    rfl
  rw [wholeOr, if_pos ((isIntegral_iff ..).2 ⟨n, h⟩), htruncate]
  exact (written?_whole isDigit_of_mem_repr (repr_ne_nil n)).trans (by rw [digitsValue_repr])

section
variable {m : ℕ} {e : ℤ} (hkept : IsKept m e)
include hkept

/-- The nearest number of six digits is written as such. -/
theorem written?_general (hm : 0 < m) :
    written? (general (.finite false m e)) = some (sixDigits (m * 2 ^ e)) := by
  obtain ⟨hnum, hden⟩ := ratio_pos hm e
  have hpos : (0 : ℚ) < m * 2 ^ e := by positivity
  have hrange := isInRange_log2Ratio hkept hm hnum hden (ratio_eq m e)
  have hplace : log10Ratio (ratio m e).1 (ratio m e).2 - 5 = sixthPlace (m * 2 ^ e) := by
    rw [log10Ratio_eq_log hnum hden hrange, ratio_eq, sixthPlace]
  have hdigits : nearest (m * 2 ^ e / 10 ^ sixthPlace (m * 2 ^ e)) ≠ 0 := by
    have hle : 10 ^ 5 ≤ nearest (m * 2 ^ e / 10 ^ sixthPlace (m * 2 ^ e)) := by
      refine le_nearest ?_
      rw [le_div_iff₀ (ten_zpow_pos _)]
      exact_mod_cast (sixthPlace_bounds hpos).1
    omega
  unfold general
  dsimp only
  rw [if_neg hm.ne', hplace, roundQuotient_eq _ (decimalGrid_pos _ hden _), decimalGrid_ratio, ratio_eq]
  exact written?_digitsAndPlace .compact hdigits _

/-- A number that is not whole is written with six digits. -/
theorem written?_wholeOr_general (h : ∀ n : ℕ, (m * 2 ^ e : ℚ) ≠ n) :
    written? ((finite false m e).wholeOr general) = some (sixDigits (m * 2 ^ e)) := by
  have hm : m ≠ 0 := by
    rintro rfl
    exact h 0 (by norm_num)
  rw [wholeOr, if_neg fun hwhole => ((isIntegral_iff ..).1 hwhole).elim h]
  exact written?_general hkept (Nat.pos_of_ne_zero hm)

/-- A finite number that is not below zero is written as a decimal. -/
theorem isSome_written?_wholeOr : (written? ((finite false m e).wholeOr general)).isSome = true := by
  by_cases hwhole : ∃ n : ℕ, (m * 2 ^ e : ℚ) = n
  · obtain ⟨n, hn⟩ := hwhole
    rw [written?_wholeOr_natCast hn]
    rfl
  · rw [written?_wholeOr_general hkept (not_exists.1 hwhole)]
    rfl

end

/-! ### The shortest digits -/

/-- What a layout writes begins with a digit. -/
theorem isDigit_of_head_write (layout : DecimalLayout) {digits : List Char} (place : ℤ)
    (h : ∀ c ∈ digits, c.isDigit = true) (hne : digits ≠ []) :
    ∀ c ∈ (layout.write digits place).head?, c.isDigit = true := by
  obtain ⟨first, rest, rfl⟩ := List.exists_cons_of_ne_nil hne
  have hfirst : ∀ c ∈ some first, c.isDigit = true := fun c hc =>
    Option.some.inj hc ▸ h first List.mem_cons_self
  unfold DecimalLayout.write
  split
  · split
    · exact fun c hc => Option.some.inj hc ▸ rfl
    · split
      · exact hfirst
      · rename_i hplace _
        obtain ⟨k, hk⟩ : ∃ k, place.toNat = k + 1 := ⟨place.toNat - 1, by omega⟩
        rw [hk]
        exact hfirst
  · dsimp only
    split <;> exact hfirst

/-- A text that keeps a fractional part has a point, or an exponent. -/
theorem mem_write_full {digits : List Char} (hne : digits ≠ []) (place : ℤ) :
    '.' ∈ DecimalLayout.full.write digits place ∨ 'e' ∈ DecimalLayout.full.write digits place := by
  have hkeeps : DecimalLayout.full.keepsFraction = true := rfl
  obtain ⟨first, rest, rfl⟩ := List.exists_cons_of_ne_nil hne
  unfold DecimalLayout.write
  rw [hkeeps]
  split
  · left
    split
    · simp
    · split <;> simp
  · exact .inr (List.mem_append_right _ List.mem_cons_self)

/-- A text with an exponent is no plain number. -/
theorem not_isPlainNumber_of_mem {cs : List Char} (h : 'e' ∈ cs) : isPlainNumber cs = false := by
  rw [Bool.eq_false_iff]
  intro hplain
  obtain hdigit | h | h := mem_of_isPlainNumber hplain 'e' h
  · exact absurd hdigit (by decide)
  · exact absurd h (by decide)
  · exact absurd h (by decide)

theorem shortest_finite (negative : Bool) {m : ℕ} (hm : m ≠ 0) (e : ℤ) :
    shortest (.finite negative m e) = (if negative then ['-'] else []) ++
      DecimalLayout.full.write
        (digitsAndPlace (shortestFrom (.finite false m e) (ratio m e).1 (ratio m e).2 16 1)).1
        (digitsAndPlace (shortestFrom (.finite false m e) (ratio m e).1 (ratio m e).2 16 1)).2 := by
  unfold shortest
  dsimp only
  rw [if_neg hm]

/-- The shortest digits are rounded to the number that they are written for. -/
theorem exists_shortest {m : ℕ} {e : ℤ} (hkept : IsKept m e) (hm : m ≠ 0) :
    ∃ digits place q, digits ≠ [] ∧ (∀ c ∈ digits, c.isDigit = true) ∧
      (∀ negative, shortest (.finite negative m e)
        = (if negative then ['-'] else []) ++ DecimalLayout.full.write digits place) ∧
      written? (DecimalLayout.full.write digits place) = some q ∧ RoundsTo q (.finite false m e) := by
  obtain ⟨hnum, hden⟩ := ratio_pos (Nat.pos_of_ne_zero hm) e
  have hfound := @ofDecimal_shortestFrom (.finite false m e) _ _ 16 1
    (isSome_decimalWith hkept (Nat.pos_of_ne_zero hm) hnum hden (ratio_eq m e))
  have htext := fun negative => shortest_finite negative hm e
  generalize shortestFrom (.finite false m e) (ratio m e).1 (ratio m e).2 16 1 = decimal at hfound htext
  have hwritten := written?_digitsAndPlace .full (isComputed_of_eq hm hfound).ne_zero decimal.2
  have hround := roundsTo_ofDecimal decimal.1 decimal.2
  rw [hfound] at hround
  exact ⟨_, _, _, repr_ne_nil _, isDigit_of_mem_repr, htext, hwritten, hround⟩

/-- A number is read back from its shortest digits, where these are written place by place. -/
theorem read?_shortest {x : Binary64} (hx : x.IsCanonical) (hplain : isPlainNumber (shortest x) = true) :
    read? (shortest x) = some x := by
  cases x with
  | finite negative m e =>
    obtain rfl | hm := Decidable.em (m = 0)
    · obtain rfl : e = -1074 := hx.full.resolve_left (by norm_num)
      cases negative <;> decide +kernel
    · obtain ⟨digits, place, q, hne, hdigits, htext, hq, hround⟩ := exists_shortest hx hm
      rw [htext, isPlainNumber_sign (isDigit_of_head_write .full place hdigits hne)] at hplain
      rw [htext]
      exact read?_of_roundsTo hplain hq hm hround negative
  | infinity negative => cases negative <;> exact absurd hplain (by decide)
  | nan => exact absurd hplain (by decide)

/-- It is told from a whole number by its point. -/
theorem point_mem_shortest {x : Binary64} (hx : x.IsCanonical)
    (hplain : isPlainNumber (shortest x) = true) : '.' ∈ shortest x := by
  cases x with
  | finite negative m e =>
    obtain rfl | hm := Decidable.em (m = 0)
    · cases negative <;> exact List.mem_of_elem_eq_true rfl
    · obtain ⟨digits, place, q, hne, -, htext, -⟩ := exists_shortest hx hm
      rw [htext] at hplain ⊢
      obtain hpoint | hmark := mem_write_full hne place
      · exact List.mem_append_right _ hpoint
      · have hmark' := List.mem_append_right (if negative then ['-'] else []) hmark
        exact absurd hplain (Bool.eq_false_iff.1 (not_isPlainNumber_of_mem hmark'))
  | infinity negative => cases negative <;> exact absurd hplain (by decide)
  | nan => exact absurd hplain (by decide)

end MarkupTidy.Binary64
