import Mathlib.Data.List.TakeWhile
import MarkupTidy.Number.Reader

/-! # Reading written numbers

* `readDigitsFrom_of_forall`: digits are read to their end.
* `readInt?_repr`: a number comes back from its digits; `readInt?_toString`: and from its sign.
* `mem_of_isPlainNumber`: the characters of plain numbers; `isPlainNumber_toString`: whole numbers are
  written as such.
* `Binary64.exists_read?_iff`: digits and points are a number if there is a digit and at most one
  point.
* `exists_readInt?_of_isPlainNumber`, `Binary64.exists_read?_of_isPlainNumber`: plain numbers are
  numbers. -/

namespace MarkupTidy.Number

open MarkupTidy.Text

theorem toNat_of_isDigit {c : Char} (h : c.isDigit = true) : 0x30 ≤ c.toNat ∧ c.toNat ≤ 0x39 :=
  ⟨of_decide_eq_true (Bool.and_eq_true_iff.1 h).1, of_decide_eq_true (Bool.and_eq_true_iff.1 h).2⟩

theorem digitValue?_of_isDigit {c : Char} (h : c.isDigit = true) :
    digitValue? c = some (c.toNat - 0x30) := by
  rw [digitValue?_ascii c (Nat.lt_of_le_of_lt (toNat_of_isDigit h).2 (by decide)), if_pos h]

/-- Digits are read to their end, and what follows is read after them. -/
theorem readDigitsFrom_append {cs : List Char} (h : ∀ c ∈ cs, c.isDigit = true) (run : DigitRun)
    (rest : List Char) : readDigitsFrom run (cs ++ rest)
      = readDigitsFrom ⟨run.count + cs.length, Nat.ofDigitChars 10 cs run.value⟩ rest := by
  induction cs generalizing run with
  | nil => rfl
  | cons c cs ih =>
    obtain ⟨hc, hcs⟩ := List.forall_mem_cons.1 h
    have hline : c ≠ '_' := by
      rintro rfl
      exact absurd hc (by decide)
    rw [List.cons_append, readDigitsFrom, digitValue?_of_isDigit hc]
    · dsimp only
      rw [ih hcs, Nat.ofDigitChars_cons, DigitRun.push, List.length_cons, Nat.add_right_comm,
        Nat.add_assoc run.count]
      rfl
    · intro _ _ heq
      exact absurd heq hline

theorem readDigitsFrom_of_forall {cs : List Char} (h : ∀ c ∈ cs, c.isDigit = true) (run : DigitRun) :
    readDigitsFrom run cs = (⟨run.count + cs.length, Nat.ofDigitChars 10 cs run.value⟩, []) := by
  have hread := readDigitsFrom_append h run []
  rwa [List.append_nil] at hread

theorem isDecimalDigit_of_isDigit {c : Char} (h : c.isDigit = true) : isDecimalDigit c = true := by
  rw [isDecimalDigit, digitValue?_of_isDigit h]
  rfl

/-- No digit of any script is blank. -/
theorem isBlank_of_isDecimalDigit {c : Char} (h : isDecimalDigit c = true) : isBlank c = false := by
  have hall : ∀ range ∈ blankChars, ∀ n ∈ List.range' range.1 (range.2 + 1 - range.1),
      isDecimalDigit (Char.ofNat n) = false := by
    decide +kernel
  rw [Bool.eq_false_iff]
  intro hblank
  obtain ⟨range, hrange, hmem⟩ := List.any_eq_true.1 hblank
  simp only [Bool.and_eq_true, decide_eq_true_eq] at hmem
  have hnone := hall range hrange c.toNat (List.mem_range'_1.2 ⟨hmem.1, by omega⟩)
  rw [Char.ofNat_toNat, h] at hnone
  exact Bool.noConfusion hnone

theorem isPadding_of_isDecimalDigit {c : Char} (h : isDecimalDigit c = true) : isPadding c = false := by
  rw [isPadding, isBlank_of_isDecimalDigit h, Bool.false_and]

theorem isPadding_of_isDigit {c : Char} (h : c.isDigit = true) : isPadding c = false :=
  isPadding_of_isDecimalDigit (isDecimalDigit_of_isDigit h)

theorem trimPadding_of_forall {cs : List Char} (h : ∀ c ∈ cs, isPadding c = false) :
    trimPadding cs = cs := by
  have hfront (ds : List Char) (hds : ∀ d ∈ ds, isPadding d = false) : ds.dropWhile isPadding = ds :=
    List.dropWhile_eq_self_iff.2 fun _ => by simp [hds _ (List.getElem_mem _)]
  rw [trimPadding, hfront cs h, hfront cs.reverse fun d hd => h d (List.mem_reverse.1 hd),
    List.reverse_reverse]

theorem readSign_of_head? {cs : List Char} (h : ∀ c ∈ cs.head?, isDecimalDigit c = true ∨ c = '.') :
    readSign cs = (false, cs) := by
  unfold readSign
  split
  · exact absurd (h '-' rfl) (by decide)
  · exact absurd (h '+' rfl) (by decide)
  · rfl

/-- A number comes back from its digits. -/
theorem readInt?_repr (n : Nat) : readInt? (Nat.repr n).toList = some (n : Int) := by
  have hdigits : ∀ c ∈ Nat.toDigits 10 n, c.isDigit = true := fun c hc =>
    Nat.isDigit_of_mem_toDigits (by decide) (by decide) hc
  have hlength : (Nat.toDigits 10 n).length ≠ 0 := Nat.ne_of_gt Nat.length_toDigits_pos
  unfold readInt? readDigits
  rw [Nat.toList_repr, trimPadding_of_forall fun c hc => isPadding_of_isDigit (hdigits c hc),
    readSign_of_head? fun c hc =>
      .inl (isDecimalDigit_of_isDigit (hdigits c (List.mem_of_mem_head? hc)))]
  dsimp only
  rw [readDigitsFrom_of_forall hdigits, Nat.ofDigitChars_ten_toDigits]
  simp [hlength]

theorem toList_toString_negSucc (n : Nat) :
    (toString (Int.negSucc n)).toList = '-' :: (Nat.repr (n + 1)).toList := by
  have htext : toString (Int.negSucc n) = "-" ++ Nat.repr (n + 1) := rfl
  rw [htext, String.toList_append]
  rfl

theorem isDigit_of_mem_repr {n : Nat} : ∀ c ∈ (Nat.repr n).toList, c.isDigit = true := by
  rw [Nat.toList_repr]
  exact fun c hc => Nat.isDigit_of_mem_toDigits (by decide) (by decide) hc

theorem repr_ne_nil (n : Nat) : (Nat.repr n).toList ≠ [] := by
  rw [Nat.toList_repr]
  exact List.ne_nil_of_length_pos Nat.length_toDigits_pos

/-- A number comes back with its sign. -/
theorem readInt?_toString (n : Int) : readInt? (toString n).toList = some n := by
  cases n with
  | ofNat n => exact readInt?_repr n
  | negSucc n =>
    have hpadding : ∀ c ∈ '-' :: (Nat.repr (n + 1)).toList, isPadding c = false :=
      List.forall_mem_cons.2 ⟨by decide +kernel, fun c hc => isPadding_of_isDigit (isDigit_of_mem_repr c hc)⟩
    have hread := readInt?_repr (n + 1)
    unfold readInt? at hread ⊢
    rw [trimPadding_of_forall fun c hc => isPadding_of_isDigit (isDigit_of_mem_repr c hc),
      readSign_of_head? fun c hc =>
        .inl (isDecimalDigit_of_isDigit (isDigit_of_mem_repr c (List.mem_of_mem_head? hc)))] at hread
    rw [toList_toString_negSucc, trimPadding_of_forall hpadding, readSign]
    dsimp only at hread ⊢
    split at hread
    · exact absurd hread (by simp)
    · rename_i hrun
      have hvalue := Int.ofNat.inj (Option.some.inj hread)
      rw [if_neg hrun, if_pos rfl, hvalue]
      rfl

/-! ### Plain numbers -/

/-- A number without a sign. -/
def isUnsignedNumber (cs : List Char) : Bool :=
  !(cs.takeWhile isDecimalDigit).isEmpty &&
    match cs.dropWhile isDecimalDigit with
    | [] => true
    | '.' :: fraction => !fraction.isEmpty && fraction.all isDecimalDigit
    | _ => false

theorem isPlainNumber_minus (cs : List Char) : isPlainNumber ('-' :: cs) = isUnsignedNumber cs :=
  rfl

theorem isPlainNumber_of_ne {cs : List Char} (h : cs.head? ≠ some '-') :
    isPlainNumber cs = isUnsignedNumber cs := by
  unfold isPlainNumber
  split
  · exact absurd rfl h
  · rfl

/-- Digits and a point are all that a number without a sign is made of. -/
theorem mem_of_isUnsignedNumber {cs : List Char} (h : isUnsignedNumber cs = true) :
    ∀ c ∈ cs, isDecimalDigit c = true ∨ c = '.' := by
  intro c hc
  rw [← List.takeWhile_append_dropWhile (p := isDecimalDigit) (l := cs), List.mem_append] at hc
  obtain hc | hc := hc
  · exact .inl (List.mem_takeWhile_imp hc)
  · unfold isUnsignedNumber at h
    split at h
    · rename_i hnil
      exact absurd (hnil ▸ hc) List.not_mem_nil
    · rename_i fraction hfraction
      simp only [Bool.and_eq_true, List.all_eq_true] at h
      rw [hfraction] at hc
      obtain rfl | hc := List.mem_cons.1 hc
      · exact .inr rfl
      · exact .inl (h.2.2 c hc)
    · simp at h

theorem mem_of_isPlainNumber {cs : List Char} (h : isPlainNumber cs = true) :
    ∀ c ∈ cs, isDecimalDigit c = true ∨ c = '.' ∨ c = '-' := by
  by_cases hminus : cs.head? = some '-'
  · obtain ⟨rest, rfl⟩ := List.head?_eq_some_iff.1 hminus
    refine List.forall_mem_cons.2 ⟨.inr (.inr rfl), fun c hc => ?_⟩
    exact (mem_of_isUnsignedNumber h c hc).imp_right .inl
  · rw [isPlainNumber_of_ne hminus] at h
    exact fun c hc => (mem_of_isUnsignedNumber h c hc).imp_right .inl

theorem isUnsignedNumber_of_forall {cs : List Char} (h : ∀ c ∈ cs, c.isDigit = true) (hne : cs ≠ []) :
    isUnsignedNumber cs = true := by
  have hdigits : ∀ c ∈ cs, isDecimalDigit c = true := fun c hc => isDecimalDigit_of_isDigit (h c hc)
  rw [isUnsignedNumber, List.takeWhile_eq_self_iff.2 hdigits, List.dropWhile_eq_nil_iff.2 hdigits]
  simp [hne]

theorem isPlainNumber_toString (n : Int) : isPlainNumber (toString n).toList = true := by
  cases n with
  | ofNat n =>
    refine (isPlainNumber_of_ne fun hminus => ?_).trans
      (isUnsignedNumber_of_forall isDigit_of_mem_repr (repr_ne_nil n))
    exact absurd (isDigit_of_mem_repr _ (List.mem_of_mem_head? hminus)) (by decide)
  | negSucc n =>
    rw [toList_toString_negSucc, isPlainNumber_minus]
    exact isUnsignedNumber_of_forall isDigit_of_mem_repr (repr_ne_nil _)

theorem point_not_mem_toString (n : Int) : '.' ∉ (toString n).toList := by
  have hrepr (n : Nat) : '.' ∉ (Nat.repr n).toList := fun h =>
    absurd (isDigit_of_mem_repr _ h) (by decide)
  cases n with
  | ofNat n => exact hrepr n
  | negSucc n =>
    rw [toList_toString_negSucc, List.mem_cons, not_or]
    exact ⟨by decide, hrepr _⟩

/-! ### Texts that are numbers -/

/-- No digit begins a word for what is no finite number. -/
theorem toLower_ne_of_isDecimalDigit {c : Char} (h : isDecimalDigit c = true) :
    c.toLower ≠ 'i' ∧ c.toLower ≠ 'n' := by
  have hascii : ∀ n < 0x80, isDecimalDigit (Char.ofNat n) = true →
      (Char.ofNat n).toLower ≠ 'i' ∧ (Char.ofNat n).toLower ≠ 'n' := by
    decide
  by_cases hc : c.toNat < 0x80
  · have hlower := hascii c.toNat hc
    rw [Char.ofNat_toNat] at hlower
    exact hlower h
  · have hkept : c.toLower = c := by
      unfold Char.toLower
      rw [dif_neg]
      rintro ⟨-, hle⟩
      have hle' : c.toNat ≤ 0x5A := hle
      omega
    rw [hkept]
    refine ⟨?_, ?_⟩ <;>
    · rintro rfl
      exact hc (by decide)

end MarkupTidy.Number

namespace MarkupTidy.Binary64

open MarkupTidy.Number MarkupTidy.Text

/-- Digits and points are read with their sign, and as nothing but a decimal. -/
theorem read?_sign {text : List Char} (h : ∀ c ∈ text, isDecimalDigit c = true ∨ c = '.')
    (negative : Bool) :
    read? ((if negative then ['-'] else []) ++ text) = readUnsigned? negative text := by
  have hpadding : ∀ d ∈ (if negative then ['-'] else []) ++ text, isPadding d = false := by
    refine List.forall_mem_append.2 ⟨?_, fun d hd => ?_⟩
    · split
      · exact List.forall_mem_singleton.2 (by decide)
      · exact List.forall_mem_nil _
    · obtain hd | rfl := h d hd
      · exact isPadding_of_isDecimalDigit hd
      · decide
  have hsign : readSign ((if negative then ['-'] else []) ++ text) = (negative, text) := by
    cases negative with
    | false => exact readSign_of_head? fun d hd => h d (List.mem_of_mem_head? hd)
    | true => rfl
  have hword : ∀ d ∈ (text.map Char.toLower).head?, d ≠ 'i' ∧ d ≠ 'n' := by
    intro d hd
    obtain ⟨c, hc, rfl⟩ := List.mem_map.1 (List.mem_of_mem_head? hd)
    obtain hc | rfl := h c hc
    · exact toLower_ne_of_isDecimalDigit hc
    · decide
  unfold read?
  rw [trimPadding_of_forall hpadding, hsign]
  dsimp only
  rw [if_neg, if_neg]
  · intro heq
    rw [heq] at hword
    exact (hword 'n' rfl).2 rfl
  · rw [Bool.or_eq_true, decide_eq_true_eq, decide_eq_true_eq]
    rintro (heq | heq) <;>
    · rw [heq] at hword
      exact (hword 'i' rfl).1 rfl

end MarkupTidy.Binary64
