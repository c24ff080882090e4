import MarkupTidy.Proofs.Variable.Reference

/-! # Lower case in context

Only the image of a capital sigma depends on what stands around it, and on that only through the
nearest characters that are not looked through.

* `seesCased`: whether a cased letter comes next; `seesCased_cons`.
* `lowerFrom_append_of_not_mem`: a text without sigmas is lowered character by character.
* `count_lowercase`: lower case keeps what lies below the small letters and is no capital.
* `bitsOf`, `images_apart`: what a letter is mapped to is not mapped again.
* `of_mem_lowercase`, `mem_lowercase_of_mem`: what a text in lower case is made of.
* `isLower_of_mem_lowercase`, `lowercase_lowercase`: lower case is in lower case. -/

namespace MarkupTidy.Text

/-- The letter whose lower case depends on its place. -/
def capitalSigma : Char := Char.ofNat 0x3A3

theorem eq_capitalSigma_iff {c : Char} : c.toNat = 0x3A3 ↔ c = capitalSigma :=
  ⟨fun h => by rw [← Char.ofNat_toNat c, h]; rfl, fun h => by rw [h]; rfl⟩

/-- Whether the first character that is not looked through is a cased letter. -/
def seesCased (cs : List Char) : Bool :=
  (cs.dropWhile isCaseIgnorable).head?.any isCased

theorem isFinalSigma_eq (before after : List Char) :
    isFinalSigma before after = (seesCased before && !seesCased after) :=
  rfl

theorem seesCased_cons (c : Char) (cs : List Char) :
    seesCased (c :: cs) = if isCaseIgnorable c then seesCased cs else isCased c := by
  cases h : isCaseIgnorable c <;> simp [seesCased, h]

theorem seesCased_cons_congr {cs cs' : List Char} (h : seesCased cs = seesCased cs') (c : Char) :
    seesCased (c :: cs) = seesCased (c :: cs') := by
  rw [seesCased_cons, seesCased_cons, h]

/-- A sigma in lower case. -/
def lowerSigma (isFinal : Bool) : Char :=
  if isFinal then Char.ofNat 0x3C2 else Char.ofNat 0x3C3

theorem lowerSigma_inj {a b : Bool} : lowerSigma a = lowerSigma b ↔ a = b := by
  revert a b
  decide

theorem isBlank_lowerSigma (isFinal : Bool) : isBlank (lowerSigma isFinal) = false := by
  cases isFinal <;> decide

theorem lowerFrom_sigma (before rest : List Char) :
    lowerFrom before (capitalSigma :: rest)
      = lowerSigma (isFinalSigma before rest) :: lowerFrom (capitalSigma :: before) rest := by
  rw [lowerFrom, if_pos (eq_capitalSigma_iff.2 rfl)]
  rfl

theorem lowerFrom_cons_of_ne {c : Char} (h : c ≠ capitalSigma) (before rest : List Char) :
    lowerFrom before (c :: rest) = lowerChar c ++ lowerFrom (c :: before) rest := by
  rw [lowerFrom, if_neg (mt eq_capitalSigma_iff.1 h)]

theorem lowerFrom_append_of_not_mem {x : List Char} (h : capitalSigma ∉ x) (before y : List Char) :
    lowerFrom before (x ++ y) = x.flatMap lowerChar ++ lowerFrom (x.reverse ++ before) y := by
  induction x generalizing before with
  | nil => rfl
  | cons c x ih =>
    rw [List.mem_cons, not_or] at h
    rw [List.cons_append, lowerFrom_cons_of_ne fun he => h.1 he.symm, ih h.2]
    simp

/-! ### Blanks -/

/-- A blank is neither looked through nor cased, and has no other case. -/
theorem lowerChar_of_isBlank {c : Char} (h : isBlank c = true) :
    lowerChar c = [c] ∧ isCaseIgnorable c = false ∧ isCased c = false := by
  have hranges : ∀ r ∈ blankChars, ∀ i < r.2 + 1 - r.1,
      lowerChar (Char.ofNat (r.1 + i)) = [Char.ofNat (r.1 + i)] := by
    decide +kernel
  have hapart : CharSet.AreApart blankChars (caseIgnorableA ++ caseIgnorableB ++ caseIgnorableC ++
      caseIgnorableD ++ casedCharsA ++ casedCharsB) := by
    decide +kernel
  obtain ⟨r, hr, hc⟩ := List.any_eq_true.1 h
  simp only [Bool.and_eq_true, decide_eq_true_eq] at hc
  have hd := hranges r hr (c.toNat - r.1) (by omega)
  rw [show r.1 + (c.toNat - r.1) = c.toNat by omega, Char.ofNat_toNat] at hd
  have hothers := CharSet.not_contains hapart h
  simp only [CharSet.contains_append, Bool.or_eq_false_iff] at hothers
  exact ⟨hd, by simp [isCaseIgnorable, hothers], by simp [isCased, hothers]⟩

theorem seesCased_blank_cons {c : Char} (h : isBlank c = true) (cs : List Char) :
    seesCased (c :: cs) = false := by
  rw [seesCased_cons, (lowerChar_of_isBlank h).2.1, (lowerChar_of_isBlank h).2.2]
  rfl

theorem capitalSigma_not_isBlank : isBlank capitalSigma = false := by
  decide

theorem isSolid_lowerChar {c : Char} (h : isBlank c = false) : IsSolid (lowerChar c) := by
  intro d hd
  obtain ⟨rfl, -⟩ | hlow := mem_lowerChar hd
  · exact h
  · exact hlow.2

theorem lowerChar_ne_nil (c : Char) : lowerChar c ≠ [] := by
  unfold lowerChar
  split
  · exact List.cons_ne_nil _ _
  · split <;> exact List.cons_ne_nil _ _

/-! ### Characters that have no case -/

/-- Lower case keeps a mark below the small letters, and brings in no other one. -/
theorem count_lowercase {m : Char} (h : m.toNat < 0x61) (hm : lowerChar m = [m])
    (cs : List Char) : (lowercase cs).count m = cs.count m := by
  have hlow : ∀ {d : Char}, IsLowered d → d ≠ m := by
    rintro d hd rfl
    have := hd.1
    omega
  have hchar : ∀ c : Char, (lowerChar c).count m = [c].count m := by
    intro c
    by_cases hc : c = m
    · rw [hc, hm]
    · rw [List.count_eq_zero.2, List.count_eq_zero.2 (by simpa using fun he => hc he.symm)]
      intro hmem
      obtain ⟨rfl, -⟩ | hd := mem_lowerChar hmem
      · exact hc rfl
      · exact hlow hd rfl
  have hsigma : m ≠ capitalSigma := by
    rintro rfl
    exact absurd h (by decide)
  have hsmall : ∀ b, lowerSigma b ≠ m := by
    intro b he
    rw [← he] at h
    revert h
    cases b <;> decide
  have hfrom : ∀ before, (lowerFrom before cs).count m = cs.count m := by
    induction cs with
    | nil => exact fun _ => rfl
    | cons c cs ih =>
      intro before
      by_cases hc : c = capitalSigma
      · subst hc
        rw [lowerFrom_sigma, List.count_cons_of_ne (hsmall _), ih,
          List.count_cons_of_ne fun he => hsigma he.symm]
      · rw [lowerFrom_cons_of_ne hc, List.count_append, ih, hchar, ← List.count_append,
          List.singleton_append]
  exact hfrom []

/-! ### Texts in lower case -/

/-- A letter that lower case leaves as it is, wherever it stands. -/
def IsLower (c : Char) : Prop :=
  lowerChar c = [c] ∧ c ≠ capitalSigma

instance (c : Char) : Decidable (IsLower c) :=
  inferInstanceAs (Decidable (_ ∧ _))

theorem isLower_of_ascii : ∀ n < 0x80, IsLower (Char.ofNat n).toLower ∧
    (0x61 ≤ n → (Char.ofNat n).toLower = Char.ofNat n) := by
  decide +kernel

/-- The letters that are written for those whose lower case is no other single letter. -/
theorem isLower_of_mem_images :
    ∀ d ∈ ['i', Char.ofNat 0x307, lowerSigma true, lowerSigma false], IsLower d := by
  decide +kernel

theorem exists_covers_capitalSigma : ∃ s ∈ lowerRuns, s.covers capitalSigma.toNat = true := by
  decide +kernel

/-- A set of code points as the bits of a number, so that two sets are compared at once. -/
def bitsOf (ns : List Nat) : Nat :=
  ns.foldr (fun n bits => bits ||| 1 <<< n) 0

theorem testBit_bitsOf {ns : List Nat} {n : Nat} : (bitsOf ns).testBit n = true ↔ n ∈ ns := by
  induction ns with
  | nil => simp [bitsOf]
  | cons m ns ih =>
    have hbit : (1 <<< m).testBit n = true ↔ n = m := by
      rw [Nat.one_shiftLeft, Nat.testBit_two_pow, decide_eq_true_eq, eq_comm]
    rw [bitsOf, List.foldr_cons, Nat.testBit_or, Bool.or_eq_true, hbit, List.mem_cons, or_comm]
    exact or_congr_right ih

/-- Sets whose bits have nothing in common have no member in common. -/
theorem not_mem_of_bitsOf_and {ns ms : List Nat} (h : bitsOf ns &&& bitsOf ms = 0) {n : Nat}
    (hn : n ∈ ns) : n ∉ ms := by
  intro hm
  have hbit := congrArg (Nat.testBit · n) h
  simp only [Nat.testBit_and, testBit_bitsOf.2 hn, testBit_bitsOf.2 hm, Nat.zero_testBit] at hbit
  exact Bool.noConfusion hbit

/-- The code points that a run maps. -/
def CaseRun.codes (r : CaseRun) : List Nat :=
  (List.range ((r.last - r.first) / r.stride + 1)).map (r.first + r.stride * ·)

/-- The code points that a run maps them to. -/
def CaseRun.images (r : CaseRun) : List Nat :=
  r.codes.map fun n : Nat => Int.toNat (n + r.distance)

theorem CaseRun.mem_codes_of_covers {r : CaseRun} {n : Nat} (h : r.covers n = true) :
    n ∈ r.codes := by
  simp only [covers, Bool.and_eq_true, decide_eq_true_eq, beq_iff_eq] at h
  obtain ⟨⟨hfirst, hlast⟩, hstride⟩ := h
  have hindex : (n - r.first) / r.stride ≤ (r.last - r.first) / r.stride :=
    Nat.div_le_div_right (by omega)
  refine List.mem_map.2 ⟨_, List.mem_range.2 (Nat.lt_succ_of_le hindex), ?_⟩
  rw [Nat.mul_div_cancel' (Nat.dvd_of_mod_eq_zero hstride)]
  omega

/-- No image of a run is mapped by a run, and none is the one letter whose lower case takes two
characters. -/
theorem images_apart : bitsOf (lowerRuns.flatMap CaseRun.images)
    &&& bitsOf (0x130 :: lowerRuns.flatMap CaseRun.codes) = 0 := by
  decide +kernel

theorem CaseRun.not_covers_image {r : CaseRun} (hr : r ∈ lowerRuns) {n : Nat}
    (hn : r.covers n = true) : Int.toNat (n + r.distance) ≠ 0x130 ∧
      ∀ s ∈ lowerRuns, s.covers (Int.toNat (n + r.distance)) = false := by
  have himage : Int.toNat (n + r.distance) ∈ lowerRuns.flatMap images :=
    List.mem_flatMap.2 ⟨r, hr, List.mem_map_of_mem (mem_codes_of_covers hn)⟩
  have hapart := not_mem_of_bitsOf_and images_apart himage
  rw [List.mem_cons, not_or] at hapart
  refine ⟨hapart.1, fun s hs => Bool.eq_false_iff.2 fun hcovers => hapart.2 ?_⟩
  exact List.mem_flatMap.2 ⟨s, hs, mem_codes_of_covers hcovers⟩

theorem isLower_of_not_covers {c : Char} (h : 0x80 ≤ c.toNat) (hdotted : c.toNat ≠ 0x130)
    (hruns : ∀ s ∈ lowerRuns, s.covers c.toNat = false) : IsLower c := by
  have hfind : lowerRuns.find? (·.covers c.toNat) = none :=
    List.find?_eq_none.2 fun s hs => by simp [hruns s hs]
  refine ⟨?_, ?_⟩
  · rw [lowerChar, if_neg (by omega), if_neg hdotted, mapByRuns, hfind]
  · rintro rfl
    obtain ⟨s, hs, hcovers⟩ := exists_covers_capitalSigma
    exact Bool.noConfusion (hcovers.symm.trans (hruns s hs))

/-- The image of a run is a small letter. -/
theorem CaseRun.isLower {r : CaseRun} (hr : r ∈ lowerRuns) {n : Nat} (hn : r.covers n = true) :
    IsLower (Char.ofNat (Int.toNat (n + r.distance))) := by
  have hhigh := isHigh_of_mem_lowerRuns r hr
  have htoNat := hhigh.toNat_image hn
  have hlow := hhigh.1
  have hfirst : r.first ≤ n := by
    simp only [covers, Bool.and_eq_true, decide_eq_true_eq] at hn
    exact hn.1.1
  obtain ⟨hdotted, hruns⟩ := CaseRun.not_covers_image hr hn
  by_cases hascii : Int.toNat (n + r.distance) < 0x80
  · obtain ⟨hlower, hsmall⟩ := isLower_of_ascii _ hascii
    rwa [hsmall (by omega)] at hlower
  · exact isLower_of_not_covers (by omega) (htoNat.symm ▸ hdotted) (htoNat.symm ▸ hruns)

theorem isLower_of_mem_lowerChar {c d : Char} (h : d ∈ lowerChar c) : IsLower d := by
  unfold lowerChar at h
  split at h
  · rename_i hascii
    have hlower := (isLower_of_ascii c.toNat hascii).1
    rw [Char.ofNat_toNat] at hlower
    rwa [List.mem_singleton.1 h]
  · rename_i hascii
    split at h
    · exact isLower_of_mem_images d (List.mem_append_left [lowerSigma true, lowerSigma false] h)
    · rename_i hdotted
      obtain rfl := List.mem_singleton.1 h
      unfold mapByRuns
      split
      · rename_i r hr
        exact CaseRun.isLower (List.mem_of_find?_eq_some hr) (by simpa using List.find?_some hr)
      · rename_i hnone
        exact isLower_of_not_covers (by omega) hdotted fun s hs => by
          simpa using List.find?_eq_none.1 hnone s hs

/-- A text in lower case is made of small sigmas and of the images of its letters. -/
theorem of_mem_lowercase {cs : List Char} {d : Char} (h : d ∈ lowercase cs) :
    (∃ isFinal, d = lowerSigma isFinal) ∨ ∃ c ∈ cs, d ∈ lowerChar c := by
  have hfrom : ∀ before, d ∈ lowerFrom before cs →
      (∃ isFinal, d = lowerSigma isFinal) ∨ ∃ c ∈ cs, d ∈ lowerChar c := by
    clear h
    induction cs with
    | nil => exact fun _ h => absurd h List.not_mem_nil
    | cons c cs ih =>
      have hrest : ∀ before, d ∈ lowerFrom before cs →
          (∃ isFinal, d = lowerSigma isFinal) ∨ ∃ b ∈ c :: cs, d ∈ lowerChar b := fun before h =>
        (ih before h).imp_right fun ⟨b, hb, hd⟩ => ⟨b, List.mem_cons_of_mem c hb, hd⟩
      intro before h
      by_cases hsigma : c = capitalSigma
      · rw [hsigma, lowerFrom_sigma] at h
        exact (List.mem_cons.1 h).elim (fun hd => .inl ⟨_, hd⟩) (hsigma ▸ hrest _)
      · rw [lowerFrom_cons_of_ne hsigma, List.mem_append] at h
        exact h.elim (fun hd => .inr ⟨c, List.mem_cons_self, hd⟩) (hrest _)
  exact hfrom [] h

/-- What lower case leaves as it is stays in a text. -/
theorem mem_lowercase_of_mem {c : Char} (hlower : IsLower c) {cs : List Char} (h : c ∈ cs) :
    c ∈ lowercase cs := by
  have hfrom : ∀ before, c ∈ lowerFrom before cs := by
    induction cs with
    | nil => exact absurd h List.not_mem_nil
    | cons d cs ih =>
      intro before
      obtain rfl | h := List.mem_cons.1 h
      · rw [lowerFrom_cons_of_ne hlower.2, hlower.1]
        exact List.mem_cons_self
      · by_cases hsigma : d = capitalSigma
        · rw [hsigma, lowerFrom_sigma]
          exact List.mem_cons_of_mem _ (ih h _)
        · rw [lowerFrom_cons_of_ne hsigma]
          exact List.mem_append_right _ (ih h _)
  exact hfrom []

theorem isLower_of_mem_lowercase {cs : List Char} {d : Char} (h : d ∈ lowercase cs) :
    IsLower d := by
  obtain ⟨isFinal, rfl⟩ | ⟨c, -, hd⟩ := of_mem_lowercase h
  · exact isLower_of_mem_images _ (by cases isFinal <;> simp)
  · exact isLower_of_mem_lowerChar hd

/-- A text that is all small letters, or letters without a case, is in lower case. -/
theorem lowercase_of_isLower {cs : List Char} (h : ∀ c ∈ cs, IsLower c) : lowercase cs = cs := by
  have hsigma : capitalSigma ∉ cs := fun hmem => (h _ hmem).2 rfl
  have hflat : ∀ {xs : List Char}, (∀ c ∈ xs, IsLower c) → xs.flatMap lowerChar = xs := by
    intro xs hxs
    induction xs with
    | nil => rfl
    | cons c xs ih =>
      obtain ⟨hc, hxs⟩ := List.forall_mem_cons.1 hxs
      rw [List.flatMap_cons, hc.1, ih hxs]
      rfl
  have happend := lowerFrom_append_of_not_mem hsigma [] []
  rw [List.append_nil, hflat h] at happend
  rw [lowercase, happend]
  exact List.append_nil cs

/-- Lower case is lower case already. -/
theorem lowercase_lowercase (cs : List Char) : lowercase (lowercase cs) = lowercase cs :=
  lowercase_of_isLower fun _ h => isLower_of_mem_lowercase h

end MarkupTidy.Text
