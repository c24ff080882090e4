import MarkupTidy.Text.Surrogate
import MarkupTidy.Text.Utf8

/-! # Texts and their bytes

* `isWellFormed_append`, `isWellFormed_join`, `isWellFormed_lines`: texts that have an encoding, by their
  parts.
* `utf8Bytes_singleton`: the bytes of a character, by its size.
* `decodeUtf8_utf8Bytes`: a text comes back from its bytes. -/

namespace MarkupTidy.Text

/-! ### Texts that have an encoding -/

theorem isWellFormed_append (cs ds : List Char) :
    isWellFormed (cs ++ ds) = (isWellFormed cs && isWellFormed ds) :=
  List.all_append

theorem isWellFormed_join {parts : List String} (h : ∀ part ∈ parts, isWellFormed part.toList = true) :
    isWellFormed (String.join parts).toList = true := by
  rw [String.toList_join, isWellFormed, List.all_flatMap]
  exact List.all_eq_true.2 h

/-- Lines that have an encoding make up a text that has one. -/
theorem isWellFormed_lines {lines : List String}
    (h : ∀ line ∈ lines, isWellFormed line.toList = true) :
    isWellFormed ("\n".intercalate lines ++ "\n").toList = true := by
  have hmark : isWellFormed "\n".toList = true := by decide +kernel
  have hlines : isWellFormed ("\n".intercalate lines).toList = true := by
    induction lines with
    | nil => rfl
    | cons line rest ih =>
      obtain ⟨hline, hrest⟩ := List.forall_mem_cons.1 h
      by_cases hne : rest = []
      · simpa [hne] using hline
      · rw [String.intercalate_cons_of_ne_nil hne, String.toList_append, String.toList_append,
          isWellFormed_append, isWellFormed_append, hline, hmark, ih hrest]
        rfl
  rw [String.toList_append, isWellFormed_append, hlines, hmark]
  rfl

/-! ### Bytes -/

/-- Letters and digits are single bytes. -/
theorem toNat_lt_of_isAlphanum {c : Char} (h : c.isAlphanum = true) : c.toNat < 0x80 := by
  have hupper : c.isUpper = true → c.toNat ≤ 'Z'.toNat := fun h => (of_decide_eq_true h).2
  have hlower : c.isLower = true → c.toNat ≤ 'z'.toNat := fun h =>
    of_decide_eq_true (Bool.and_eq_true_iff.1 h).2
  have hdigit : c.isDigit = true → c.toNat ≤ '9'.toNat := fun h =>
    of_decide_eq_true (Bool.and_eq_true_iff.1 h).2
  obtain h | h := Bool.or_eq_true_iff.1 h
  · obtain h | h := Bool.or_eq_true_iff.1 h
    · exact Nat.lt_of_le_of_lt (hupper h) (by decide)
    · exact Nat.lt_of_le_of_lt (hlower h) (by decide)
  · exact Nat.lt_of_le_of_lt (hdigit h) (by decide)

theorem utf8Bytes_cons (c : Char) (cs : List Char) : utf8Bytes (c :: cs) = utf8Bytes [c] ++ utf8Bytes cs := by
  simp [utf8Bytes]

theorem toNat_lt (c : Char) : c.toNat < 0x110000 := by
  have hvalid : c.toNat < 0xD800 ∨ 0xDFFF < c.toNat ∧ c.toNat < 0x110000 := c.valid
  omega

/-- The bytes of a character, by its size. -/
theorem utf8Bytes_singleton (c : Char) : utf8Bytes [c] =
    if c.toNat < 0x80 then [c.toNat]
    else if c.toNat < 0x800 then [0xC0 + c.toNat / 0x40, 0x80 + c.toNat % 0x40]
    else if c.toNat < 0x10000 then
      [0xE0 + c.toNat / 0x1000, 0x80 + c.toNat / 0x40 % 0x40, 0x80 + c.toNat % 0x40]
    else [0xF0 + c.toNat / 0x40000, 0x80 + c.toNat / 0x1000 % 0x40, 0x80 + c.toNat / 0x40 % 0x40,
      0x80 + c.toNat % 0x40] := by
  have hlast := toNat_lt c
  have hval : c.val.toNat = c.toNat := rfl
  have hbyte (n : Nat) (h : n < 0x100) : (UInt8.ofNat n).toNat = n := by
    rw [UInt8.toNat_ofNat', Nat.mod_eq_of_lt h]
  simp only [utf8Bytes, List.flatMap_cons, List.flatMap_nil, List.append_nil, String.utf8EncodeChar,
    hval]
  generalize c.toNat = n at hlast
  by_cases hone : n < 0x80
  · rw [if_pos (by omega), if_pos hone]
    simp (disch := omega) only [List.map_cons, List.map_nil, hbyte]
  rw [if_neg (by omega), if_neg hone]
  by_cases htwo : n < 0x800
  · rw [if_pos (by omega), if_pos htwo]
    simp (disch := omega) only [List.map_cons, List.map_nil, hbyte]
    simp only [List.cons.injEq, and_true]
    omega
  rw [if_neg (by omega), if_neg htwo]
  by_cases hthree : n < 0x10000
  · rw [if_pos (by omega), if_pos hthree]
    simp (disch := omega) only [List.map_cons, List.map_nil, hbyte]
    simp only [List.cons.injEq, and_true]
    omega
  · rw [if_neg (by omega), if_neg hthree]
    simp (disch := omega) only [List.map_cons, List.map_nil, hbyte]
    simp only [List.cons.injEq, and_true]
    omega

/-! ### And back -/

/-- A byte that goes on with a character brings six more bits of it. -/
theorem continueUtf8_cons {value least greatest more n : Nat} {bytes : List Nat}
    (hleast : least ≤ 0x80 + n % 0x40) (hgreatest : 0x80 + n % 0x40 ≤ greatest) :
    continueUtf8 value least greatest (more + 1) ((0x80 + n % 0x40) :: bytes)
      = continueUtf8 (value * 0x40 + n % 0x40) 0x80 0xBF more bytes := by
  have hbits : (0x80 + n % 0x40) % 0x40 = n % 0x40 := by omega
  rw [continueUtf8, if_pos (by simp [hleast, hgreatest]), hbits]

theorem utf8Start?_one {n : Nat} (h : n < 0x80) : utf8Start? n = some ⟨n, 0, 0x80, 0xBF⟩ := by
  rw [utf8Start?, if_pos h]

theorem utf8Start?_two {n : Nat} (hleast : 0x80 ≤ n) (hgreatest : n < 0x800) :
    utf8Start? (0xC0 + n / 0x40) = some ⟨n / 0x40, 1, 0x80, 0xBF⟩ := by
  have hbits : (0xC0 + n / 0x40) % 0x20 = n / 0x40 := by omega
  rw [utf8Start?, if_neg (by omega), if_neg (by omega), if_pos (by omega), hbits]

theorem utf8Start?_three {n : Nat} (h : n < 0x10000) :
    utf8Start? (0xE0 + n / 0x1000) = some ⟨n / 0x1000, 2,
      if 0xE0 + n / 0x1000 = 0xE0 then 0xA0 else 0x80,
      if 0xE0 + n / 0x1000 = 0xED then 0x9F else 0xBF⟩ := by
  have hbits : (0xE0 + n / 0x1000) % 0x10 = n / 0x1000 := by omega
  rw [utf8Start?, if_neg (by omega), if_neg (by omega), if_neg (by omega), if_pos (by omega), hbits]

theorem utf8Start?_four {n : Nat} (h : n < 0x110000) :
    utf8Start? (0xF0 + n / 0x40000) = some ⟨n / 0x40000, 3,
      if 0xF0 + n / 0x40000 = 0xF0 then 0x90 else 0x80,
      if 0xF0 + n / 0x40000 = 0xF4 then 0x8F else 0xBF⟩ := by
  have hbits : (0xF0 + n / 0x40000) % 0x08 = n / 0x40000 := by omega
  rw [utf8Start?, if_neg (by omega), if_neg (by omega), if_neg (by omega), if_neg (by omega),
    if_pos (by omega), hbits]

theorem decodeUtf8_cons {b value : Nat} {start : Utf8Start} {bytes rest : List Nat}
    (hstart : utf8Start? b = some start)
    (hcontinue : continueUtf8 start.value start.least start.greatest start.more bytes
      = (some value, rest)) :
    decodeUtf8 (b :: bytes) = Char.ofNat value :: decodeUtf8 rest := by
  rw [decodeUtf8, hstart]
  dsimp only
  rw [hcontinue]
  rfl

/-- Every sequence of bytes stands for something. -/
theorem decodeUtf8_eq_nil_iff {bytes : List Nat} : decodeUtf8 bytes = [] ↔ bytes = [] := by
  constructor
  · intro h
    cases bytes with
    | nil => rfl
    | cons b rest =>
      rw [decodeUtf8] at h
      split at h <;> exact absurd h (List.cons_ne_nil _ _)
  · rintro rfl
    rw [decodeUtf8]

/-- A character comes back from its bytes. -/
theorem decodeUtf8_append (c : Char) (bytes : List Nat) :
    decodeUtf8 (utf8Bytes [c] ++ bytes) = c :: decodeUtf8 bytes := by
  have hvalid : c.toNat < 0xD800 ∨ 0xDFFF < c.toNat ∧ c.toNat < 0x110000 := c.valid
  have hchar : Char.ofNat c.toNat = c := Char.ofNat_toNat c
  rw [utf8Bytes_singleton]
  generalize c.toNat = n at hvalid hchar
  subst hchar
  by_cases hone : n < 0x80
  · rw [if_pos hone]
    exact decodeUtf8_cons (utf8Start?_one hone) rfl
  rw [if_neg hone]
  by_cases htwo : n < 0x800
  · have hvalue : n / 0x40 * 0x40 + n % 0x40 = n := by omega
    rw [if_pos htwo, List.cons_append]
    refine decodeUtf8_cons (utf8Start?_two (by omega) htwo) ?_
    dsimp only [List.cons_append, List.nil_append]
    rw [continueUtf8_cons (by omega) (by omega), continueUtf8, hvalue]
  rw [if_neg htwo]
  by_cases hthree : n < 0x10000
  · have hvalue : (n / 0x1000 * 0x40 + n / 0x40 % 0x40) * 0x40 + n % 0x40 = n := by omega
    rw [if_pos hthree, List.cons_append]
    refine decodeUtf8_cons (utf8Start?_three hthree) ?_
    dsimp only [List.cons_append, List.nil_append]
    rw [continueUtf8_cons (by split <;> omega) (by split <;> omega),
      continueUtf8_cons (by omega) (by omega), continueUtf8, hvalue]
  · have hvalue : ((n / 0x40000 * 0x40 + n / 0x1000 % 0x40) * 0x40 + n / 0x40 % 0x40) * 0x40
        + n % 0x40 = n := by omega
    rw [if_neg hthree, List.cons_append]
    refine decodeUtf8_cons (utf8Start?_four (by omega)) ?_
    dsimp only [List.cons_append, List.nil_append]
    rw [continueUtf8_cons (by split <;> omega) (by split <;> omega),
      continueUtf8_cons (by omega) (by omega), continueUtf8_cons (by omega) (by omega), continueUtf8,
      hvalue]

/-- A text comes back from its bytes. -/
theorem decodeUtf8_utf8Bytes (cs : List Char) : decodeUtf8 (utf8Bytes cs) = cs := by
  induction cs with
  | nil => simp [utf8Bytes, decodeUtf8]
  | cons c cs ih => rw [utf8Bytes_cons, decodeUtf8_append, ih]

end MarkupTidy.Text
