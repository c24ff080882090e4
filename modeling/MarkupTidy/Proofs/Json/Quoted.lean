import MarkupTidy.Json.Quoted
import MarkupTidy.Proofs.Markup.Closed

/-! # Quoted texts in source

A text in double quotes, as it is written into source, is one literal: quotes, backslashes and line
feeds in it are escaped.

* `IsLiteralPart`: a text that a reader inside a literal gets over.
* `isPassedOver_quoted`: a quoted text is closed source.
* `flatMap_writeChar_eq_iff`: a text is written as it is exactly if nothing in it is escaped. -/

namespace MarkupTidy.Json

open MarkupTidy.Markup

/-- A reader inside a literal in double quotes gets over the text. -/
def IsLiteralPart (cs : List Char) : Prop :=
  ∀ rest, Verbatim.literalRest? '"' false (cs ++ rest) =
    (Verbatim.literalRest? '"' false rest).map fun (passage, after) => (cs ++ passage, after)

namespace IsLiteralPart

theorem nil : IsLiteralPart [] := fun rest => by simp

theorem append {x y : List Char} (hx : IsLiteralPart x) (hy : IsLiteralPart y) :
    IsLiteralPart (x ++ y) := by
  intro rest
  rw [List.append_assoc, hx, hy, Option.map_map]
  simp [Function.comp_def]

/-- A character behind a backslash. -/
theorem escape (c : Char) : IsLiteralPart ['\\', c] := by
  intro rest
  rw [List.cons_append, List.cons_append, List.nil_append, Verbatim.literalRest?]
  rfl

theorem plain {c : Char} (h : c ∉ ['"', '\\', '\n']) : IsLiteralPart [c] := by
  simp only [List.mem_cons, List.not_mem_nil, or_false, not_or] at h
  obtain ⟨hquote, hslash, hline⟩ := h
  intro rest
  rw [List.singleton_append, Verbatim.literalRest?, if_neg hquote, if_neg (by simp [hslash, hline])]
  · rfl
  · rintro _ _ rfl
    exact absurd rfl hslash

theorem cons {c : Char} {cs : List Char} (hc : c ∉ ['"', '\\', '\n']) (h : IsLiteralPart cs) :
    IsLiteralPart (c :: cs) :=
  (plain hc).append h

end IsLiteralPart

/-- A character is written behind a backslash, as one code unit or two, or as it is. -/
theorem writeChar_cases (asciiOnly : Bool) (c : Char) :
    (∃ d ∈ ['"', '\\', 'n', 'r', 't', 'f', 'b'], writeChar asciiOnly c = ['\\', d]) ∨
      (∃ n, writeChar asciiOnly c = unitEscape n) ∨
      (∃ m n, writeChar asciiOnly c = unitEscape m ++ unitEscape n) ∨
      c ∉ ['"', '\\', '\n'] ∧ writeChar asciiOnly c = [c] := by
  generalize hw : writeChar asciiOnly c = w
  unfold writeChar at hw
  split at hw
  · exact Or.inl ⟨'"', by decide, hw.symm⟩
  rename_i hquote
  split at hw
  · exact Or.inl ⟨'\\', by decide, hw.symm⟩
  rename_i hslash
  split at hw
  · exact Or.inl ⟨'n', by decide, hw.symm⟩
  rename_i hline
  split at hw
  · exact Or.inl ⟨'r', by decide, hw.symm⟩
  split at hw
  · exact Or.inl ⟨'t', by decide, hw.symm⟩
  split at hw
  · exact Or.inl ⟨'f', by decide, hw.symm⟩
  split at hw
  · exact Or.inl ⟨'b', by decide, hw.symm⟩
  refine Or.inr ?_
  split at hw
  · exact Or.inl ⟨_, hw.symm⟩
  split at hw
  · unfold codePointEscape at hw
    split at hw
    · exact Or.inl ⟨_, hw.symm⟩
    · exact Or.inr (Or.inl ⟨_, _, hw.symm⟩)
  · exact Or.inr (Or.inr ⟨by simp [hquote, hslash, hline], hw.symm⟩)

theorem isLiteralPart_unitEscape (n : Nat) : IsLiteralPart (unitEscape n) := by
  have hdigits : ∀ d < 16, hexDigit d ∉ ['"', '\\', '\n'] := by decide
  have hdigit : ∀ n, hexDigit (n % 16) ∉ ['"', '\\', '\n'] := fun n =>
    hdigits _ (Nat.mod_lt n (by decide))
  exact (IsLiteralPart.escape 'u').append (.cons (hdigit _) (.cons (hdigit _) (.cons (hdigit _)
    (.plain (hdigit _)))))

theorem isLiteralPart_flatMap_writeChar (asciiOnly : Bool) (cs : List Char) :
    IsLiteralPart (cs.flatMap (writeChar asciiOnly)) := by
  induction cs with
  | nil => exact .nil
  | cons c cs ih =>
    refine IsLiteralPart.append ?_ ih
    obtain ⟨d, -, h⟩ | ⟨n, h⟩ | ⟨m, n, h⟩ | ⟨hc, h⟩ := writeChar_cases asciiOnly c
    · exact h ▸ .escape d
    · exact h ▸ isLiteralPart_unitEscape n
    · exact h ▸ (isLiteralPart_unitEscape m).append (isLiteralPart_unitEscape n)
    · exact h ▸ .plain hc

/-- A quoted text is got over as one literal. -/
theorem isPassedOver_quoted (asciiOnly : Bool) (cs : List Char) :
    IsPassedOver (quoted asciiOnly cs) := by
  intro depth before following _ hstop
  have hread : Verbatim.read? before (quoted asciiOnly cs ++ following) =
      some (quoted asciiOnly cs, following) := by
    rw [quoted, List.cons_append, Verbatim.read?_quote rfl, List.append_assoc,
      show ('"' == '\x60') = false from rfl, isLiteralPart_flatMap_writeChar]
    simp [Verbatim.literalRest?]
  rw [readExpressionFrom_verbatim hread,
    readExpressionFrom_eq_of_read? (Verbatim.read?_eq_of_stops _ none hstop)]

/-! ### Characters that are written as they are -/

theorem length_le_flatMap {f : Char → List Char} (hf : ∀ c, f c = [c] ∨ 2 ≤ (f c).length) (cs : List Char) :
    cs.length ≤ (cs.flatMap f).length := by
  induction cs with
  | nil => exact Nat.le_refl 0
  | cons c cs ih =>
    rw [List.flatMap_cons, List.length_append, List.length_cons]
    obtain h | h := hf c
    · rw [h, List.length_singleton]
      omega
    · omega

/-- A text is kept exactly if each of its characters is. -/
theorem flatMap_eq_self_iff {f : Char → List Char} (hf : ∀ c, f c = [c] ∨ 2 ≤ (f c).length)
    {cs : List Char} : cs.flatMap f = cs ↔ ∀ c ∈ cs, f c = [c] := by
  induction cs with
  | nil => simp
  | cons c cs ih =>
    rw [List.flatMap_cons, List.forall_mem_cons, ← ih]
    constructor
    · intro h
      obtain hc | hc := hf c
      · rw [hc] at h
        exact ⟨hc, (List.cons.inj h).2⟩
      · have hlength := congrArg List.length h
        have hle := length_le_flatMap hf cs
        rw [List.length_append, List.length_cons] at hlength
        omega
    · rintro ⟨hc, hcs⟩
      rw [hc, hcs]
      rfl

theorem writeChar_eq_or (asciiOnly : Bool) (c : Char) :
    writeChar asciiOnly c = [c] ∨ 2 ≤ (writeChar asciiOnly c).length := by
  obtain ⟨d, -, h⟩ | ⟨n, h⟩ | ⟨m, n, h⟩ | ⟨-, h⟩ := writeChar_cases asciiOnly c
  · exact .inr (by rw [h]; exact Nat.le_refl 2)
  · exact .inr (by rw [h]; exact Nat.le_add_left 2 4)
  · exact .inr (by rw [h]; exact Nat.le_add_left 2 10)
  · exact .inl h

theorem writeChar_eq_singleton_iff (asciiOnly : Bool) (c : Char) :
    writeChar asciiOnly c = [c] ↔
      0x20 ≤ c.toNat ∧ c ≠ '"' ∧ c ≠ '\\' ∧ (asciiOnly = true → c.toNat < 0x7F) := by
  have hlong {cs : List Char} {P : Prop} (hcs : 2 ≤ cs.length) (hP : ¬P) : cs = [c] ↔ P := by
    refine iff_of_false ?_ hP
    rintro rfl
    exact absurd hcs (by simp)
  have hcontrol (h : c.toNat < 0x20) : ¬(0x20 ≤ c.toNat ∧ c ≠ '"' ∧ c ≠ '\\' ∧
      (asciiOnly = true → c.toNat < 0x7F)) := fun hplain => Nat.not_lt.2 hplain.1 h
  unfold writeChar
  split
  · rename_i h
    exact hlong (Nat.le_refl 2) fun hplain => hplain.2.1 h
  rename_i hquote
  split
  · rename_i h
    exact hlong (Nat.le_refl 2) fun hplain => hplain.2.2.1 h
  rename_i hslash
  split
  · rename_i h
    exact hlong (Nat.le_refl 2) (hcontrol (by rw [h]; decide))
  split
  · rename_i h
    exact hlong (Nat.le_refl 2) (hcontrol (by rw [h]; decide))
  split
  · rename_i h
    exact hlong (Nat.le_refl 2) (hcontrol (by rw [h]; decide))
  split
  · exact hlong (Nat.le_refl 2) (hcontrol (by omega))
  split
  · exact hlong (Nat.le_refl 2) (hcontrol (by omega))
  split
  · rename_i h
    exact hlong (Nat.le_add_left 2 4) (hcontrol h)
  rename_i hprintable
  split
  · rename_i h
    obtain ⟨hascii, hcode⟩ := Bool.and_eq_true_iff.1 h
    refine hlong ?_ fun hplain => Nat.not_lt.2 (of_decide_eq_true hcode) (hplain.2.2.2 hascii)
    unfold codePointEscape
    split
    · exact Nat.le_add_left 2 4
    · exact Nat.le_add_left 2 10
  · rename_i h
    refine iff_of_true rfl ⟨by omega, hquote, hslash, fun hascii => ?_⟩
    simpa [hascii] using h

/-- Nothing in the text is escaped when it is quoted. -/
def IsUnescaped (asciiOnly : Bool) (cs : List Char) : Prop :=
  ∀ c ∈ cs, 0x20 ≤ c.toNat ∧ c ≠ '"' ∧ c ≠ '\\' ∧ (asciiOnly = true → c.toNat < 0x7F)

instance (asciiOnly : Bool) (cs : List Char) : Decidable (IsUnescaped asciiOnly cs) :=
  inferInstanceAs (Decidable (∀ c ∈ cs, _))

theorem flatMap_writeChar_eq_iff {asciiOnly : Bool} {cs : List Char} :
    cs.flatMap (writeChar asciiOnly) = cs ↔ IsUnescaped asciiOnly cs := by
  simp only [flatMap_eq_self_iff (writeChar_eq_or asciiOnly), writeChar_eq_singleton_iff, IsUnescaped]

end MarkupTidy.Json
