import MarkupTidy.Number.DecimalText
import MarkupTidy.Proofs.Text.Search
import MarkupTidy.Proofs.Text.Words

/-! # The characters of written numbers

A written number holds digits, signs, a point, the mark of its exponent, and the letters of what is
no finite number.

* `IsNumberText`: a text of such characters.
* `Binary64.isNumberText_shortest`, `Binary64.isNumberText_general`: the two ways to write a number.
* `Binary64.isNumberText_wholeOr`: a number without a fractional part if it has none. -/

namespace MarkupTidy

open MarkupTidy.Text

/-- A character of a written number. -/
def isNumberChar (c : Char) : Bool :=
  c.isDigit || ['+', '-', '.', 'e', 'i', 'n', 'f', 'a'].contains c

theorem isBlank_of_isDigit {c : Char} (h : c.isDigit = true) : isBlank c = false := by
  have hrange : 48 ≤ c.toNat ∧ c.toNat ≤ 57 := by
    simpa [Char.isDigit, UInt32.le_iff_toNat_le] using h
  have hdigits : ∀ n < 58, 48 ≤ n → isBlank (Char.ofNat n) = false := by decide
  have hblank := hdigits c.toNat (by omega) hrange.1
  rwa [Char.ofNat_toNat] at hblank

theorem isBlank_of_isNumberChar {c : Char} (h : isNumberChar c = true) : isBlank c = false := by
  have hothers : ∀ c ∈ ['+', '-', '.', 'e', 'i', 'n', 'f', 'a'], isBlank c = false := by decide
  rw [isNumberChar, Bool.or_eq_true, List.contains_iff_mem] at h
  obtain h | h := h
  · exact isBlank_of_isDigit h
  · exact hothers c h

/-- The text holds only characters of numbers. -/
def IsNumberText (cs : List Char) : Prop :=
  ∀ c ∈ cs, isNumberChar c = true

namespace IsNumberText

theorem isSolid {cs : List Char} (h : IsNumberText cs) : IsSolid cs :=
  fun c hc => isBlank_of_isNumberChar (h c hc)

theorem append {cs ds : List Char} (hcs : IsNumberText cs) (hds : IsNumberText ds) :
    IsNumberText (cs ++ ds) :=
  List.forall_mem_append.2 ⟨hcs, hds⟩

theorem cons {c : Char} {cs : List Char} (hc : isNumberChar c = true) (hcs : IsNumberText cs) :
    IsNumberText (c :: cs) :=
  List.forall_mem_cons.2 ⟨hc, hcs⟩

theorem sublist {cs ds : List Char} (h : IsNumberText ds) (hsub : cs.Sublist ds) :
    IsNumberText cs :=
  fun c hc => h c (hsub.subset hc)

theorem replicate {c : Char} (hc : isNumberChar c = true) (n : Nat) :
    IsNumberText (List.replicate n c) :=
  fun _ hd => List.eq_of_mem_replicate hd ▸ hc

end IsNumberText

theorem isNumberText_nat (n : Nat) : IsNumberText (Nat.repr n).toList := by
  intro c hc
  rw [Nat.toList_repr] at hc
  have hdigit := Nat.isDigit_of_mem_toDigits (by decide) (by decide) hc
  rw [isNumberChar, hdigit, Bool.true_or]

theorem isNumberText_int (n : Int) : IsNumberText (toString n).toList := by
  cases n with
  | ofNat n => exact isNumberText_nat n
  | negSucc n =>
    have h : toString (Int.negSucc n) = "-" ++ Nat.repr (n + 1) := rfl
    rw [h, String.toList_append]
    exact .cons (by decide) (isNumberText_nat _)

namespace DecimalLayout

theorem isNumberText_exponentText (n : Int) : IsNumberText (exponentText n) := by
  have hdigits := isNumberText_nat n.natAbs
  unfold exponentText
  dsimp only
  refine .cons (by split <;> decide) ?_
  split
  · exact .cons (by decide) hdigits
  · exact hdigits

theorem isNumberText_write (layout : DecimalLayout) {digits : List Char}
    (h : IsNumberText digits) (place : Int) : IsNumberText (layout.write digits place) := by
  have hzero : isNumberChar '0' = true := by decide
  have hpoint : isNumberChar '.' = true := by decide
  unfold write
  split
  · split
    · exact .cons hzero (.cons hpoint (.append (.replicate hzero _) h))
    · split
      · refine .append (.append h (.replicate hzero _)) ?_
        split
        · exact .cons hpoint (.cons hzero (List.forall_mem_nil _))
        · exact List.forall_mem_nil _
      · exact .append (h.sublist (List.take_sublist _ _))
          (.cons hpoint (h.sublist (List.drop_sublist _ _)))
  · cases digits with
    | nil => exact List.forall_mem_nil _
    | cons first rest =>
      have hexponent : isNumberChar 'e' = true := by decide
      obtain ⟨hfirst, hrest⟩ := List.forall_mem_cons.1 h
      refine .append ?_ (.cons hexponent (isNumberText_exponentText _))
      split
      · exact .cons hfirst (List.forall_mem_nil _)
      · exact .cons hfirst (.cons hpoint hrest)

end DecimalLayout

namespace Binary64

theorem isNumberText_digitsAndPlace (decimal : Nat × Int) :
    IsNumberText (digitsAndPlace decimal).1 :=
  isNumberText_nat _

theorem isNumberText_nonFiniteText (x : Binary64) : IsNumberText (nonFiniteText x) := by
  unfold nonFiniteText IsNumberText
  split <;> decide

theorem isNumberText_sign (negative : Bool) : IsNumberText (if negative then ['-'] else []) := by
  unfold IsNumberText
  split <;> decide

theorem isNumberText_shortest (x : Binary64) : IsNumberText (shortest x) := by
  unfold shortest
  split
  · dsimp only
    split
    · refine (isNumberText_sign _).append ?_
      unfold IsNumberText
      decide
    · exact (isNumberText_sign _).append
        (DecimalLayout.isNumberText_write _ (isNumberText_digitsAndPlace _) _)
  · exact isNumberText_nonFiniteText _

theorem isNumberText_general (x : Binary64) : IsNumberText (general x) := by
  unfold general
  split
  · dsimp only
    split
    · refine (isNumberText_sign _).append ?_
      unfold IsNumberText
      decide
    · exact (isNumberText_sign _).append
        (DecimalLayout.isNumberText_write _ (isNumberText_digitsAndPlace _) _)
  · exact isNumberText_nonFiniteText _

theorem isNumberText_wholeOr {other : Binary64 → List Char}
    (h : ∀ x, IsNumberText (other x)) (x : Binary64) : IsNumberText (x.wholeOr other) := by
  unfold wholeOr
  split
  · exact isNumberText_int _
  · exact h x

end Binary64

end MarkupTidy
