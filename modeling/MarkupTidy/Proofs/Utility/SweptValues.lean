import MarkupTidy.Proofs.Utility.GeneratedNames

/-! # Class attributes before and after a sweep

A text is read from left to right: where a class attribute stands at the front it is taken as a
whole, and elsewhere one character is.  A sweep keeps that reading, with every attribute where it was
and in its own quotes, and it keeps every character outside.

* `EditsValues`: two texts are read alike, but for the values of their class attributes.
* `editsValues_iff`: they fall into the same pieces without these values.
* `sweep_editsValues`: a sweep edits values only, and none where it finds no placeholder. -/

namespace MarkupTidy

/-- Two texts are read alike from left to right, but for the values of their class attributes. -/
inductive EditsValues : List Char → List Char → Prop
  /-- Both texts have come to an end. -/
  | nil : EditsValues [] []
  /-- Both begin with a class attribute, in the same quotes. -/
  | classes {cs cs' : List Char} {quote : Char} {value value' after after' : List Char}
      (read : ClassPiece.readAttribute? cs = some (quote, value, after))
      (read' : ClassPiece.readAttribute? cs' = some (quote, value', after'))
      (behind : EditsValues after after') : EditsValues cs cs'
  /-- Neither begins with a class attribute, and both with the same character. -/
  | other {c : Char} {rest rest' : List Char}
      (read : ClassPiece.readAttribute? (c :: rest) = none)
      (read' : ClassPiece.readAttribute? (c :: rest') = none)
      (behind : EditsValues rest rest') : EditsValues (c :: rest) (c :: rest')

namespace ClassPiece

/-- A piece without the value of its class attribute. -/
def emptied : ClassPiece → ClassPiece
  | other c => other c
  | classes q _ => classes q []

theorem emptied_resolve (design : VariableTable) (piece : ClassPiece) :
    (piece.resolve design).emptied = piece.emptied := by
  cases piece <;> rfl

theorem split_eq_nil {cs : List Char} (h : split cs = []) : cs = [] := by
  rw [← join_split cs, h]
  rfl

/-- The front of a text that begins with a single character as a piece. -/
theorem exists_of_split_eq_other {cs : List Char} {c : Char} {pieces : List ClassPiece}
    (h : split cs = other c :: pieces) :
    ∃ rest, cs = c :: rest ∧ readAttribute? (c :: rest) = none ∧ split rest = pieces := by
  cases cs with
  | nil => exact absurd h (by simp [split])
  | cons d rest =>
    cases hread : readAttribute? (d :: rest) with
    | some found =>
      rw [split_of_readAttribute?_eq_some hread] at h
      exact absurd (List.cons.inj h).1 (by simp)
    | none =>
      rw [split_of_readAttribute?_eq_none hread] at h
      obtain ⟨hpiece, hrest⟩ := List.cons.inj h
      obtain rfl := ClassPiece.other.inj hpiece
      exact ⟨rest, rfl, hread, hrest⟩

/-- The front of a text that begins with a class attribute as a piece. -/
theorem exists_of_split_eq_classes {cs : List Char} {q : Char} {value : List Char}
    {pieces : List ClassPiece} (h : split cs = classes q value :: pieces) :
    ∃ after, readAttribute? cs = some (q, value, after) ∧ split after = pieces := by
  cases cs with
  | nil => exact absurd h (by simp [split])
  | cons d rest =>
    cases hread : readAttribute? (d :: rest) with
    | none =>
      rw [split_of_readAttribute?_eq_none hread] at h
      exact absurd (List.cons.inj h).1 (by simp)
    | some found =>
      obtain ⟨q', value', after⟩ := found
      rw [split_of_readAttribute?_eq_some hread] at h
      obtain ⟨hpiece, hrest⟩ := List.cons.inj h
      obtain ⟨rfl, rfl⟩ := ClassPiece.classes.inj hpiece
      exact ⟨after, rfl, hrest⟩

end ClassPiece

open ClassPiece

/-- Texts are read alike if they fall into the same pieces without the values. -/
theorem editsValues_iff {cs cs' : List Char} :
    EditsValues cs cs' ↔ (split cs).map emptied = (split cs').map emptied := by
  constructor
  · intro h
    induction h with
    | nil => rfl
    | classes read read' _ ih =>
      rw [split_of_readAttribute?_eq_some read, split_of_readAttribute?_eq_some read',
        List.map_cons, List.map_cons, ih]
      rfl
    | other read read' _ ih =>
      rw [split_of_readAttribute?_eq_none read, split_of_readAttribute?_eq_none read',
        List.map_cons, List.map_cons, ih]
  · intro h
    fun_induction split cs generalizing cs' with
    | case1 =>
      rw [split_eq_nil (List.map_eq_nil_iff.1 h.symm)]
      exact .nil
    | case2 c rest q value after hread _ ih =>
      obtain ⟨piece', pieces', hsplit, hpiece, hrest⟩ := List.map_eq_cons_iff.1 h.symm
      cases piece' with
      | other d => exact absurd hpiece (by simp [emptied])
      | classes q' value' =>
        obtain ⟨rfl, -⟩ := ClassPiece.classes.inj hpiece
        obtain ⟨after', hread', rfl⟩ := exists_of_split_eq_classes hsplit
        exact .classes hread hread' (ih hrest.symm)
    | case3 c rest hread ih =>
      obtain ⟨piece', pieces', hsplit, hpiece, hrest⟩ := List.map_eq_cons_iff.1 h.symm
      cases piece' with
      | classes q' value' => exact absurd hpiece (by simp [emptied])
      | other d =>
        obtain rfl := ClassPiece.other.inj hpiece
        obtain ⟨rest', rfl, hread', rfl⟩ := exists_of_split_eq_other hsplit
        exact .other hread hread' (ih hrest.symm)

section
variable (design : VariableTable) (table : ClassTable) (code : List Char)

theorem map_emptied_split_sweep :
    (split code).map emptied = (split (sweep design table code).code).map emptied := by
  have hpieces := split_sweep design table code
  rw [← List.forall₂_eq_eq_eq, List.forall₂_map_left_iff, List.forall₂_map_right_iff]
  refine hpieces.imp fun piece piece' hpiece => ?_
  obtain rfl | rfl := hpiece
  · rfl
  · exact (emptied_resolve design piece).symm

/-- A sweep edits nothing but the values of class attributes.  It finds something if one of them
holds a placeholder, and otherwise leaves the text and the table of classes as they are. -/
theorem sweep_editsValues :
    EditsValues code (sweep design table code).code ∧
      ((sweep design table code).found = 0 ↔
        ∀ token ∈ classTokensOf code, Placeholder.read? token = none) ∧
      ((sweep design table code).found = 0 →
        (sweep design table code).code = code ∧ (sweep design table code).table = table) := by
  refine ⟨editsValues_iff.2 (map_emptied_split_sweep design table code),
    found_eq_zero_iff design table code, fun hfound => ?_⟩
  rw [sweep_of_found_eq_zero design table code hfound]
  exact ⟨rfl, rfl⟩

end

/-- A text without placeholders is left. -/
theorem plain_sweep_editsValues :
    (sweep .empty .empty "<p className='a' />".toList).code = "<p className='a' />".toList ∧
      (sweep .empty .empty "<p className='a' />".toList).table = .empty :=
  (sweep_editsValues .empty .empty "<p className='a' />".toList).2.2 (by decide +kernel)

end MarkupTidy
