import MarkupTidy.Proofs.Markup.Tag
import MarkupTidy.Proofs.Number.DecimalText
import MarkupTidy.Proofs.Utility.ClassFree
import MarkupTidy.Utility.FontClass

/-! # Styles as source

An inline style is written as an object literal, and a style expression with a typeface beneath it
as an object literal that spreads the expression.  Both are closed source if their parts are.

* `Style.IsSafe`: the parts of a style that are kept as they were written are closed, and no class
  attribute begins in the others.
* `Style.isSweepable_print`: the object literal of a safe style.
* `isSweepable_layerStyle`: a style expression with another style beneath it. -/

namespace MarkupTidy

open MarkupTidy.Markup MarkupTidy.Text

/-- No class attribute begins in the text, also when it is written in quotes. -/
structure IsStyleText (cs : List Char) : Prop where
  holdsNoClasses : HoldsNoClasses cs
  noSeparator : fileSeparator ∉ cs

/-- A value that is written as source that is closed, also after a sweep. -/
def StyleValue.IsSafe (design : VariableTable) : StyleValue → Prop
  | .text value => IsStyleText value.toList
  | .raw source => IsSweepable design source.toList
  | .int _ => True
  | .float _ => True
  | .truth _ => True

/-- All names and values of the style are written as closed source, also after a sweep. -/
def Style.IsSafe (design : VariableTable) (s : Style) : Prop :=
  ∀ entry ∈ s.entries, HoldsNoClasses (Style.printKey entry.1) ∧ entry.2.IsSafe design

/-! ### Texts of styles -/

namespace IsStyleText

variable {x y : List Char}

theorem of_isInfix (h : IsStyleText y) (hpart : x <:+: y) : IsStyleText x :=
  ⟨h.holdsNoClasses.of_isInfix hpart, fun hc => h.noSeparator (hpart.subset hc)⟩

theorem of_not_mem (h : '=' ∉ x) (hseparator : fileSeparator ∉ x) : IsStyleText x :=
  ⟨holdsNoClasses_of_not_mem (c := '=') rfl h, hseparator⟩

theorem parted {c : Char} (hx : IsStyleText x) (hc : isOpeningChar c = false)
    (hseparator : c ≠ fileSeparator) (hy : IsStyleText y) : IsStyleText (x ++ c :: y) := by
  refine ⟨hx.holdsNoClasses.parted hc hy.holdsNoClasses, ?_⟩
  rw [List.mem_append, List.mem_cons]
  rintro (hmem | rfl | hmem)
  · exact hx.noSeparator hmem
  · exact hseparator rfl
  · exact hy.noSeparator hmem

theorem nil : IsStyleText [] :=
  .of_not_mem List.not_mem_nil List.not_mem_nil

theorem intercalate {parts : List (List Char)} (h : ∀ part ∈ parts, IsStyleText part) :
    IsStyleText (List.intercalate [',', ' '] parts) := by
  induction parts with
  | nil => exact nil
  | cons part rest ih =>
    obtain ⟨hpart, hrest⟩ := List.forall_mem_cons.1 h
    cases rest with
    | nil => simpa using hpart
    | cons next rest =>
      have hspace := nil.parted (c := ' ') rfl (by decide) (ih hrest)
      rw [List.intercalate_cons_cons, List.append_assoc]
      exact hpart.parted (c := ',') rfl (by decide) hspace

theorem map_lowLine (hx : IsStyleText x) :
    IsStyleText (x.map fun c => if c = '_' then ' ' else c) := by
  refine ⟨hx.holdsNoClasses.map_lowLine, fun hmem => ?_⟩
  obtain ⟨c, hc, heq⟩ := List.mem_map.1 hmem
  split at heq
  · exact absurd heq (by decide)
  · exact hx.noSeparator (heq ▸ hc)

theorem normalizeReferences (hx : IsStyleText x) : IsStyleText (normalizeReferences x) := by
  refine ⟨holdsNoClasses_normalizeReferences hx.holdsNoClasses, fun hmem => ?_⟩
  exact (mem_normalizeReferences hmem).elim hx.noSeparator (absurd · (by decide))

end IsStyleText

section
variable {design : VariableTable}

/-! ### Parts of a style -/

/-- The characters of numbers are plain. -/
theorem isSweepable_of_isNumberText {cs : List Char} (h : IsNumberText cs) :
    IsSweepable design cs := by
  refine .of_plain fun c hc => ⟨.of_class (h c hc) (by decide), ?_⟩
  rintro rfl
  exact absurd (h _ hc) (by decide)

theorem StyleValue.isSweepable_print {value : StyleValue} (h : value.IsSafe design) :
    IsSweepable design value.print := by
  cases value with
  | text value =>
    exact .of_holdsNoClasses (Json.isPassedOver_quoted false _) 
      (holdsNoClasses_quoted h.noSeparator h.holdsNoClasses)
  | int value => exact isSweepable_of_isNumberText (isNumberText_int value)
  | float value =>
    exact isSweepable_of_isNumberText
      (Binary64.isNumberText_wholeOr Binary64.isNumberText_shortest value)
  | truth value => cases value <;> exact .of_plain (by decide)
  | raw source => exact h

theorem isPlainChar_of_isIdentifier {cs : List Char} (h : isIdentifier cs = true) :
    ∀ c ∈ cs, IsPlainChar c := by
  cases cs with
  | nil => exact List.forall_mem_nil _
  | cons c rest =>
    simp only [isIdentifier, Bool.and_eq_true, List.all_eq_true] at h
    exact List.forall_mem_cons.2 ⟨.of_class h.1 (by decide),
      fun d hd => .of_class (h.2 d hd) (by decide)⟩

/-- A property name is closed source, whether it is written as an identifier or quoted. -/
theorem Style.isPassedOver_printKey (key : String) : IsPassedOver (Style.printKey key) := by
  unfold Style.printKey
  split
  · rename_i hidentifier
    refine isPassedOver_of_plain fun c hc => ?_
    obtain hc | rfl := mem_dropFinalNewline hc
    · exact isPlainChar_of_isIdentifier hidentifier c hc
    · decide
  · exact Json.isPassedOver_quoted true _

theorem Style.isSweepable_printEntry {entry : String × StyleValue}
    (hkey : HoldsNoClasses (Style.printKey entry.1)) (hvalue : entry.2.IsSafe design) :
    IsSweepable design (Style.printEntry entry) := by
  have hvalue' : IsSweepable design (' ' :: entry.2.print) :=
    (StyleValue.isSweepable_print hvalue).cons (by decide) (by decide) rfl
  have hcolon : IsSweepable design ([':'] ++ ' ' :: entry.2.print) :=
    IsSweepable.append (.of_plain (by decide)) rfl hvalue'
  exact (IsSweepable.of_holdsNoClasses (Style.isPassedOver_printKey entry.1) hkey).append rfl hcolon

theorem Style.isSweepable_entries {entries : List (String × StyleValue)} (hne : entries ≠ [])
    (h : ∀ entry ∈ entries, HoldsNoClasses (Style.printKey entry.1) ∧ entry.2.IsSafe design) :
    IsSweepable design (List.intercalate [',', ' '] (entries.map Style.printEntry)) := by
  induction entries with
  | nil => exact absurd rfl hne
  | cons entry rest ih =>
    obtain ⟨hentry, hrest⟩ := List.forall_mem_cons.1 h
    have hfirst := Style.isSweepable_printEntry hentry.1 hentry.2
    cases rest with
    | nil => simpa using hfirst
    | cons next rest =>
      have hspace := (ih (List.cons_ne_nil _ _) hrest).cons (c := ' ') (by decide) (by decide) rfl
      have hcomma := hspace.cons (c := ',') (by decide) (by decide) rfl
      have happ := hfirst.append rfl hcomma
      rw [List.map_cons, List.map_cons, List.intercalate_cons_cons]
      simpa using happ

/-! ### Styles -/

/-- The object literal of a safe style is closed, also after a sweep. -/
theorem Style.isSweepable_print {s : Style} (h : s.IsSafe design) : IsSweepable design s.print := by
  unfold Style.print
  split
  · exact IsSweepable.braced (y := []) (.of_plain (List.forall_mem_nil _))
  · rename_i hempty
    have hentries := Style.isSweepable_entries (fun hnil => hempty (by rw [hnil]; rfl)) h
    have hspace : IsSweepable design [' '] := .of_plain (by decide)
    have hinner := (hentries.append (c := ' ') (y := []) rfl hspace).cons (c := ' ') (by decide)
      (by decide) rfl
    simpa [braced] using hinner.braced

theorem layerStyle_eq {source : List Char} {s : Style} (hne : s.entries ≠ []) :
    layerStyle source s = braced (' ' :: (List.intercalate [',', ' ']
      (s.entries.map Style.printEntry) ++ ',' :: ' ' :: '.' :: '.' :: '.' :: (trim source ++ [' ']))) := by
  have hempty : ¬s.entries.isEmpty = true := by rwa [List.isEmpty_iff]
  have htake : s.print.take (s.print.length - 2) = '\x7b' :: ' ' ::
      List.intercalate [',', ' '] (s.entries.map Style.printEntry) := by
    rw [Style.print, if_neg hempty]
    generalize List.intercalate [',', ' '] (s.entries.map Style.printEntry) = entries
    simp
  rw [layerStyle, htake]
  simp [braced]

/-- A style expression with another style beneath it is closed, also after a sweep. -/
theorem isSweepable_layerStyle {source : List Char} {s : Style} (hne : s.entries ≠ [])
    (hs : s.IsSafe design) (hsource : IsSweepable design (trim source)) :
    IsSweepable design (layerStyle source s) := by
  have hdots : IsSweepable design ([',', ' ', '.', '.'] ++ '.' :: (trim source ++ [' '])) := by
    refine IsSweepable.append (.of_plain (by decide)) rfl (.cons (by decide) (by decide) rfl ?_)
    exact hsource.append rfl (.of_plain (by decide))
  have hentries := Style.isSweepable_entries hne hs
  rw [layerStyle_eq hne]
  exact ((hentries.append rfl hdots).cons (by decide) (by decide) rfl).braced

theorem trim_braced (source : List Char) : trim (braced source) = braced source := by
  have hleft : trimLeft (braced source) = braced source :=
    trimLeft_of_stops (stops_cons (by decide))
  have hreverse : (braced source).reverse = '\x7d' :: (source.reverse ++ ['\x7b']) := by
    simp [braced]
  have hblank : isBlank '\x7d' = false := by decide
  rw [trim, hleft, trimRight, hreverse, List.dropWhile_cons, hblank, ← hreverse]
  exact List.reverse_reverse _

theorem trim_layerStyle {source : List Char} {s : Style} (hne : s.entries ≠ []) :
    trim (layerStyle source s) = layerStyle source s := by
  rw [layerStyle_eq hne, trim_braced]

end

end MarkupTidy
