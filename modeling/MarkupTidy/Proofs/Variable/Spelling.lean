import MarkupTidy.Proofs.Text.Words
import MarkupTidy.Proofs.Variable.Levels
import MarkupTidy.Proofs.Variable.Marks

/-! # Names and references

A variable is declared under one spelling of its name and referred to by another.  Both write the
marks of the name alike and put hyphens for blanks, but one joins the levels of the name without the
blanks around them, and the other takes away escapes and parentheses and lowers the marks together
with the letters.

* `IsBare`: a text in which there is nothing to clean; `isBare_cleanReference`: a cleaned reference;
  `cleanReference_of_isBare`: a reference that is clean but for its two hyphens.
* `cleanReference_of_plain`: a reference without escapes and parentheses is written like a name.
* `mem_customProperty`, `not_mem_cleanReference`: a declaration keeps escapes and parentheses, and a
  reference does not.
* `IsSpelledAlike`: the names that are declared as they are referred to. -/

namespace MarkupTidy.Variable

open MarkupTidy.Text

/-- The marks that a bare name does not have. -/
def cleanedMarks : List Char := ['\\', '/', '(', ')', '.']

/-- A text without blanks, without the marks that are cleaned, and in lower case. -/
structure IsBare (name : List Char) : Prop where
  solid : IsSolid name
  plain : ∀ c ∈ name, c ∉ cleanedMarks
  lower : ∀ c ∈ name, IsLower c

theorem not_mem_cleanedMarks_of_mem_referenceChar {c d : Char} (h : d ∈ referenceChar c) :
    d ∉ cleanedMarks := by
  have hwritten : ∀ d ∈ ['_', '-', 'd', 'o', 't'], d ∉ cleanedMarks := by decide
  unfold referenceChar propertyChar at h
  split at h
  · exact absurd h List.not_mem_nil
  · rename_i hdrop
    split at h
    · exact hwritten d (by simp_all)
    · rename_i hopen
      split at h
      · exact hwritten d (by simp_all)
      · rename_i hslash
        split at h
        · exact hwritten d (List.mem_cons_of_mem _ (List.mem_cons_of_mem _ h))
        · rename_i hdot
          simp only [Bool.or_eq_true, decide_eq_true_eq, not_or] at hdrop
          obtain rfl := List.mem_singleton.1 h
          simp [cleanedMarks, hdrop, hopen, hslash, hdot]

theorem referenceChar_of_not_mem {c : Char} (h : c ∉ cleanedMarks) : referenceChar c = [c] := by
  simp only [cleanedMarks, List.mem_cons, List.not_mem_nil, or_false, not_or] at h
  simp [referenceChar, propertyChar, h]

theorem not_mem_cleanedMarks_of_isLowered {c : Char} (h : IsLowered c) : c ∉ cleanedMarks := by
  have hlow : ∀ m ∈ cleanedMarks, m.toNat < 0x61 := by decide
  intro hmem
  have := hlow c hmem
  have := h.1
  omega

/-- A cleaned reference is a bare name. -/
theorem isBare_cleanReference (reference : List Char) : IsBare (cleanReference reference) := by
  refine ⟨isSolid_cleanReference reference, fun c hc => ?_, fun c hc => isLower_of_mem_lowercase hc⟩
  obtain ⟨hc, -⟩ | hlow := mem_lowercase hc
  · obtain rfl | ⟨hc, -⟩ := mem_hyphenate hc
    · decide
    · obtain ⟨d, -, hd⟩ := List.mem_flatMap.1 (mem_of_mem_trim hc)
      exact not_mem_cleanedMarks_of_mem_referenceChar hd
  · exact not_mem_cleanedMarks_of_isLowered hlow

namespace IsBare

variable {name : List Char} (h : IsBare name)
include h

theorem flatMap_referenceChar : name.flatMap referenceChar = name := by
  rw [List.flatMap_def, List.map_congr_left fun c hc => referenceChar_of_not_mem (h.plain c hc)]
  exact List.flatMap_singleton' name

theorem hyphenate_eq : hyphenate name = name := by
  cases name with
  | nil => rfl
  | cons c rest =>
    have happend := hyphenateFrom_append_of_isSolid h.solid (List.cons_ne_nil c rest) false []
    rw [List.append_nil] at happend
    rw [hyphenate, happend]
    exact List.append_nil _

end IsBare

/-- A bare name behind two hyphens is cleaned to itself. -/
theorem cleanReference_of_isBare {name : List Char} (h : IsBare name) :
    cleanReference ('-' :: '-' :: name) = name := by
  have htrim : trim ('-' :: '-' :: name) = ['-', '-'] ++ name :=
    trim_of_isSolid (isSolid_cons.2 ⟨by decide, isSolid_cons.2 ⟨by decide, h.solid⟩⟩)
  unfold cleanReference
  dsimp only
  rw [htrim, afterText?_eq_some.2 rfl, Option.getD_some, h.flatMap_referenceChar,
    trim_of_isSolid h.solid, h.hyphenate_eq, lowercase_of_isLower h.lower]

/-! ### Declarations and references -/

/-- The number of hyphens in a text whose marks are written. -/
theorem count_spell (cs : List Char) : (spell cs).count '-' = cs.count '-' + cs.count '/' := by
  induction cs with
  | nil => rfl
  | cons c cs ih =>
    have hchar : (propertyChar c).count '-' = [c].count '-' + [c].count '/' := by
      unfold propertyChar
      split
      · rename_i h
        rw [h]
        decide
      · rename_i hs
        split
        · rename_i h
          rw [h]
          decide
        · simp [hs]
    have hsplit : c :: cs = [c] ++ cs := rfl
    rw [spell_cons, List.count_append, ih, hchar, hsplit, List.count_append, List.count_append]
    omega

/-- A name without blanks around it that is declared as it is referred to: it has no escapes and no
parentheses, its levels have no blanks at their ends, and its capital sigmas are final with the dots
spelled out exactly if they are final without. -/
structure IsSpelledAlike (name : List Char) : Prop where
  plain : ∀ c ∈ name, c ∉ ['\\', '(', ')']
  levels : ∀ level ∈ splitOn '/' name, trim level = level
  sigmas : ∀ before after, name = before ++ capitalSigma :: after →
    isFinalSigma before.reverse after = isFinalSigma (spell before).reverse (spell after)

theorem customProperty_eq (name : List Char) : customProperty name
    = '-' :: '-' :: spell (hyphenate (lowercase (tightenSlashes (trim name)))) :=
  rfl

theorem trim_spell (cs : List Char) : trim (spell cs) = spell (trim cs) := by
  have hblank : ∀ {l : List Char}, (∀ c ∈ l, isBlank c = true) → spell l = l := by
    intro l hl
    induction l with
    | nil => rfl
    | cons c l ih =>
      obtain ⟨hc, hl⟩ := List.forall_mem_cons.1 hl
      rw [spell_cons, propertyChar_of_isBlank hc, ih hl]
      rfl
  have hsolid : ∀ {c : Char}, isBlank c = false → IsSolid (propertyChar c) ∧ propertyChar c ≠ [] := by
    intro c hc
    have := isImage_propertyChar c
    rwa [IsImage, if_neg (by simp [hc])] at this
  obtain ⟨l, r, heq, hl, hr⟩ := exists_trim cs
  conv => lhs; rw [heq, spell_append, spell_append, hblank hl, hblank hr]
  rw [trim_append_right hr, trim_append_left hl]
  by_cases hnil : trim cs = []
  · rw [hnil]
    rfl
  · obtain ⟨c, tail, hc, hcs⟩ := beginsSolid_trim hnil
    obtain ⟨front, d, hd, hds⟩ := endsSolid_trim hnil
    refine trim_of_solid_ends ?_ ?_
    · rw [hc, spell_cons]
      exact ((hsolid hcs).1.beginsSolid (hsolid hcs).2).append _
    · rw [hd, spell_append, spell_cons]
      simpa [spell] using ((hsolid hds).1.endsSolid (hsolid hds).2).append (spell front)

/-- Without escapes and parentheses, a reference is written like a name. -/
theorem cleanReference_of_plain {name : List Char} (h : ∀ c ∈ trim name, c ∉ ['\\', '(', ')']) :
    cleanReference ('-' :: '-' :: name) = lowercase (hyphenate (spell (trim name))) := by
  have htrim : trim ('-' :: '-' :: name) = ['-', '-'] ++ trimRight name := by
    rw [trim, trimLeft_cons_of_solid (by decide)]
    exact trimRight_append_cons (by decide) ['-'] name
  have hplain : ∀ {cs : List Char}, (∀ c ∈ cs, c ∉ ['\\', '(', ')']) →
      cs.flatMap referenceChar = spell cs := by
    intro cs hcs
    rw [spell, List.flatMap_def, List.flatMap_def]
    refine congrArg List.flatten (List.map_congr_left fun c hc => ?_)
    have := hcs c hc
    simp only [List.mem_cons, List.not_mem_nil, or_false, not_or] at this
    simp [referenceChar, propertyChar, this]
  have hright : ∀ c ∈ trimRight name, c ∉ ['\\', '(', ')'] := by
    intro c hc hmem
    refine h c ?_ hmem
    rw [← trim_trimRight]
    refine mem_trim_of_mem hc ?_
    revert hmem
    simp only [List.mem_cons, List.not_mem_nil, or_false]
    rintro (rfl | rfl | rfl) <;> decide
  unfold cleanReference
  dsimp only
  rw [htrim, afterText?_eq_some.2 rfl, Option.getD_some, hplain hright, trim_spell, trim_trimRight]

/-- Escapes and parentheses stay in a custom property. -/
theorem mem_customProperty {name : List Char} {c : Char} (hc : c ∈ ['\\', '(', ')'])
    (h : c ∈ trim name) : c ∈ customProperty name := by
  have hchar : ∀ c ∈ ['\\', '(', ')'], isBlank c = false ∧ lowerChar c = [c] ∧ c ≠ '/' ∧ c ≠ '.' ∧
      c.toNat < 0x61 := by
    decide
  obtain ⟨hsolid, hlower, hslash, hdot, hlow⟩ := hchar c hc
  have hlevel : c ∈ tightenSlashes (trim name) := by
    rw [tightenSlashes_trim]
    obtain rfl | ⟨level, hlevel, hc⟩ := mem_splitOn '/' h
    · exact absurd rfl hslash
    · exact mem_intercalate_of_mem '/' (List.mem_map_of_mem hlevel) (mem_trim_of_mem hc hsolid)
  have hlowered : c ∈ lowercase (tightenSlashes (trim name)) := by
    rw [← List.count_pos_iff, count_lowercase hlow hlower, List.count_pos_iff]
    exact hlevel
  rw [customProperty_eq, ← hyphenate_spell]
  have hspelled : c ∈ spell (lowercase (tightenSlashes (trim name))) :=
    List.mem_flatMap.2 ⟨c, hlowered, by simp [propertyChar_of_ne hslash hdot]⟩
  exact List.mem_cons_of_mem _ (List.mem_cons_of_mem _ (mem_hyphenate_of_mem hsolid hspelled))

/-- A reference is cleaned of escapes and parentheses. -/
theorem not_mem_cleanReference {reference : List Char} {c : Char} (hc : c ∈ ['\\', '(', ')']) :
    c ∉ cleanReference reference := by
  have hmarks : ∀ m ∈ ['\\', '(', ')'], m ∈ cleanedMarks := by decide
  exact fun h => (isBare_cleanReference reference).plain c h (hmarks c hc)

/-- A variable is declared under the property that its name refers to exactly if, without the blanks
around it, the name is spelled alike both times. -/
theorem customProperty_eq_iff (name : List Char) :
    customProperty name = '-' :: '-' :: cleanReference ('-' :: '-' :: name) ↔
      IsSpelledAlike (trim name) := by
  by_cases hplain : ∀ c ∈ trim name, c ∉ ['\\', '(', ')']
  · rw [cleanReference_of_plain hplain, customProperty_eq, List.cons.injEq, List.cons.injEq]
    simp only [true_and]
    have hsigmas := hyphenate_spell_lowerFrom_eq_iff false [] [] (trim name)
    simp only [List.append_nil] at hsigmas
    constructor
    · intro heq
      have hlevels : ∀ level ∈ splitOn '/' (trim name), trim level = level := by
        refine (hyphens_intercalate_trim _).2 ?_
        rw [intercalate_splitOn, ← tightenSlashes_trim]
        have hcount := congrArg (List.count '-') heq
        rwa [count_spell, ← lowercase_hyphenate, count_lowercase (by decide) (by decide),
          count_lowercase (by decide) (by decide),
          count_lowercase (by decide) (by decide), hyphenate_spell, count_spell] at hcount
      rw [tightenSlashes_eq hlevels, ← hyphenate_spell, lowercase_hyphenate] at heq
      exact ⟨hplain, hlevels, hsigmas.1 heq⟩
    · intro h
      rw [tightenSlashes_eq h.levels, ← hyphenate_spell, lowercase_hyphenate]
      exact hsigmas.2 h.sigmas
  · refine iff_of_false (fun heq => ?_) fun h => hplain h.plain
    simp only [Classical.not_forall, Decidable.not_not] at hplain
    obtain ⟨c, hmem, hc⟩ := hplain
    have hhyphen : c ≠ '-' := by
      rintro rfl
      exact absurd hc (by decide)
    have hproperty := mem_customProperty hc hmem
    rw [heq] at hproperty
    exact not_mem_cleanReference hc (((List.mem_cons.1
      ((List.mem_cons.1 hproperty).resolve_left hhyphen)).resolve_left hhyphen))

/-- Parentheses are part of a declaration, and no part of a reference. -/
theorem parenthesis_not_spelled_alike :
    '\\' ∉ "Size (px)".toList ∧ customProperty "Size (px)".toList
      ≠ '-' :: '-' :: cleanReference ('-' :: '-' :: "Size (px)".toList) := by
  decide

end MarkupTidy.Variable
