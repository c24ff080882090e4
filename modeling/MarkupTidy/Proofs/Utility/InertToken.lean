import MarkupTidy.Pass.CssVariables
import MarkupTidy.Proofs.Utility.Tokens
import MarkupTidy.Utility.Gradient
import MarkupTidy.Utility.Shape

/-! # Class tokens that mean nothing to the passes

A token is inert if no step that rebuilds a list of class tokens looks for it.  Each of these steps
filters, maps, replaces or drops; none of them loses an inert token.

* `IsInert`: what no step looks for.
* `IsInert.mem_stripArtifacts`, `IsInert.not_mem_used`, `IsInert.mem_withRadius`,
  `IsInert.tokenChange_eq`, `IsInert.mem_mergeSquare`, `mem_dedupe`: the steps one by one. -/

namespace MarkupTidy

open MarkupTidy.CssVariables

/-- A token that no step looks for: no typeface, no half of a line pair, no text size with a
standard name, no part of a gradient, no corner radius, no placeholder, no border shorthand, no
width, no height (so neither `h-0` nor `h-[0px]`), and nothing that has a standard step. -/
structure IsInert (token : String) : Prop where
  noFont : isFontClass token = false
  noLinePair : token ∉ linePair
  noTextSize : token ∉ textSizes.map Prod.fst
  noDirection : Gradient.directionDegrees? token = none
  noRadial : Gradient.isRadial token = false
  noStop : Gradient.StopToken.read? token = none
  noRadius : isRounded token = false
  noPlaceholder : isPlaceholder token = false
  noBorder : BorderShorthand.read? token.toList = none
  noWidth : tokenStarts "w-" token = false
  noHeight : tokenStarts "h-" token = false
  noStep : optimizeToken token = token

theorem isInert_iff {token : String} :
    IsInert token ↔ isFontClass token = false ∧ token ∉ linePair ∧
      token ∉ textSizes.map Prod.fst ∧ Gradient.directionDegrees? token = none ∧
      Gradient.isRadial token = false ∧ Gradient.StopToken.read? token = none ∧
      isRounded token = false ∧ isPlaceholder token = false ∧
      BorderShorthand.read? token.toList = none ∧ tokenStarts "w-" token = false ∧
      tokenStarts "h-" token = false ∧ optimizeToken token = token := by
  constructor
  · rintro ⟨h₁, h₂, h₃, h₄, h₅, h₆, h₇, h₈, h₉, h₁₀, h₁₁, h₁₂⟩
    exact ⟨h₁, h₂, h₃, h₄, h₅, h₆, h₇, h₈, h₉, h₁₀, h₁₁, h₁₂⟩
  · rintro ⟨h₁, h₂, h₃, h₄, h₅, h₆, h₇, h₈, h₉, h₁₀, h₁₁, h₁₂⟩
    exact ⟨h₁, h₂, h₃, h₄, h₅, h₆, h₇, h₈, h₉, h₁₀, h₁₁, h₁₂⟩

instance (token : String) : Decidable (IsInert token) :=
  decidable_of_iff _ isInert_iff.symm

/-! ### Lists that are filtered -/

theorem mem_dropLinePairs {token : String} (h : token ∉ linePair) {tokens : List String}
    (hmem : token ∈ tokens) : token ∈ dropLinePairs tokens := by
  fun_induction dropLinePairs tokens with
  | case1 => exact hmem
  | case2 t => exact hmem
  | case3 t u rest hpair ih =>
    simp only [Bool.and_eq_true, decide_eq_true_eq] at hpair
    obtain ⟨rfl, rfl⟩ := hpair
    simp only [linePair, List.mem_cons, List.not_mem_nil, or_false, not_or] at h
    simp only [List.mem_cons, h.1, h.2, false_or] at hmem
    exact ih hmem
  | case4 t u rest _ ih =>
    obtain rfl | hmem := List.mem_cons.1 hmem
    · exact List.mem_cons_self
    · exact List.mem_cons_of_mem t (ih hmem)

theorem mem_dedupeFrom {token : String} {seen tokens : List String} :
    token ∈ dedupeFrom seen tokens ↔ token ∈ tokens ∧ token ∉ seen := by
  fun_induction dedupeFrom seen tokens with
  | case1 => simp
  | case2 seen t rest hseen ih =>
    rw [List.contains_iff_mem] at hseen
    rw [ih, List.mem_cons]
    refine and_congr_left fun hnot => (or_iff_right ?_).symm
    rintro rfl
    exact hnot hseen
  | case3 seen t rest hseen ih =>
    rw [List.contains_iff_mem] at hseen
    rw [List.mem_cons, ih, List.mem_cons, List.mem_cons, not_or]
    by_cases ht : token = t
    · subst ht
      simp [hseen]
    · simp [ht]

/-- A list without repetitions has the same members. -/
theorem mem_dedupe {token : String} {tokens : List String} :
    token ∈ dedupe tokens ↔ token ∈ tokens :=
  mem_dedupeFrom.trans (and_iff_left List.not_mem_nil)

/-- Only the token that is replaced can be lost. -/
theorem mem_replaceLast_of_ne {old token : String} (hne : token ≠ old) (new : Option String)
    {tokens : List String} (hmem : token ∈ tokens) : token ∈ replaceLast old new tokens := by
  by_cases hold : old ∈ tokens
  · obtain ⟨before, after, rfl, heq⟩ := replaceLast_of_mem hold new
    rw [heq]
    simp only [List.mem_append, List.mem_cons, hne, false_or] at hmem ⊢
    exact hmem.imp_right .inr
  · rwa [replaceLast_of_not_mem hold]

theorem tokenStarts_append (start step : String) : tokenStarts start (start ++ step) = true := by
  rw [tokenStarts, String.toList_append, Text.startsWith, List.isPrefixOf_iff_prefix]
  exact List.prefix_append ..

/-! ### Steps -/

namespace IsInert

variable {token : String} (h : IsInert token)
include h

theorem mem_stripArtifacts {tokens : List String} (hmem : token ∈ tokens) :
    token ∈ stripArtifacts tokens := by
  refine mem_dropLinePairs h.noLinePair (List.mem_filter.2 ⟨hmem, ?_⟩)
  rw [h.noFont, Bool.not_false]

theorem convertTextSize_eq : convertTextSize token = token := by
  have hlookup : textSizes.lookup token = none := by
    rw [List.lookup_eq_none_iff]
    intro entry hentry
    rw [bne_iff_ne]
    rintro rfl
    exact h.noTextSize (List.mem_map_of_mem hentry)
  rw [convertTextSize, hlookup, Option.getD_none]

/-- The tokens that a gradient stands for are its own. -/
theorem not_mem_used {tokens : List String} {value : String} {used : List String}
    (hfound : Gradient.classify tokens = .found value used) : token ∉ used := by
  have hstops : token ∉ Gradient.usedTokens tokens := by
    intro hmem
    have hstop := (List.mem_filter.1 hmem).2
    rw [h.noStop] at hstop
    exact Bool.false_ne_true hstop
  unfold Gradient.classify at hfound
  dsimp only at hfound
  split at hfound
  · rename_i direction hdirection
    split at hfound
    · exact Gradient.Finding.noConfusion hfound
    · split at hfound
      · exact Gradient.Finding.noConfusion hfound
      · obtain ⟨-, rfl⟩ := Gradient.Finding.found.inj hfound
        have hdegrees := List.find?_some hdirection
        rintro (hmem : token ∈ direction :: _)
        obtain rfl | hmem := List.mem_cons.1 hmem
        · rw [h.noDirection] at hdegrees
          exact Bool.false_ne_true hdegrees
        · exact hstops hmem
  · split at hfound
    · exact Gradient.Finding.noConfusion hfound
    · rename_i radial hradial
      split at hfound
      · exact Gradient.Finding.noConfusion hfound
      · obtain ⟨-, rfl⟩ := Gradient.Finding.found.inj hfound
        have hmark := List.find?_some hradial
        intro hmem
        obtain rfl | hmem := List.mem_cons.1 hmem
        · rw [h.noRadial] at hmark
          exact Bool.false_ne_true hmark
        · exact hstops hmem

theorem mem_withRadius {tokens : List String} (hmem : token ∈ tokens) (radius : String) :
    token ∈ withRadius tokens radius := by
  refine List.mem_append_left _ (List.mem_filter.2 ⟨hmem, ?_⟩)
  rw [h.noRadius, Bool.not_false]

theorem ne_height (step : String) : token ≠ "h-" ++ step := by
  rintro rfl
  have hheight := h.noHeight
  rw [tokenStarts_append] at hheight
  exact Bool.noConfusion hheight

theorem ne_width (step : String) : token ≠ "w-" ++ step := by
  rintro rfl
  have hwidth := h.noWidth
  rw [tokenStarts_append] at hwidth
  exact Bool.noConfusion hwidth

theorem tokenChange_eq (design : VariableTable) : TokenChange.of design token = .plain := by
  have hborder : borderClass? token = none := by
    rw [borderClass?, h.noBorder, Option.map_none]
  have hresolve : resolveToken? design token = none := by
    have hread := h.noPlaceholder
    rw [isPlaceholder, Option.isSome_eq_false_iff, Option.isNone_iff_eq_none] at hread
    rw [resolveToken?, hread, Option.map_none]
  rw [TokenChange.of, hborder]
  dsimp only
  rw [hresolve]

theorem mem_mergeSquare {tokens : List String} (hmem : token ∈ tokens) :
    token ∈ mergeSquare tokens := by
  unfold mergeSquare
  split
  · split
    · exact mem_replaceLast_of_ne (h.ne_height _) none
        (mem_replaceLast_of_ne (h.ne_width _) _ hmem)
    · exact hmem
  · exact hmem

end IsInert

end MarkupTidy
