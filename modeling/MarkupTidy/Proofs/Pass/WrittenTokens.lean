import MarkupTidy.Proofs.Pass.Resolving
import MarkupTidy.Proofs.Utility.ClassTokens
import MarkupTidy.Proofs.Utility.Replacement
import MarkupTidy.Proofs.Utility.SafeTokens

/-! # The form of tokens that the passes write

What takes the place of a class token is a class token again, so that it is read back as it was
written; and unless it is meant to stay it differs from the token whose place it takes.

* `isToken_optimizeToken`, `isToken_mergeSquare`, `isToken_cornerRadius`, `isToken_tokenChange`: what
  is written is a token.
* `isRounded_cornerRadius`: a corner radius is one.
* `CssVariables.tokenChange_of`, `CssVariables.classes_resolveClasses_eq`: what takes the place of the
  tokens of an element.
* `CssVariables.isKept_of_token_eq`: a token that comes out as it went in was meant to stay. -/

namespace MarkupTidy

open MarkupTidy.Markup MarkupTidy.Text

theorem IsToken.append {token token' : String} (h : IsToken token) (h' : IsSolid token'.toList) :
    IsToken (token ++ token') := by
  refine ⟨?_, fun hnil => h.ne_nil ?_⟩
  · rw [String.toList_append]
    exact isSolid_append.2 ⟨h.solid, h'⟩
  · rw [String.toList_append] at hnil
    exact (List.append_eq_nil_iff.1 hnil).1

/-! ### Cleaning and standard steps -/

theorem isToken_of_mem_radiusScale : ∀ radius ∈ radiusScale.map Prod.snd, IsToken radius := by
  decide

theorem isToken_of_mem_spacingScale : ∀ step ∈ spacingScale.map Prod.snd, IsToken step := by
  decide

theorem isToken_of_mem_spacingUtilities : ∀ utility ∈ spacingUtilities, IsToken utility := by
  decide

theorem isToken_optimizeToken {token : String} (h : IsToken token) :
    IsToken (optimizeToken token) := by
  have hyphen : IsToken "-" := by decide
  obtain hkept | hradius | ⟨utility, hutility, step, hstep, heq⟩ := optimizeToken_cases token
  · rwa [hkept]
  · exact isToken_of_mem_radiusScale _ hradius
  · have hname := isToken_of_mem_spacingUtilities utility hutility
    have hvalue := isToken_of_mem_spacingScale step hstep
    obtain heq | heq := heq
    · rw [heq]
      exact (hname.append hyphen.solid).append hvalue.solid
    · rw [heq]
      exact ((hyphen.append hname.solid).append hyphen.solid).append hvalue.solid

theorem isToken_mergeSquare {tokens : List String} (h : ∀ t ∈ tokens, IsToken t) :
    ∀ t ∈ mergeSquare tokens, IsToken t := by
  have hsize : IsToken "size-" := by decide
  intro t ht
  obtain ht | ⟨step, hstep, rfl⟩ := mem_of_mem_mergeSquare ht
  · exact h t ht
  · exact hsize.append (isToken_of_mem_spacingScale step hstep).solid

/-! ### Corner radii -/

theorem dropFinalNewline_isPrefix (cs : List Char) : dropFinalNewline cs <+: cs := by
  unfold dropFinalNewline
  split
  · exact List.dropLast_prefix cs
  · exact List.prefix_refl cs

/-- An arbitrary radius is a radius. -/
theorem isRounded_arbitrary {value : List Char} (h : IsSolid value) :
    isRounded ("rounded-[" ++ String.ofList value ++ "px]") = true := by
  have hcs : ("rounded-[" ++ String.ofList value ++ "px]").toList
      = "rounded".toList ++ '-' :: '[' :: (value ++ "px]".toList) := by
    rw [String.toList_append, String.toList_append, String.toList_ofList (l := value),
      List.append_assoc]
    rfl
  have hline : '\n' ∉ value := fun hmem => absurd (h _ hmem) (by decide)
  have hrest : '\n' ∉ '[' :: (value ++ "px]".toList) := by
    simp [hline]
  have hall : '\n' ∉ "rounded".toList ++ '-' :: '[' :: (value ++ "px]".toList) := by
    simp [hline]
  rw [isRounded, hcs, dropFinalNewline_of_not_mem hall, afterText?_eq_some.2 rfl]
  simpa using hrest

theorem isToken_radiusToken (pixels : Binary64) : IsToken (radiusToken pixels) := by
  unfold radiusToken
  split
  · rename_i radius hlookup
    exact isToken_of_mem_radiusScale radius (mem_of_lookup hlookup)
  · have hopening : IsToken "rounded-[" := by decide
    have hend : IsSolid "px]".toList := by decide
    refine (hopening.append ?_).append hend
    rw [String.toList_ofList]
    exact fun c hc => isBlank_of_isNumberChar
      (Binary64.isNumberText_wholeOr Binary64.isNumberText_general pixels c hc)

theorem isRounded_radiusToken (pixels : Binary64) : isRounded (radiusToken pixels) = true := by
  have hscale : ∀ radius ∈ radiusScale.map Prod.snd, isRounded radius = true := by decide
  unfold radiusToken
  split
  · rename_i radius hlookup
    exact hscale radius (mem_of_lookup hlookup)
  · exact isRounded_arbitrary fun c hc => isBlank_of_isNumberChar
      (Binary64.isNumberText_wholeOr Binary64.isNumberText_general pixels c hc)

theorem isToken_cornerRadius (isCircle : Bool) (width height : Binary64) :
    IsToken (cornerRadius isCircle width height) := by
  unfold cornerRadius
  split
  · exact isToken_radiusToken _
  · decide

/-- The radius that a round shape is given is one that a later visit finds. -/
theorem isRounded_cornerRadius (isCircle : Bool) (width height : Binary64) :
    isRounded (cornerRadius isCircle width height) = true := by
  unfold cornerRadius
  split
  · exact isRounded_radiusToken _
  · decide

/-! ### Resolution -/

theorem isSolid_widthName {width : List Char} (h : BorderShorthand.isWidth width = true) :
    IsSolid (widthName width) := by
  intro c hc
  obtain ⟨d, hd, hc⟩ := List.mem_flatMap.1 hc
  split at hc
  · exact (show ∀ c ∈ ['d', 'o', 't'], isBlank c = false by decide) c hc
  · obtain rfl := List.mem_singleton.1 hc
    obtain hd | hd := mem_of_mem_replaceText hd
    · exact absurd hd List.not_mem_nil
    · obtain hchar | rfl | rfl := ClassTarget.isWidthChar_of_mem h hd
      · rw [BorderShorthand.isWidthChar, Bool.or_eq_true, beq_iff_eq] at hchar
        obtain hdigit | rfl := hchar
        · exact isBlank_of_isDigit hdigit
        · decide
      · decide
      · decide

theorem isToken_borderClass {token : String} {entry : ClassEntry}
    (h : borderClass? token = some entry) : IsToken entry.name := by
  obtain ⟨widths, hread, rfl⟩ := Option.map_eq_some_iff.1 h
  have hwidths := (ClassTarget.isKnown_of_shorthand hread).2
  have hopening : IsToken "border-w-" := by decide
  refine hopening.append ?_
  rw [String.toList_ofList]
  intro c hc
  obtain rfl | ⟨part, hpart, hc⟩ := mem_intercalate hc
  · decide
  · obtain ⟨w, hw, rfl⟩ := List.mem_map.1 hpart
    exact isSolid_widthName (hwidths w hw) c hc

/-- A border shorthand has a bracket where its class has none. -/
theorem name_ne_of_borderClass {token : String} {entry : ClassEntry}
    (h : borderClass? token = some entry) : entry.name ≠ token := by
  obtain ⟨widths, hread, rfl⟩ := Option.map_eq_some_iff.1 h
  simp only [BorderShorthand.read?, Option.bind_eq_bind, Option.bind_eq_some_iff] at hread
  obtain ⟨rest, hrest, -⟩ := hread
  intro heq
  obtain ⟨tail, htoken⟩ := dropFinalNewline_isPrefix token.toList
  rw [afterText?_eq_some.1 hrest, ← heq, String.toList_append] at htoken
  simp at htoken

namespace CssVariables

variable {design : VariableTable} {token : String}

/-- The token that takes the place of a word, and the class that is generated for it. -/
theorem tokenChange_of {w : List Char} (h : borderClass? (String.ofList w) = none) :
    (TokenChange.of design (String.ofList w)).token (String.ofList w)
        = String.ofList (resolvedToken design w) ∧
      TokenChange.entry? (TokenChange.of design (String.ofList w))
        = (resolveToken? design (String.ofList w)).bind Resolution.entry? := by
  unfold TokenChange.of resolvedToken
  rw [h]
  dsimp only
  cases resolveToken? design (String.ofList w) with
  | none => exact ⟨rfl, rfl⟩
  | some r => exact ⟨String.ofList_toList.symm, rfl⟩

/-- A token that is no border shorthand is resolved as the sweep resolves it. -/
theorem tokenChange_eq_resolvedToken (h : borderClass? token = none) :
    (TokenChange.of design token).token token
      = String.ofList (resolvedToken design token.toList) := by
  have hborder : borderClass? (String.ofList token.toList) = none := by
    rwa [String.ofList_toList]
  have hresolved := (@tokenChange_of design token.toList hborder).1
  rwa [String.ofList_toList] at hresolved

/-- What takes the place of a token is a token. -/
theorem isToken_tokenChange (h : IsToken token) :
    IsToken ((TokenChange.of design token).token token) := by
  cases hborder : borderClass? token with
  | none =>
    rw [tokenChange_eq_resolvedToken hborder]
    exact isToken_ofList.2 (isSolid_resolvedToken design h.solid h.ne_nil)
  | some entry =>
    rw [TokenChange.of, hborder]
    exact isToken_borderClass hborder

/-- The class tokens of an element are those that take the place of its tokens. -/
theorem classes_resolveClasses_eq (st : State) (as : Attributes) :
    (resolveClasses design st as).2.classes
      = as.classes.map fun t => (TokenChange.of design t).token t := by
  unfold resolveClasses
  cases hstatic : as.hasStaticClasses with
  | false =>
    rw [if_neg Bool.false_ne_true]
    dsimp only
    rw [Attributes.classes_of_not_static hstatic, List.map_nil]
  | true =>
    rw [if_pos rfl]
    dsimp only
    split
    · rename_i hsame
      exact hsame.symm
    · exact Attributes.classes_setClasses (List.forall_mem_map.2 fun t ht =>
        isToken_tokenChange (Attributes.isToken_of_mem_classes ht))

theorem classes_cleanStyle (counters : Counters) (attributes : Attributes) :
    (cleanStyle counters attributes).2.classes = attributes.classes := by
  unfold cleanStyle
  split
  · rfl
  · split
    · rfl
    · exact Attributes.classes_set_of_ne _ _ (by decide)

/-- A token that comes out as it went in was meant to stay. -/
theorem isKept_of_token_eq (h : IsToken token)
    (heq : (TokenChange.of design token).token token = token) :
    (TokenChange.of design token).IsKept := by
  cases hborder : borderClass? token with
  | none =>
    rw [tokenChange_eq_resolvedToken hborder, ← String.toList_inj, String.toList_ofList,
      resolvedToken_eq_iff design h.line_not_mem, String.ofList_toList] at heq
    rw [TokenChange.of, hborder]
    dsimp only
    split
    · rename_i resolution hresolve
      rw [heq resolution hresolve]
      exact .inr rfl
    · exact .inl rfl
  | some entry =>
    rw [TokenChange.of, hborder] at heq
    exact absurd heq (name_ne_of_borderClass hborder)

end CssVariables

end MarkupTidy
