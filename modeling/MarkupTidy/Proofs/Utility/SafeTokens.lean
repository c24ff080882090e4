import MarkupTidy.Pass.CssVariables
import MarkupTidy.Proofs.Utility.ClassNames
import MarkupTidy.Proofs.Utility.StyleSource
import MarkupTidy.Proofs.Utility.Tokens
import MarkupTidy.Utility.Gradient
import MarkupTidy.Utility.Shape

/-! # Class tokens that can stand in source

A class list can be put in double quotes, and no class attribute begins in it.  The tokens that
passes make of such tokens have the same two properties, and so have the inline styles that they make
of them.

* `IsSafeToken`: the two properties.
* `isSafeToken_optimize`, `isSafeToken_tokenChange`: standard steps, and resolution.
* `FontClass.isSafe_style`: the inline style that stands for a font class.
* `Gradient.isStyleText_classify`: the CSS value of a gradient. -/

namespace MarkupTidy

open MarkupTidy.Markup MarkupTidy.Text MarkupTidy.Variable

/-- The token can stand in double quotes, and no class attribute begins in it. -/
def IsSafeToken (token : String) : Prop :=
  HoldsNoClasses token.toList ∧ '"' ∉ token.toList

/-- The token has no equals signs and no double quotes. -/
def IsPlainToken (token : String) : Prop :=
  ∀ c ∈ token.toList, c ∉ ['=', '"']

instance (token : String) : Decidable (IsPlainToken token) :=
  inferInstanceAs (Decidable (∀ c ∈ token.toList, c ∉ ['=', '"']))

theorem IsPlainToken.isSafeToken {token : String} (h : IsPlainToken token) : IsSafeToken token :=
  ⟨holdsNoClasses_of_not_mem (c := '=') rfl fun hc => h _ hc (by decide),
    fun hc => h _ hc (by decide)⟩

theorem IsPlainToken.append {token token' : String} (h : IsPlainToken token)
    (h' : IsPlainToken token') : IsPlainToken (token ++ token') := by
  unfold IsPlainToken
  rw [String.toList_append]
  exact List.forall_mem_append.2 ⟨h, h'⟩

/-- Safe tokens as one text. -/
theorem isSafeToken_joinTokens {tokens : List String} (h : ∀ t ∈ tokens, IsSafeToken t) :
    IsSafeToken (joinTokens tokens) := by
  refine ⟨holdsNoClasses_joinTokens fun t ht => (h t ht).1, fun hc => ?_⟩
  rw [joinTokens, String.toList_intercalate] at hc
  obtain heq | ⟨part, hpart, hc⟩ := mem_intercalate hc
  · exact absurd heq (by decide)
  · obtain ⟨t, ht, rfl⟩ := List.mem_map.1 hpart
    exact (h t (List.mem_filter.1 ht).1).2 hc

theorem isSafeToken_of_mem_classTokens {value token : String} (h : IsSafeToken value)
    (htoken : token ∈ classTokens value) : IsSafeToken token := by
  refine ⟨holdsNoClasses_of_mem_classTokens h.1 htoken, fun hc => ?_⟩
  obtain ⟨w, hw, rfl⟩ := List.mem_map.1 htoken
  rw [String.toList_ofList] at hc
  exact h.2 ((isInfix_of_mem_words hw).subset hc)

/-! ### Standard steps -/

theorem mem_of_lookup {α : Type} {entries : List (Nat × α)} {x : Binary64} {value : α}
    (h : Binary64.lookup entries x = some value) : value ∈ entries.map Prod.snd := by
  obtain ⟨entry, hentry, rfl⟩ := Option.map_eq_some_iff.1 h
  exact List.mem_map_of_mem (List.mem_of_find?_eq_some hentry)

theorem isPlainToken_of_mem_radiusScale : ∀ token ∈ radiusScale.map Prod.snd, IsPlainToken token := by
  decide

theorem isPlainToken_of_mem_spacingScale : ∀ step ∈ spacingScale.map Prod.snd, IsPlainToken step := by
  decide

theorem isPlainToken_of_mem_spacingUtilities : ∀ utility ∈ spacingUtilities, IsPlainToken utility := by
  decide

/-- A token stays, or becomes a radius of the scale, or a spacing utility with a step of the scale. -/
theorem optimizeToken_cases (token : String) :
    optimizeToken token = token ∨ optimizeToken token ∈ radiusScale.map Prod.snd ∨
      ∃ utility ∈ spacingUtilities, ∃ step ∈ spacingScale.map Prod.snd,
        optimizeToken token = utility ++ "-" ++ step ∨
          optimizeToken token = "-" ++ utility ++ "-" ++ step := by
  unfold optimizeToken
  split
  · exact .inl rfl
  · rename_i utility pixels _
    split
    · cases hlookup : Binary64.lookup radiusScale pixels with
      | none => exact .inl rfl
      | some radius => exact .inr (.inl (mem_of_lookup hlookup))
    · split
      · rename_i hutility
        have hname := List.contains_iff_mem.1 hutility
        split
        · exact .inl rfl
        · rename_i step hlookup
          have hstep := mem_of_lookup hlookup
          split
          · split
            · exact .inr (.inr ⟨utility, hname, step, hstep, .inr rfl⟩)
            · exact .inl rfl
          · exact .inr (.inr ⟨utility, hname, step, hstep, .inl rfl⟩)
      · exact .inl rfl

theorem isSafeToken_optimizeToken {token : String} (h : IsSafeToken token) :
    IsSafeToken (optimizeToken token) := by
  have hyphen : IsPlainToken "-" := by decide
  obtain hkept | hradius | ⟨utility, hutility, step, hstep, heq⟩ := optimizeToken_cases token
  · rwa [hkept]
  · exact (isPlainToken_of_mem_radiusScale _ hradius).isSafeToken
  · have hname := isPlainToken_of_mem_spacingUtilities utility hutility
    have hvalue := isPlainToken_of_mem_spacingScale step hstep
    obtain heq | heq := heq
    · rw [heq]
      exact ((hname.append hyphen).append hvalue).isSafeToken
    · rw [heq]
      exact (((hyphen.append hname).append hyphen).append hvalue).isSafeToken

theorem isSafeToken_mergeSquare {tokens : List String} (h : ∀ t ∈ tokens, IsSafeToken t) :
    ∀ t ∈ mergeSquare tokens, IsSafeToken t := by
  have hsize : IsPlainToken "size-" := by decide
  intro t ht
  obtain ht | ⟨step, hstep, rfl⟩ := mem_of_mem_mergeSquare ht
  · exact h t ht
  · exact (hsize.append (isPlainToken_of_mem_spacingScale step hstep)).isSafeToken

theorem isSafeToken_radiusToken (pixels : Binary64) : IsSafeToken (radiusToken pixels) := by
  unfold radiusToken
  split
  · rename_i token hlookup
    exact (isPlainToken_of_mem_radiusScale token (mem_of_lookup hlookup)).isSafeToken
  · have hnumber : IsPlainToken (String.ofList (pixels.wholeOr Binary64.general)) := by
      intro c hc hmem
      rw [String.toList_ofList] at hc
      have hchar := Binary64.isNumberText_wholeOr Binary64.isNumberText_general pixels c hc
      exact absurd hchar ((show ∀ d ∈ ['=', '"'], ¬isNumberChar d = true by decide) c hmem)
    have hopening : IsPlainToken "rounded-[" := by decide
    have hend : IsPlainToken "px]" := by decide
    exact ((hopening.append hnumber).append hend).isSafeToken

theorem isSafeToken_cornerRadius (isCircle : Bool) (width height : Binary64) :
    IsSafeToken (cornerRadius isCircle width height) := by
  unfold cornerRadius
  split
  · exact isSafeToken_radiusToken _
  · have hhalf : IsPlainToken "rounded-[50%]" := by decide
    exact hhalf.isSafeToken

/-! ### Resolution -/

theorem isPlainToken_widthName {width : List Char} (h : BorderShorthand.isWidth width = true) :
    ∀ c ∈ widthName width, c ∉ ['=', '"'] := by
  intro c hc
  obtain ⟨d, hd, hc⟩ := List.mem_flatMap.1 hc
  split at hc
  · exact (show ∀ c ∈ ['d', 'o', 't'], c ∉ ['=', '"'] by decide) c hc
  · obtain rfl := List.mem_singleton.1 hc
    obtain hd | hd := mem_of_mem_replaceText hd
    · exact absurd hd List.not_mem_nil
    · intro hmem
      have hother : ∀ e ∈ ['=', '"'], BorderShorthand.isWidthChar e = false ∧ e ≠ 'p' ∧ e ≠ 'x' := by
        decide
      obtain ⟨hchar, hp, hx⟩ := hother c hmem
      exact ClassTarget.ne_of_mem_width h hchar hp hx hd rfl

theorem isSafeToken_borderClass {token : String} {entry : ClassEntry}
    (h : borderClass? token = some entry) : IsSafeToken entry.name := by
  obtain ⟨widths, hread, rfl⟩ := Option.map_eq_some_iff.1 h
  have hwidths := (ClassTarget.isKnown_of_shorthand hread).2
  have hopening : IsPlainToken "border-w-" := by decide
  refine (hopening.append fun c hc => ?_).isSafeToken
  rw [String.toList_ofList] at hc
  obtain rfl | ⟨part, hpart, hc⟩ := mem_intercalate hc
  · decide
  · obtain ⟨w, hw, rfl⟩ := List.mem_map.1 hpart
    exact isPlainToken_widthName (hwidths w hw) c hc

/-- What takes the place of a safe token is safe. -/
theorem isSafeToken_tokenChange (design : VariableTable) {token : String} (h : IsSafeToken token)
    (hline : '\n' ∉ token.toList) :
    IsSafeToken ((CssVariables.TokenChange.of design token).token token) := by
  have hresolved : IsSafeToken (String.ofList (resolvedToken design token.toList)) := by
    unfold IsSafeToken
    rw [String.toList_ofList]
    exact ⟨holdsNoClasses_resolvedToken design hline h.1, fun hc =>
      (mem_resolvedToken design hline hc).elim h.2 fun hother => hother (by decide)⟩
  unfold CssVariables.TokenChange.of
  split
  · rename_i entry hborder
    exact isSafeToken_borderClass hborder
  · unfold resolvedToken at hresolved
    rw [String.ofList_toList] at hresolved
    split
    · rename_i resolution hresolve
      rw [hresolve] at hresolved
      dsimp only at hresolved
      rwa [String.ofList_toList] at hresolved
    · exact h

/-! ### Typefaces -/

/-- A token without blanks can stand in an inline style. -/
theorem IsSafeToken.isStyleText {token : String} (h : IsSafeToken token)
    (hsolid : IsSolid token.toList) : IsStyleText token.toList :=
  ⟨h.1, fun hc => absurd (hsolid _ hc) (by decide)⟩

theorem isStyleText_of_isGenericChar {cs : List Char}
    (h : cs.all FontClass.isGenericChar = true) : IsStyleText cs := by
  rw [List.all_eq_true] at h
  exact .of_not_mem (fun hc => absurd (h _ hc) (by decide)) fun hc => absurd (h _ hc) (by decide)

/-- The parts of a font class are parts of its token. -/
theorem FontClass.split?_parts {token name : List Char} {generic? : Option (List Char)}
    (h : FontClass.split? token = some (name, generic?)) :
    name <:+: token ∧ ∀ generic, generic? = some generic → IsStyleText generic := by
  simp only [FontClass.split?, Option.bind_eq_bind, Option.bind_eq_some_iff] at h
  obtain ⟨rest, hrest, h⟩ := h
  rw [afterText?_eq_some] at hrest
  split at h
  · exact absurd h (by simp)
  · split at h
    · exact absurd h (by simp)
    · obtain ⟨generic, hgeneric, heq⟩ := Option.map_eq_some_iff.1 h
      obtain ⟨rfl, rfl⟩ := Prod.mk.inj heq
      refine ⟨?_, fun value hvalue => ?_⟩
      · rw [hrest]
        exact (List.takeWhile_prefix _).isInfix.trans (List.suffix_append _ rest).isInfix
      · subst hvalue
        unfold FontClass.readGeneric? at hgeneric
        split at hgeneric
        · exact absurd hgeneric (by simp)
        · split at hgeneric
          · rename_i hall
            simp only [Bool.and_eq_true] at hall
            obtain rfl := Option.some.inj (Option.some.inj hgeneric)
            exact isStyleText_of_isGenericChar hall.2
          · exact absurd hgeneric (by simp)
        · exact absurd hgeneric (by simp)

/-- The inline style that stands for a font class. -/
theorem FontClass.isSafe_style (design : VariableTable) {token : String} {font : FontClass}
    (h : IsSafeToken token) (hsolid : IsSolid token.toList)
    (hread : FontClass.read? token = some font) : font.style.IsSafe design := by
  simp only [FontClass.read?, Option.bind_eq_bind, Option.bind_eq_some_iff] at hread
  obtain ⟨⟨name, generic?⟩, hsplit, hread⟩ := hread
  obtain ⟨hname, hgeneric⟩ := FontClass.split?_parts hsplit
  dsimp only at hread
  split at hread
  · exact absurd hread (by simp)
  · obtain rfl := Option.some.inj hread
    have hfront : ((cutAt? ':' name).getD (name, [])).1 <:+: name := by
      cases hcut : cutAt? ':' name with
      | none => exact List.infix_rfl
      | some parts =>
        rw [(eq_of_cutAt? hcut).1]
        exact (List.prefix_append parts.1 _).isInfix
    have htoken := (h.isStyleText hsolid).of_isInfix (hfront.trans hname)
    have hfamily := htoken.map_lowLine.of_isInfix (trim_isInfix _)
    have hgeneric' : IsStyleText ((generic?.map String.ofList).getD "sans-serif").toList := by
      cases generic? with
      | none => exact .of_not_mem (by decide) (by decide)
      | some generic =>
        rw [Option.map_some, Option.getD_some, String.toList_ofList]
        exact hgeneric generic rfl
    have hnil : IsStyleText [] := .of_not_mem List.not_mem_nil List.not_mem_nil
    have hcomma := hfamily.parted (c := ',') rfl (by decide)
      (hnil.parted (c := ' ') rfl (by decide) hgeneric')
    have hkeys : ∀ key ∈ ["fontFamily", "fontWeight", "fontStyle"],
        HoldsNoClasses (Style.printKey key) := by decide +kernel
    intro entry hentry
    obtain hentry | hentry := List.mem_append.1 hentry
    · simp only [List.mem_cons, List.not_mem_nil, or_false] at hentry
      obtain rfl | rfl := hentry
      · refine ⟨hkeys _ (by simp), ?_⟩
        show IsStyleText (String.toList _)
        rw [String.toList_append, String.toList_append, String.toList_ofList, List.append_assoc]
        exact hcomma
      · exact ⟨hkeys _ (by simp), trivial⟩
    · split at hentry
      · obtain rfl := List.mem_singleton.1 hentry
        exact ⟨hkeys _ (by simp), .of_not_mem (by decide) (by decide)⟩
      · exact absurd hentry List.not_mem_nil

/-! ### Gradients -/

namespace Gradient

theorem isStyleText_stopColor {value : List Char} (h : IsStyleText value) :
    IsStyleText (stopColor value) := by
  unfold stopColor
  dsimp only
  refine (IsStyleText.map_lowLine ?_).normalizeReferences
  split
  · have hinside : IsStyleText value.tail.dropLast :=
      h.of_isInfix ((List.dropLast_prefix _).isInfix.trans (List.tail_suffix value).isInfix)
    cases hcolor : afterText? "color:".toList value.tail.dropLast with
    | none => exact hinside
    | some color =>
      rw [afterText?_eq_some] at hcolor
      exact hinside.of_isInfix (hcolor ▸ (List.suffix_append _ color).isInfix)
  · exact h

theorem isSuffix_of_readPlace? {cs rest : List Char} {place : StopPlace}
    (h : readPlace? cs = some (place, rest)) : rest <:+ cs := by
  have hafter : ∀ start, afterText? start cs = some rest → rest <:+ cs := by
    intro start hstart
    rw [afterText?_eq_some.1 hstart]
    exact List.suffix_append start rest
  unfold readPlace? at h
  split at h
  · rename_i hfrom
    exact hafter _ ((Prod.mk.inj (Option.some.inj h)).2 ▸ hfrom)
  · split at h
    · rename_i hvia
      exact hafter _ ((Prod.mk.inj (Option.some.inj h)).2 ▸ hvia)
    · obtain ⟨rest', hto, heq⟩ := Option.map_eq_some_iff.1 h
      exact hafter _ ((Prod.mk.inj heq).2 ▸ hto)

theorem isStyleText_of_read? {token : String} (h : IsStyleText token.toList) {place : StopPlace}
    {color : List Char} (hread : StopToken.read? token = some (.color place color)) :
    IsStyleText color := by
  simp only [StopToken.read?, Option.bind_eq_bind, Option.bind_eq_some_iff] at hread
  obtain ⟨⟨place', value⟩, hplace, hread⟩ := hread
  have hvalue := isStyleText_stopColor (h.of_isInfix (isSuffix_of_readPlace? hplace).isInfix)
  dsimp only at hread
  split at hread
  · obtain ⟨-, rfl⟩ := StopToken.color.inj (Option.some.inj hread)
    exact hvalue
  · split at hread
    · split at hread
      · obtain ⟨_, -, heq⟩ := Option.map_eq_some_iff.1 hread
        exact absurd heq (by simp)
      · exact absurd hread (by simp)
    · exact absurd hread (by simp)

theorem mem_placeStops {colors : List (List Char)} {positions : List Binary64} {stop : Stop}
    (h : stop ∈ placeStops colors positions) : stop.color ∈ colors := by
  induction colors generalizing positions with
  | nil => exact absurd h (by simp [placeStops])
  | cons color colors ih =>
    cases positions with
    | nil =>
      obtain rfl | h := List.mem_cons.1 h
      · exact List.mem_cons_self
      · exact List.mem_cons_of_mem color (ih h)
    | cons p positions =>
      obtain rfl | h := List.mem_cons.1 h
      · exact List.mem_cons_self
      · exact List.mem_cons_of_mem color (ih h)

theorem isStyleText_percentText (x : Binary64) : IsStyleText (percentText x) := by
  have hnumber : ∀ c ∈ percentText x, isNumberChar c = true ∨ c = '%' := by
    intro c hc
    refine (List.mem_append.1 hc).imp (fun hc => ?_) List.mem_singleton.1
    exact Binary64.isNumberText_wholeOr Binary64.isNumberText_general _ c hc
  exact .of_not_mem (fun hc => absurd (hnumber _ hc) (by decide))
    fun hc => absurd (hnumber _ hc) (by decide)

theorem isStyleText_stopsText {stops : List Stop} (h : ∀ stop ∈ stops, IsStyleText stop.color) :
    IsStyleText (stopsText stops) := by
  refine IsStyleText.intercalate fun part hpart => ?_
  obtain ⟨⟨stop, index⟩, hstop, rfl⟩ := List.mem_map.1 hpart
  have hmem : stop ∈ stops := List.fst_mem_of_mem_zipIdx hstop
  exact (h stop hmem).parted rfl (by decide) (isStyleText_percentText _)

/-- A linear gradient with its angle in degrees. -/
theorem isStyleText_linear (degrees : Nat) {stops : List Char} (h : IsStyleText (stops ++ [')'])) :
    IsStyleText ("linear-gradient(".toList ++ (toString degrees).toList ++ "deg, ".toList ++ stops ++
      [')']) := by
  have hfront : ∀ c ∈ "linear-gradient(".toList ++ (toString degrees).toList ++ "deg,".toList,
      isNumberChar c = true ∨ c ∈ "linear-gradient(deg,".toList := by
    rw [List.append_assoc, List.forall_mem_append, List.forall_mem_append]
    exact ⟨by decide, fun c hc => Or.inl (isNumberText_nat degrees c hc), by decide⟩
  have hfront' : IsStyleText
      ("linear-gradient(".toList ++ (toString degrees).toList ++ "deg,".toList) :=
    .of_not_mem (fun hc => absurd (hfront _ hc) (by decide))
      fun hc => absurd (hfront _ hc) (by decide)
  have happ : "linear-gradient(".toList ++ (toString degrees).toList ++ "deg, ".toList ++ stops ++
      [')'] = "linear-gradient(".toList ++ (toString degrees).toList ++ "deg,".toList ++
      ' ' :: (stops ++ [')']) := by
    have hspace : "deg, ".toList = "deg,".toList ++ [' '] := rfl
    rw [hspace]
    simp only [List.append_assoc, List.cons_append, List.nil_append]
  rw [happ]
  exact hfront'.parted rfl (by decide) h

variable {tokens : List String} (h : ∀ t ∈ tokens, IsStyleText t.toList)
include h

theorem isStyleText_of_mem_collect {stop : Stop} (hstop : stop ∈ collect tokens) :
    IsStyleText stop.color := by
  have hplace : ∀ place, stop ∈ stopsAt place (tokens.filterMap StopToken.read?) →
      IsStyleText stop.color := by
    intro place hmem
    obtain ⟨found, hfound, hcolor⟩ := List.mem_filterMap.1 (mem_placeStops hmem)
    obtain ⟨token, htoken, hread⟩ := List.mem_filterMap.1 hfound
    cases found with
    | color place' color =>
      have hstyle := isStyleText_of_read? (h token htoken) hread
      dsimp only at hcolor
      split at hcolor
      · exact Option.some.inj hcolor ▸ hstyle
      · exact absurd hcolor (by simp)
    | position place' percent => exact absurd hcolor (by simp)
  unfold collect at hstop
  dsimp only at hstop
  rw [List.mem_append, List.mem_append] at hstop
  obtain (hstop | hstop) | hstop := hstop <;> exact hplace _ hstop

/-- The CSS value of a gradient. -/
theorem isStyleText_classify {value : String} {used : List String}
    (hfound : classify tokens = .found value used) : IsStyleText value.toList := by
  have hend : IsStyleText (stopsText (collect tokens) ++ [')']) :=
    (isStyleText_stopsText fun _ => isStyleText_of_mem_collect h).parted rfl (by decide) .nil
  unfold classify at hfound
  dsimp only at hfound
  split at hfound
  · split at hfound
    · exact Finding.noConfusion hfound
    · split at hfound
      · exact Finding.noConfusion hfound
      · obtain ⟨rfl, -⟩ := Finding.found.inj hfound
        rw [String.toList_ofList]
        exact isStyleText_linear _ hend
  · split at hfound
    · exact Finding.noConfusion hfound
    · split at hfound
      · exact Finding.noConfusion hfound
      · obtain ⟨rfl, -⟩ := Finding.found.inj hfound
        have hfront : IsStyleText "radial-gradient(circle,".toList :=
          .of_not_mem (by decide) (by decide)
        rw [String.toList_ofList]
        exact hfront.parted rfl (by decide) hend

end Gradient

end MarkupTidy
