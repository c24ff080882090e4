import MarkupTidy.Proofs.OrderedMap
import MarkupTidy.Proofs.Pass.Telling
import MarkupTidy.Proofs.Run.Completion
import MarkupTidy.Proofs.Run.Trace
import MarkupTidy.Proofs.Sheet.FontImport
import MarkupTidy.Proofs.Utility.StyleSource

/-! # Typefaces that outlast their classes

The first pass writes the typeface of a font class into the style of the element, the second one takes
the class away, and the stylesheet imports what the first one has seen.

* `FontClass.family_ne_empty`: a font class that can be read has a family; `layerStyle_style`: a style
  expression over its typeface, written out.
* `Attributes.Wears`: how a typeface stands in the style of an element.
* `Attributes.IsTypeset`: what the two passes together leave of an element.
* `Context.Imports`: a typeface that can be read from the import of the stylesheet;
  `Context.imports_iff`: when it can.
* `FontDetection.typeset_and_imported`: where the first pass completes, every element is typeset, and
  its typeface is imported unless a family has no encoding. -/

namespace MarkupTidy

open MarkupTidy.Markup MarkupTidy.Text

/-! ### What a font class comes to -/

theorem FontClass.family_ne_empty {token : String} {f : FontClass} (h : read? token = some f) :
    f.family ≠ "" := by
  unfold read? at h
  cases hsplit : split? token.toList with
  | none => rw [hsplit] at h; exact absurd h (by simp)
  | some parts =>
    rw [hsplit] at h
    dsimp only [bind, Option.bind] at h
    split at h
    · exact absurd h (by simp)
    · rename_i hfamily
      obtain rfl := Option.some.inj h
      simpa using hfamily

/-! ### Styles with a typeface -/

namespace Style

theorem get?_setNew (s : Style) (key : String) (value : StyleValue) (other : String) :
    (s.setNew key value).get? other = (s.get? other).or (if key = other then some value else none) := by
  unfold setNew
  split
  · rename_i hhas
    by_cases hkey : key = other
    · subst hkey
      obtain ⟨v, hv⟩ := Option.isSome_iff_exists.1 hhas
      have hget : s.get? key = some v := hv
      rw [hget, Option.some_or]
    · rw [if_neg hkey, Option.or_none]
  · rename_i hhas
    by_cases hkey : key = other
    · subst hkey
      have hget : s.get? key = none := by simpa [has, OrderedMap.has, get?] using hhas
      rw [get?_set_self, hget, if_pos rfl, Option.none_or]
    · rw [get?_set_ne s value hkey, if_neg hkey, Option.or_none]

/-- A style with properties that it did not set: what it sets it keeps. -/
theorem get?_foldl_setNew (entries : List (String × StyleValue)) (s : Style) (key : String) :
    (entries.foldl (fun s (key, value) => s.setNew key value) s).get? key
      = (s.get? key).or (OrderedMap.get? entries key) := by
  induction entries generalizing s with
  | nil => exact (Option.or_none).symm
  | cons entry rest ih =>
    rw [List.foldl_cons, ih, get?_setNew, OrderedMap.get?, Option.or_assoc]
    split
    · rw [Option.some_or]
    · rw [Option.none_or]

end Style

/-- A style expression over a typeface: the properties of the typeface, then the source spread, so that
what it sets wins. -/
def FontClass.beneath (f : FontClass) (source : List Char) : List Char :=
  "\x7b fontFamily: ".toList ++ Json.quoted false (f.family ++ ", " ++ f.generic).toList
    ++ ", fontWeight: ".toList ++ (Nat.repr f.weight).toList
    ++ (if f.italic then ", fontStyle: ".toList ++ Json.quoted false "italic".toList else [])
    ++ ", ...".toList ++ trim source ++ " \x7d".toList

theorem layerStyle_style (f : FontClass) (source : List Char) :
    layerStyle source f.style = f.beneath source := by
  have hfamily : "\x7b fontFamily: ".toList
      = '\x7b' :: ' ' :: (Style.printKey "fontFamily" ++ [':', ' ']) := by decide +kernel
  have hweight : ", fontWeight: ".toList
      = ',' :: ' ' :: (Style.printKey "fontWeight" ++ [':', ' ']) := by decide +kernel
  have hstyle : ", fontStyle: ".toList
      = ',' :: ' ' :: (Style.printKey "fontStyle" ++ [':', ' ']) := by decide +kernel
  have hdots : ", ...".toList = [',', ' ', '.', '.', '.'] := by decide +kernel
  have hend : " \x7d".toList = [' ', '\x7d'] := by decide +kernel
  have hne : f.style.entries ≠ [] := by simp [FontClass.style]
  have hslant : Style.printEntry ("fontStyle", .text "italic")
      = Style.printKey "fontStyle" ++ ':' :: ' ' :: Json.quoted false "italic".toList := rfl
  have hname : Style.printEntry ("fontFamily", .text (f.family ++ ", " ++ f.generic))
      = Style.printKey "fontFamily"
        ++ ':' :: ' ' :: Json.quoted false (f.family ++ ", " ++ f.generic).toList := rfl
  have hbold : Style.printEntry ("fontWeight", .int f.weight)
      = Style.printKey "fontWeight" ++ ':' :: ' ' :: (Nat.repr f.weight).toList := rfl
  rw [layerStyle_eq hne]
  unfold FontClass.beneath
  -- The literals are told apart by simp; a rewrite would evaluate them.
  simp only [hfamily, hweight, hstyle, hdots, hend]
  cases hitalic : f.italic with
  | false =>
    simp only [FontClass.style, hitalic, Bool.false_eq_true, if_false, List.append_nil, List.map_cons,
      List.map_nil, hname, hbold, List.intercalate_cons_cons, List.intercalate_singleton, braced,
      List.append_assoc, List.cons_append, List.nil_append]
  | true =>
    simp only [FontClass.style, hitalic, if_true, List.cons_append, List.map_cons, List.nil_append,
      List.map_nil, hname, hbold, hslant, List.intercalate_cons_cons, List.intercalate_singleton, braced,
      List.append_assoc]

/-! ### Elements -/

/-- A style that has been given a typeface and keeps what it had set. -/
structure Style.Wears (before after : Style) (f : FontClass) : Prop where
  family : after.has "fontFamily" = true
  weight : after.has "fontWeight" = true
  kept : ∀ key value, before.get? key = some value → after.get? key = some value
  /-- What had not been set is as in the typeface. -/
  added : ∀ key, before.get? key = none → after.get? key = f.style.get? key

namespace Attributes

/-- Attributes that have been given a typeface: as properties of the inline style, or, where the style
is an expression, as properties in front of those that the expression spreads. -/
inductive Wears (f : FontClass) (before after : Attributes) : Prop where
  | style {s s' : Style} (hbefore : before.styleOrNew? = some s)
    (hafter : after.value? "style" = some (.style s')) (hwears : s.Wears s' f)
  | expression {source text : String} (hbefore : before.value? "style" = some (.expression source))
    (hafter : after.value? "style" = some (.expression text))
    (hbeneath : text.toList = f.beneath source.toList)

/-- Attributes whose style has the typeface of the first readable font class, if there is one. -/
structure IsStyled (before after : Attributes) : Prop where
  wears : ∀ f, FontDetection.firstFont? before.classes = some f → Wears f before after
  others : FontDetection.firstFont? before.classes = none →
    after.value? "style" = before.value? "style"

/-- Attributes with the typeface in the style and no font class left. -/
structure IsTypeset (before after : Attributes) : Prop extends IsStyled before after where
  noClass : ∀ t ∈ after.classes, isFontClass t = false

variable {before after after' : Attributes}

/-- What a typeface has to do with attributes is in their style. -/
theorem IsStyled.of_style_eq (h : IsStyled before after)
    (hstyle : after'.value? "style" = after.value? "style") : IsStyled before after' where
  wears f hf := by
    cases h.wears f hf with
    | style hbefore hafter hwears => exact .style hbefore (hstyle.trans hafter) hwears
    | expression hbefore hafter hbeneath => exact .expression hbefore (hstyle.trans hafter) hbeneath
  others hnone := hstyle.trans (h.others hnone)

end Attributes

open Attributes

namespace FontDetection

theorem get?_mergeFont (s font : Style) (key : String) :
    (mergeFont s font).get? key = (s.get? key).or (font.get? key) :=
  Style.get?_foldl_setNew font.entries s key

theorem wears_mergeFont (s : Style) (f : FontClass) : s.Wears (mergeFont s f.style) f where
  family := by
    have hget : ((mergeFont s f.style).get? "fontFamily").isSome = true := by
      rw [get?_mergeFont]
      cases s.get? "fontFamily" <;> rfl
    exact hget
  weight := by
    have hget : ((mergeFont s f.style).get? "fontWeight").isSome = true := by
      rw [get?_mergeFont]
      cases s.get? "fontWeight" <;> rfl
    exact hget
  kept key value h := by rw [get?_mergeFont, h, Option.some_or]
  added key h := by rw [get?_mergeFont, h, Option.none_or]

theorem value?_of_styleOrNew? {as : Attributes} {s : Style} (h : as.styleOrNew? = some s) :
    as.value? "style" = some (.style s) ∨ as.value? "style" = none ∧ s = .empty := by
  unfold styleOrNew? at h
  split at h
  · rename_i hnone
    exact .inr ⟨hnone, (Option.some.inj h).symm⟩
  · rename_i hstyle
    exact .inl (hstyle.trans (congrArg (some ∘ AttributeValue.style) (Option.some.inj h)))
  · exact absurd h (by simp)

/-- A typeface that changes nothing stands in the style already. -/
theorem wears_of_mergeFont_eq {as : Attributes} {s : Style} {f : FontClass}
    (hs : as.styleOrNew? = some s) (hmerged : mergeFont s f.style = s) : Wears f as as := by
  have hwears := wears_mergeFont s f
  rw [hmerged] at hwears
  obtain hstyle | ⟨-, rfl⟩ := value?_of_styleOrNew? hs
  · exact .style hs hstyle hwears
  · exact absurd hwears.family (by decide)

/-- A visit that does not fail gives an element its typeface. -/
theorem isStyled_visit (st : State) (e : Element) (h : (visit st e).fault? = none) :
    IsStyled e.attributes (visit st e).attributes := by
  cases hfont : firstFont? e.attributes.classes with
  | none =>
    have hkept : (visit st e).attributes = e.attributes := by
      unfold visit
      rw [hfont]
      rfl
    rw [hkept]
    exact ⟨fun f hf => absurd (hfont.symm.trans hf) (by simp), fun _ => rfl⟩
  | some font =>
    suffices hwears : Wears font e.attributes (visit st e).attributes by
      refine ⟨fun f hf => ?_, fun hnone => absurd (hfont.symm.trans hnone) (by simp)⟩
      obtain rfl := Option.some.inj (hfont.symm.trans hf)
      exact hwears
    unfold visit at h ⊢
    rw [hfont] at h ⊢
    dsimp only at h ⊢
    cases hs : e.attributes.styleOrNew? with
    | some s =>
      dsimp only
      by_cases hmerged : mergeFont s font.style = s
      · rw [if_pos hmerged]
        exact wears_of_mergeFont_eq hs hmerged
      · rw [if_neg hmerged]
        exact .style hs (value?_set_self ..) (wears_mergeFont s font)
    | none =>
      rw [hs] at h
      dsimp only at h ⊢
      split at h
      · rename_i source hsource
        refine .expression hsource (value?_set_self ..) ?_
        rw [String.toList_ofList, layerStyle_style]
      · exact absurd h (by simp [Visit.fail])

end FontDetection

namespace ClassCleanup

theorem isFontClass_cleanTokens (counters : Counters) (tokens : List String) :
    ∀ t ∈ (cleanTokens counters tokens).2, isFontClass t = false := by
  have hsizes : ∀ size ∈ textSizes, isFontClass size.2 = false := by decide +kernel
  intro t ht
  obtain ⟨-, hfont⟩ | ⟨size, hsize, rfl⟩ | rfl := mem_cleanTokens_cases ht
  · exact hfont
  · exact hsizes size hsize
  · decide +kernel

theorem value?_style_containOverflow (st : State) (e : Element) :
    (containOverflow st e).2.value? "style" = e.attributes.value? "style" := by
  unfold containOverflow
  split
  · dsimp only
    split
    · rfl
    · exact value?_set_ne _ _ (by decide)
  · rfl

/-- A visit leaves no font class, and it has nothing to do with the style. -/
theorem noClass_visit (st : State) (e : Element) :
    (∀ t ∈ (visit st e).attributes.classes, isFontClass t = false) ∧
      (visit st e).attributes.value? "style" = e.attributes.value? "style" := by
  cases hstatic : e.attributes.hasStaticClasses with
  | false =>
    rw [visit_of_not_static hstatic]
    have hclasses : (Visit.keep (noted st e) e).attributes.classes = [] := classes_of_not_static hstatic
    rw [hclasses]
    exact ⟨List.forall_mem_nil _, rfl⟩
  | true =>
    have hstyle := value?_style_containOverflow (noted st e) e
    rw [visit_of_static hstatic]
    dsimp only [Visit.change]
    generalize containOverflow (noted st e) e = contained at hstyle ⊢
    have hclean := isFontClass_cleanTokens contained.1.counters contained.2.classes
    have htokens := isToken_cleanTokens contained.1.counters
      fun t (ht : t ∈ contained.2.classes) => isToken_of_mem_classes ht
    split
    · rename_i hsame
      rw [hsame] at hclean
      exact ⟨hclean, hstyle⟩
    · rw [classes_setClasses htokens]
      exact ⟨hclean, (value?_set_ne _ _ (by decide)).trans hstyle⟩

end ClassCleanup

/-- Where the first pass completes, the two passes leave every element with its typeface in the style
and without font classes. -/
theorem FontDetection.matches_isTypeset {d : Document} {c : Context}
    (h : ∃ counters, (pass.run d c).result = .ok counters) :
    d.Matches IsTypeset (ClassCleanup.pass.run (pass.run d c).document (pass.run d c).context).document := by
  have hstyled : d.Matches IsStyled (pass.run d c).document :=
    isWalk.matches_of_completed forChildren_visit isStyled_visit h
  have hclean : (pass.run d c).document.Matches
      (fun before after => (∀ t ∈ after.classes, isFontClass t = false) ∧
        after.value? "style" = before.value? "style")
      (ClassCleanup.pass.run (pass.run d c).document (pass.run d c).context).document :=
    ClassCleanup.isWalk.changesEach _
      ⟨ClassCleanup.noClass_visit, ClassCleanup.forChildren_visit, ClassCleanup.fault_visit⟩
  refine (hstyled.comp hclean).mono fun before after hboth => ?_
  obtain ⟨between, hbetween, hnone, hstyle⟩ := hboth
  exact ⟨hbetween.of_style_eq hstyle, hnone⟩

/-! ### The stylesheet -/

/-- The stylesheet is made, and the directive in it is read back with a typeface among others.  A family
that has no encoding keeps the stylesheet from being made. -/
def Context.Imports (c : Context) (font : FontUse) : Prop :=
  unencodableFamily? (Sheet.fontUses c.design c.fonts) = none ∧
    ∃ directive uses, (Sheet.build c.design c.classes c.fonts).imports = [directive] ∧
      importedFonts? directive = some uses ∧ font ∈ uses

/-- A typeface with a name is imported exactly if it has been seen or described and every family has an
encoding. -/
theorem Context.imports_iff {c : Context} (hweights : ∀ f ∈ c.fonts, 0 ≤ f.2) {font : FontUse}
    (hname : font.1 ≠ "") : c.Imports font ↔
      (∀ f ∈ Sheet.fontUses c.design c.fonts, isWellFormed f.1.toList) ∧
        font ∈ Sheet.fontUses c.design c.fonts := by
  have hall : ∀ f ∈ Sheet.fontUses c.design c.fonts, 0 ≤ f.2 :=
    List.forall_mem_append.2 ⟨hweights, List.forall_mem_map.2 fun f _ => Int.natCast_nonneg f.weight⟩
  unfold Imports
  rw [unencodableFamily?_eq_none_iff]
  refine and_congr_right fun _ => ⟨?_, fun hmem => ?_⟩
  · rintro ⟨directive, uses, hdirective, huses, hmem⟩
    have himport : fontImport? (Sheet.fontUses c.design c.fonts) = some directive :=
      Option.toList_eq_singleton_iff.1 hdirective
    rw [importedFonts?_fontImport hall himport] at huses
    obtain rfl := Option.some.inj huses
    exact (mem_namedUses_iff.1 hmem).1
  · obtain ⟨directive, himport⟩ := Option.isSome_iff_exists.1 (isSome_fontImport hmem)
    exact ⟨directive, _, congrArg Option.toList himport, importedFonts?_fontImport hall himport,
      mem_namedUses_iff.2 ⟨hmem, hname⟩⟩

namespace FontDetection

theorem family_ne_empty {e : Element} {font : FontUse} (h : typeface? e = some font) :
    font.1 ≠ "" := by
  obtain ⟨f, hf, rfl⟩ := Option.map_eq_some_iff.1 h
  obtain ⟨token, -, hread⟩ := List.exists_of_findSome?_eq_some hf
  exact FontClass.family_ne_empty hread

theorem weight_nonneg {e : Element} {font : FontUse} (h : typeface? e = some font) : 0 ≤ font.2 := by
  obtain ⟨f, -, rfl⟩ := Option.map_eq_some_iff.1 h
  exact Int.natCast_nonneg f.weight

/-- Where the first pass completes, the second one leaves every element with its typeface in the style
and without font classes.  The typeface of an element can be read from the import of the stylesheet
exactly if every family that is imported has an encoding. -/
theorem typeset_and_imported {d : Document} {design : VariableTable} {assets? : Option AssetFolder}
    (h : ∃ counters, (pass.run d (.new design assets?)).result = .ok counters) :
    let given := pass.run d (.new design assets?)
    let cleaned := ClassCleanup.pass.run given.document given.context
    d.Matches IsTypeset cleaned.document ∧
      ∀ e ∈ d.elements, ∀ font, typeface? e = some font →
        (cleaned.context.Imports font ↔
          (∀ e' ∈ d.elements, ∀ f, typeface? e' = some f → isWellFormed f.1.toList) ∧
            ∀ f ∈ design.fonts, isWellFormed f.family.toList) := by
  dsimp only
  refine ⟨matches_isTypeset h, fun e he font hfont => ?_⟩
  have hmem (f : FontUse) : f ∈ (ClassCleanup.pass.run (pass.run d (.new design assets?)).document
      (pass.run d (.new design assets?)).context).context.fonts ↔
        ∃ e ∈ d.elements, typeface? e = some f :=
    (mem_fonts_run_iff ((exists_result_iff d _).1 h)).trans (or_iff_right List.not_mem_nil)
  have hweights : ∀ f ∈ (ClassCleanup.pass.run (pass.run d (.new design assets?)).document
      (pass.run d (.new design assets?)).context).context.fonts, 0 ≤ f.2 := by
    intro f hf
    obtain ⟨e, -, hf⟩ := (hmem f).1 hf
    exact weight_nonneg hf
  have hseen := List.mem_append_left (design.fonts.map fun f => (f.family, Int.ofNat f.weight))
    ((hmem font).2 ⟨e, he, hfont⟩)
  rw [Context.imports_iff hweights (family_ne_empty hfont)]
  refine (and_iff_left hseen).trans ?_
  refine List.forall_mem_append.trans (and_congr ?_ List.forall_mem_map)
  constructor
  · intro hall e he f hf
    exact hall f ((hmem f).2 ⟨e, he, hf⟩)
  · intro hall f hf
    obtain ⟨e, he, hf⟩ := (hmem f).1 hf
    exact hall e he f hf

/-- A typeface beside a property of the style, and one beneath an expression. -/
theorem styledCaption_typeset :
    let given := pass.run styledCaptionModule (.new .empty none)
    let cleaned := ClassCleanup.pass.run given.document given.context
    (∃ counters, given.result = .ok counters) ∧
      styledCaptionModule.Matches IsTypeset cleaned.document ∧
      ∀ e ∈ styledCaptionModule.elements, ∃ font, typeface? e = some font ∧
        cleaned.context.Imports font := by
  have hcompletes : ∃ counters,
      (pass.run styledCaptionModule (.new .empty none)).result = .ok counters :=
    (exists_result_iff ..).2 (by decide +kernel)
  have hfamilies : ∀ e ∈ styledCaptionModule.elements,
      ∀ f ∈ typeface? e, isWellFormed f.1.toList := by decide +kernel
  have hsome : ∀ e ∈ styledCaptionModule.elements, (typeface? e).isSome = true := by decide +kernel
  obtain ⟨htypeset, himports⟩ := typeset_and_imported hcompletes
  refine ⟨hcompletes, htypeset, fun e he => ?_⟩
  obtain ⟨font, hfont⟩ := Option.isSome_iff_exists.1 (hsome e he)
  exact ⟨font, hfont, (himports e he font hfont).2 ⟨hfamilies, List.forall_mem_nil _⟩⟩

/-- An element with a typeface. -/
def boldCaption : Document :=
  ⟨[.markup ⟨"p", [⟨"className", .text "font-['Inter:Bold']"⟩], []⟩]⟩

/-- A variable whose family has no encoding keeps the typeface of an element from being imported. -/
theorem halfFamily_not_imported :
    let given := pass.run boldCaption (.new Pipeline.halfFamily none)
    let cleaned := ClassCleanup.pass.run given.document given.context
    (∃ counters, given.result = .ok counters) ∧
      (∃ e ∈ boldCaption.elements, typeface? e = some ("Inter", 700)) ∧
      ¬ cleaned.context.Imports ("Inter", 700) := by
  refine ⟨(exists_result_iff ..).2 (by decide +kernel), by decide +kernel, fun himports => ?_⟩
  exact absurd himports.1 (by decide +kernel)

end FontDetection

end MarkupTidy
