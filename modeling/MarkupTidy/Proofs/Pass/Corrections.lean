import MarkupTidy.Proofs.Pass.Completion
import MarkupTidy.Proofs.Pass.Telling
import MarkupTidy.Proofs.Utility.Gradient
import MarkupTidy.Proofs.Utility.Radius

/-! # What visual corrections write

* `PostFixes.gradient_written_or_kept`: a gradient is written with all its colours, and the tokens that it
  stands for go, or everything stays.
* `PostFixes.radius_halves_iff`: the radius of a circle is half of its lesser side, where this one can be
  halved exactly.
* `PostFixes.corrected_again`: nothing is corrected twice. -/

namespace MarkupTidy.PostFixes

open MarkupTidy.Markup MarkupTidy.Text

/-! ### Gradients -/

/-- A gradient in the place of the tokens that describe it: its value in the style lists `entries`, and the
tokens go that it stands for. -/
structure Replaces (as bs : Attributes) (chosen : String)
    (entries : List (List Char × List Char)) : Prop where
  style : ∃ front s, Gradient.Describes as.classes chosen front ∧ as.styleOrNew? = some s ∧
    s.has "background" = false ∧
    bs = (as.setStyle (s.set "background"
        (.text (String.ofList (front ++ Gradient.listing entries ++ [')']))))).setClasses bs.classes
  classes : bs.classes
    = as.classes.filter fun t => t ≠ chosen && (Gradient.StopToken.read? t).isNone
  colors : entries.map Prod.fst = Gradient.colorsAt .first as.classes
    ++ Gradient.colorsAt .between as.classes ++ Gradient.colorsAt .last as.classes

theorem exists_replaces_of_applied {as : Attributes} (h : (fixGradient as).1 = .applied) :
    ∃ chosen entries, Replaces as (fixGradient as).2 chosen entries ∧
      ((∀ entry ∈ entries, Gradient.IsPercentage entry.2) ↔
        ∀ place, .infinity false ∉ Gradient.usedPositionsAt place as.classes) := by
  obtain ⟨value, used, s, hfound, hs, hnew, hwritten⟩ := exists_found_of_applied h
  obtain ⟨chosen, front, hdescribes, rfl, hused⟩ := Gradient.exists_describes hfound
  have hkept : (as.classes.filter fun t => !used.contains t)
      = as.classes.filter fun t => t ≠ chosen && (Gradient.StopToken.read? t).isNone := by
    refine List.filter_congr fun t ht => ?_
    have hcontains : used.contains t = (decide (t = chosen) || (Gradient.StopToken.read? t).isSome) := by
      rw [Bool.eq_iff_iff, List.contains_iff_mem, hused t ht, Bool.or_eq_true, decide_eq_true_eq]
    rw [hcontains, Bool.not_or, decide_not, Option.not_isSome]
  have hclasses : (fixGradient as).2.classes
      = as.classes.filter fun t => t ≠ chosen && (Gradient.StopToken.read? t).isNone := by
    rw [hwritten, hkept]
    exact Attributes.classes_setClasses fun t ht =>
      Attributes.isToken_of_mem_classes (List.mem_filter.1 ht).1
  refine ⟨chosen, _, ⟨⟨front, s, hdescribes, hs, hnew, ?_⟩, hclasses, ?_⟩,
    Gradient.isPercentage_entries_iff as.classes⟩
  · rw [hclasses, ← hkept]
    exact hwritten
  · rw [Gradient.map_fst_entries, Gradient.map_color_collect]

/-- Either a gradient replaces the tokens that describe it, with percentages exactly if no position that is
taken is out of range; or the element stays as it is. -/
theorem gradient_written_or_kept (as : Attributes) :
    (∃ chosen entries, (fixGradient as).1 = .applied ∧ Replaces as (fixGradient as).2 chosen entries ∧
      ((∀ entry ∈ entries, Gradient.IsPercentage entry.2) ↔
        ∀ place, .infinity false ∉ Gradient.usedPositionsAt place as.classes)) ∨
      ((fixGradient as).1 ≠ .applied ∧ (fixGradient as).2 = as) := by
  by_cases happlied : (fixGradient as).1 = .applied
  · obtain ⟨chosen, entries, hreplaces, hpercentages⟩ := exists_replaces_of_applied happlied
    exact .inl ⟨chosen, entries, happlied, hreplaces, hpercentages⟩
  · exact .inr ⟨happlied, fixGradient_attributes happlied⟩

/-- A radial gradient whose first stop has a position. -/
def gradientFrom (position : String) : Attributes :=
  .setClasses [] ["bg-radial", "from-white", "to-black", position]

section
variable {position : String} (htoken : IsToken position)
  (hread : Gradient.StopToken.read? position = some (.position .first (.infinity false)))
include htoken hread

theorem classify_gradientFrom : Gradient.classify (gradientFrom position).classes
    = .found "radial-gradient(circle, white inf%, black 100%)" (gradientFrom position).classes := by
  have hclasses : (gradientFrom position).classes = ["bg-radial", "from-white", "to-black", position] := by
    unfold gradientFrom
    refine Attributes.classes_setClasses ?_
    simp only [List.forall_mem_cons]
    exact ⟨by decide, by decide, by decide, htoken, fun _ ht => absurd ht List.not_mem_nil⟩
  have hmark : Gradient.StopToken.read? "bg-radial" = none := by decide +kernel
  have hwhite : Gradient.StopToken.read? "from-white" = some (.color .first "white".toList) := by
    decide +kernel
  have hblack : Gradient.StopToken.read? "to-black" = some (.color .last "black".toList) := by
    decide +kernel
  have hstops : Gradient.collect ["bg-radial", "from-white", "to-black", position]
      = [⟨"white".toList, some (.infinity false)⟩, ⟨"black".toList, none⟩] := by
    simp [Gradient.collect, Gradient.stopsAt, Gradient.placeStops, hmark, hwhite, hblack, hread]
  have hused : "bg-radial" :: Gradient.usedTokens ["bg-radial", "from-white", "to-black", position]
      = ["bg-radial", "from-white", "to-black", position] := by
    simp [Gradient.usedTokens, hmark, hwhite, hblack, hread]
  have hdirection : ["bg-radial", "from-white", "to-black", position].find?
      (fun t => (Gradient.directionDegrees? t).isSome) = none := by
    have hposition := Gradient.directionDegrees?_of_stop (Option.isSome_iff_exists.2 ⟨_, hread⟩)
    refine List.find?_eq_none.2 ?_
    simp only [List.forall_mem_cons]
    exact ⟨by decide, by decide, by decide, by simp [hposition], fun _ ht => absurd ht List.not_mem_nil⟩
  have hradial : ["bg-radial", "from-white", "to-black", position].find? Gradient.isRadial
      = some "bg-radial" := rfl
  have hvalue : String.ofList ("radial-gradient(circle, ".toList
      ++ Gradient.stopsText [⟨"white".toList, some (.infinity false)⟩, ⟨"black".toList, none⟩] ++ [')'])
        = "radial-gradient(circle, white inf%, black 100%)" := by
    decide +kernel
  rw [hclasses, Gradient.classify, hstops, hdirection, hradial]
  dsimp only
  rw [if_neg (by decide), hvalue, hused]

/-- A position that is out of range is not written as a percentage. -/
theorem fixGradient_gradientFrom : fixGradient (gradientFrom position) = (.applied,
    [⟨"className", .text ""⟩,
      ⟨"style", .style ⟨[("background", .text "radial-gradient(circle, white inf%, black 100%)")]⟩⟩]) := by
  have hnone : ((gradientFrom position).classes.filter fun t =>
      !(gradientFrom position).classes.contains t) = [] := by
    simp
  rw [fixGradient, classify_gradientFrom htoken hread]
  dsimp only
  rw [hnone]
  rfl

end

/-- A position of 310 digits. -/
def farPosition : String :=
  String.ofList ("from-".toList ++ (('1' :: List.replicate 309 '0') ++ ['%']))

theorem read?_farPosition :
    Gradient.StopToken.read? farPosition = some (.position .first (.infinity false)) := by
  have hdigits : ∀ c ∈ '1' :: List.replicate 309 '0', c.isDigit = true :=
    List.forall_mem_cons.2 ⟨rfl, Binary64.isDigit_of_mem_replicate⟩
  have hone : Binary64.digitsValue ['1'] = 1 := rfl
  refine Gradient.read?_first_position (Number.isUnsignedNumber_of_forall hdigits (List.cons_ne_nil _ _))
    (Binary64.read?_of_overflow hdigits ?_)
  rw [← List.singleton_append, Binary64.digitsValue_append, hone, Binary64.digitsValue_zeros,
    List.length_replicate]
  decide +kernel

/-- Its gradient is written, and not with percentages. -/
theorem farGradient_no_percentage : fixGradient (gradientFrom farPosition) = (.applied,
      [⟨"className", .text ""⟩,
        ⟨"style", .style ⟨[("background", .text "radial-gradient(circle, white inf%, black 100%)")]⟩⟩]) ∧
      ¬ Gradient.IsPercentage "inf%".toList := by
  have htoken : IsToken farPosition := by
    refine isToken_ofList.2 ⟨?_, List.cons_ne_nil _ _⟩
    rw [isSolid_append, isSolid_append, isSolid_cons]
    refine ⟨by decide, ⟨by decide, fun c hc => ?_⟩, by decide⟩
    rw [List.eq_of_mem_replicate hc]
    decide
  refine ⟨fixGradient_gradientFrom htoken read?_farPosition, ?_⟩
  have hword : "inf%".toList = "inf".toList ++ ['%'] := rfl
  rw [hword, Gradient.isPercentage_append_iff]
  decide +kernel

/-- A background that is there is not written again. -/
theorem fixGradient_ne_applied_of_background {as : Attributes} {s : Style}
    (hstyle : as.value? "style" = some (.style s)) (h : s.has "background" = true) :
    (fixGradient as).1 ≠ .applied := by
  unfold fixGradient
  rw [(Attributes.style?_of_value? hstyle).2]
  simp only [h, if_true]
  split <;> simp

/-- Whether a gradient is written depends on the style and on what the classes say of a gradient. -/
theorem fixGradient_verdict_congr {as bs : Attributes}
    (hstyle : bs.value? "style" = as.value? "style")
    (h : bs.classes.filter Gradient.isPart = as.classes.filter Gradient.isPart) :
    (fixGradient bs).1 = (fixGradient as).1 := by
  unfold fixGradient
  dsimp only
  rw [Gradient.classify_congr h, Attributes.styleOrNew?, Attributes.styleOrNew?, hstyle]
  split
  · rfl
  · rfl
  · split
    · rfl
    · split <;> rfl

/-! ### Shapes -/

theorem shapeOf?_fixShape (as : Attributes) (children : List Element) :
    shapeOf? (fixShape as children).attributes = shapeOf? as := by
  unfold shapeOf? Attributes.text?
  rw [value?_fixShape (by decide) (by decide)]

theorem visibleHeight_visibleHeight (token : String) :
    visibleHeight (visibleHeight token) = visibleHeight token := by
  by_cases hline : (token = "h-0" || token = "h-[0px]") = true
  · rw [visibleHeight.eq_1 token, if_pos hline]
    rfl
  · rw [visibleHeight.eq_1 token, if_neg hline, visibleHeight, if_neg hline]

/-- A height in the place of another leaves all tokens that have nothing to do with it. -/
theorem filter_map_visibleHeight {q : String → Bool} (h : ∀ t ∈ ["h-0", "h-[0px]", "h-px"], q t = false)
    (tokens : List String) : (tokens.map visibleHeight).filter q = tokens.filter q := by
  have hheight : q "h-px" = false := h _ (by decide)
  induction tokens with
  | nil => rfl
  | cons t rest ih =>
    rw [List.map_cons, visibleHeight]
    split
    · rename_i hline
      have ht : q t = false := by
        rw [Bool.or_eq_true, decide_eq_true_eq, decide_eq_true_eq] at hline
        obtain rfl | rfl := hline <;> exact h _ (by decide)
      rw [List.filter_cons_of_neg (by simp [hheight]), List.filter_cons_of_neg (by simp [ht]), ih]
    · rw [List.filter_cons, List.filter_cons, ih]

theorem classes_setLine (as : Attributes) :
    (as.setClasses (as.classes.map visibleHeight)).classes = as.classes.map visibleHeight :=
  Attributes.classes_setClasses (isToken_visibleHeight as)

theorem classes_fixPointed (name : String) (as : Attributes) (children : List Element) :
    (fixPointed name as children).attributes.classes = as.classes := by
  unfold fixPointed
  dsimp only
  split
  · exact Attributes.classes_set_of_ne as _ (by decide)
  · rfl

theorem classes_setRadius {as : Attributes} {isCircle : Bool} {width height : Binary64} :
    (as.setClasses (withRadius as.classes (cornerRadius isCircle width height))).classes
      = withRadius as.classes (cornerRadius isCircle width height) :=
  Attributes.classes_setClasses (isToken_withRadius as isCircle width height)

/-- A shape correction leaves the parts of a gradient. -/
theorem filter_isPart_fixShape (as : Attributes) (children : List Element) :
    (fixShape as children).attributes.classes.filter Gradient.isPart
      = as.classes.filter Gradient.isPart := by
  have hfix := isShapeFix_fixShape as children
  generalize fixShape as children = f at hfix ⊢
  cases hfix with
  | kept => rfl
  | line =>
    rw [ShapeFix.none, classes_setLine]
    exact filter_map_visibleHeight (by decide) as.classes
  | pointed => rw [classes_fixPointed]
  | round =>
    rw [ShapeFix.none, classes_setRadius]
    refine filter_withRadius (fun t ht => ?_) (isRounded_cornerRadius ..) as.classes
    exact Gradient.isPart_eq_false (head_of_isRounded ht) (by decide)

theorem fixShape_of_none {as : Attributes} (h : shapeOf? as = none) (children : List Element) :
    fixShape as children = .none .skipped as := by
  rw [fixShape, h]

theorem fixShape_of_some {as : Attributes} {name : String} (h : shapeOf? as = some name)
    (children : List Element) : fixShape as children = match ShapeForm.ofName name with
      | .line => fixLine as
      | .pointed => fixPointed name as children
      | .round isCircle => fixRound isCircle as := by
  unfold fixShape
  split
  · rename_i hnone
    exact absurd (h.symm.trans hnone) (Option.some_ne_none name)
  · rename_i name' hname
    obtain rfl := Option.some.inj (h.symm.trans hname)
    rfl

/-! ### The radius of a circle -/

/-- A gradient that is written changes no attributes but the classes and the style. -/
theorem value?_fixGradient {name : String} (hclasses : classAttribute ≠ name) (hstyle : "style" ≠ name)
    (as : Attributes) : (fixGradient as).2.value? name = as.value? name := by
  by_cases happlied : (fixGradient as).1 = .applied
  · obtain ⟨value, used, s, -, -, -, hwritten⟩ := exists_found_of_applied happlied
    rw [hwritten]
    exact (Attributes.value?_set_ne _ _ hclasses).trans (Attributes.value?_set_ne _ _ hstyle)
  · rw [fixGradient_attributes happlied]

/-- The tokens that a gradient stands for give no size. -/
theorem dimensions_fixGradient (as : Attributes) :
    dimensions (fixGradient as).2.classes = dimensions as.classes := by
  have hnone : ∀ t, Gradient.isPart t = true → readSize? t = none := by
    have hletters : ∀ c ∈ Gradient.partLetters, c ∉ sizeLetters := by decide
    intro t ht
    obtain ⟨c, hc, hhead⟩ := Gradient.head_of_isPart ht
    exact readSize?_eq_none hhead (hletters c hc)
  by_cases happlied : (fixGradient as).1 = .applied
  · obtain ⟨chosen, entries, hreplaces, -⟩ := exists_replaces_of_applied happlied
    obtain ⟨front, s, hdescribes, -⟩ := hreplaces.style
    rw [hreplaces.classes]
    refine dimensions_filter fun t _ hgone => hnone t ?_
    obtain hchosen | hstop := Bool.and_eq_false_iff.1 hgone
    · obtain rfl : t = chosen := by simpa using hchosen
      exact hdescribes.isPart
    · exact Gradient.isPart_of_stop (by simpa using hstop)
  · rw [fixGradient_attributes happlied]

/-- The radius of a circle, or of another round shape with equal sides, is half of the lesser side if this
one can be halved exactly, and else another number. -/
theorem radius_halves_iff (counters : Counters) {e : Element} {isCircle : Bool} {w h : ℚ}
    (hstatic : e.attributes.hasStaticClasses = true)
    (hform : (shapeOf? e.attributes).map ShapeForm.ofName = some (.round isCircle))
    (hsides : isCircle = true ∨ w = h) (hw : HasSide .width e.attributes.classes w)
    (hh : HasSide .height e.attributes.classes h)
    (hnormal : min w h = 0 ∨ 2 * Binary64.leastNormal ≤ min w h)
    (hfixed : (fixShape (fixGradient e.attributes).2 e.elements).verdict = .applied) :
    ∃ radius, (visit counters e).attributes.classes
        = withRadius (fixGradient e.attributes).2.classes radius ∧
      (radiusPixels? radius = some (min w h / 2) ↔ HalvesExactly (min w h)) := by
  obtain ⟨name, hname, hform⟩ := Option.map_eq_some_iff.1 hform
  have hshape : shapeOf? (fixGradient e.attributes).2 = some name := by
    rw [← hname, shapeOf?, shapeOf?, Attributes.text?, Attributes.text?,
      value?_fixGradient (by decide) (by decide)]
  rw [visit_of_static hstatic]
  dsimp only
  rw [fixShape_of_some hshape, hform] at hfixed ⊢
  dsimp only at hfixed ⊢
  obtain ⟨verdict, hverdict, hkept⟩ | ⟨x, y, hsize, -, hnew⟩ :=
    fixRound_cases isCircle (fixGradient e.attributes).2
  · rw [hkept] at hfixed
    exact absurd hfixed hverdict
  · obtain ⟨x', y', hsize', hx, hy⟩ := exists_dimensions hw hh
    rw [dimensions_fixGradient, hsize'] at hsize
    obtain ⟨hxx, hyy⟩ := Dimensions.mk.inj hsize
    obtain rfl := Option.some.inj hxx
    obtain rfl := Option.some.inj hyy
    refine ⟨cornerRadius isCircle x' y', ?_,
      radiusPixels?_cornerRadius_iff hw.nonneg hh.nonneg hx hy hsides hnormal⟩
    rw [hnew, ShapeFix.none, classes_setRadius]

/-- A circle whose radius has four digits. -/
def narrowCircle : Element :=
  ⟨"div", [⟨"className", .text "size-[24.5px]"⟩, ⟨"data-name", .text "Circle"⟩], []⟩

/-- Its radius is half of its size. -/
theorem narrowCircle_radius_halves :
    ∃ radius, (visit [] narrowCircle).attributes.classes
        = withRadius (fixGradient narrowCircle.attributes).2.classes radius ∧
      radiusPixels? radius = some (49 / 2 / 2) := by
  have hside := fun side => @hasSide_of_size "24.5".toList (49 / 2) (by decide) (by decide +kernel) side
  have hnormal : 2 * Binary64.leastNormal ≤ min (49 / 2) (49 / 2) := by
    rw [min_self]
    linarith [Binary64.leastNormal_le_one]
  have hform : (shapeOf? narrowCircle.attributes).map ShapeForm.ofName = some (.round true) := by
    decide +kernel
  have hexact : HalvesExactly (49 / 2) := by
    refine .inr ⟨fun n hn => ?_, 1225, by norm_num, -2, by norm_num [Binary64.decimalValue]⟩
    have hodd : (49 : ℚ) = (4 * n : ℕ) := by
      push_cast
      linarith
    have hodd' : 49 = 4 * n := by exact_mod_cast hodd
    omega
  obtain ⟨radius, hclasses, hhalf⟩ := radius_halves_iff [] (by decide) hform (.inl rfl) (hside .width)
    (hside .height) (.inr hnormal) (by decide +kernel)
  rw [min_self] at hhalf
  exact ⟨radius, hclasses, hhalf.2 hexact⟩

/-- A circle whose radius has seven digits. -/
def wideCircle : Element :=
  ⟨"div", [⟨"className", .text "size-[2000.25px]"⟩, ⟨"data-name", .text "Circle"⟩], []⟩

/-- Its radius is written with six digits, and is less than half of its size. -/
theorem wideCircle_radius_not_halved :
    (∀ side, HasSide side wideCircle.attributes.classes (8001 / 4)) ∧
      (visit [] wideCircle).attributes.classes = ["size-[2000.25px]", "rounded-[1000.12px]"] ∧
      radiusPixels? "rounded-[1000.12px]" = some (25003 / 25) ∧ (25003 / 25 : ℚ) < 8001 / 4 / 2 :=
  ⟨fun side => @hasSide_of_size "2000.25".toList _ (by decide) (by decide +kernel) side,
    by decide +kernel, by decide +kernel, by norm_num⟩

/-! ### Corrections again -/

theorem fixLine_again (as : Attributes) : (fixLine (fixLine as).attributes).verdict ≠ .applied := by
  have hagain : (fixLine as).attributes.classes.map visibleHeight = (fixLine as).attributes.classes := by
    rw [fixLine_eq]
    split
    · assumption
    · rw [ShapeFix.none, classes_setLine, List.map_map]
      exact List.map_congr_left fun t _ => visibleHeight_visibleHeight t
  generalize (fixLine as).attributes = bs at hagain ⊢
  rw [fixLine_eq, if_pos hagain]
  exact Verdict.noConfusion

theorem text?_fixPointed (name : String) (as : Attributes) (children : List Element) :
    (fixPointed name as children).attributes.text? "data-shape" = some name := by
  unfold fixPointed
  dsimp only
  split
  · exact Attributes.text?_set_self ..
  · rename_i hmarked
    simpa using hmarked

/-- A star that is marked, and of which no image is loose, is left alone. -/
theorem fixPointed_again (name : String) (as : Attributes) {children children' : List Element}
    (h : ∀ child ∈ children', isLooseImage child.tag child.attributes = false) :
    (fixPointed name (fixPointed name as children).attributes children').verdict ≠ .applied := by
  have hmarked := text?_fixPointed name as children
  have htight : children'.any (fun child => isLooseImage child.tag child.attributes) = false :=
    List.any_eq_false.2 fun child hchild => Bool.eq_false_iff.1 (h child hchild)
  generalize (fixPointed name as children).attributes = bs at hmarked ⊢
  simp [fixPointed, hmarked, htight]

theorem fixRound_again (isCircle : Bool) (as : Attributes) :
    (fixRound isCircle (fixRound isCircle as).attributes).verdict ≠ .applied := by
  obtain ⟨verdict, hverdict, hkept⟩ | ⟨width, height, hsize, -, hnew⟩ := fixRound_cases isCircle as
  · rw [hkept, ShapeFix.none, hkept]
    exact hverdict
  · have hround := isRounded_cornerRadius isCircle width height
    have hclasses := @classes_setRadius as isCircle width height
    rw [hnew, ShapeFix.none]
    obtain ⟨verdict, hverdict, hkept⟩ | ⟨width', height', hsize', hother, -⟩ := fixRound_cases isCircle
      (as.setClasses (withRadius as.classes (cornerRadius isCircle width height)))
    · rw [hkept]
      exact hverdict
    · -- The sizes are the ones of before, so the radius that is there is the right one.
      rw [hclasses, dimensions_withRadius hround, hsize] at hsize'
      obtain ⟨hwidth, hheight⟩ := Dimensions.mk.inj hsize'
      rw [hclasses, ← Option.some.inj hwidth, ← Option.some.inj hheight,
        filter_isRounded_withRadius hround] at hother
      exact absurd ⟨List.mem_append_right _ (List.mem_singleton_self _), rfl⟩ hother

/-- A shape is corrected once, if none of its images is loose afterwards. -/
theorem fixShape_again (as : Attributes) {children children' : List Element}
    (h : (fixShape as children).forChildren = containImage →
      ∀ child ∈ children', isLooseImage child.tag child.attributes = false) :
    (fixShape (fixShape as children).attributes children').verdict ≠ .applied := by
  have hshape := shapeOf?_fixShape as children
  cases hname : shapeOf? as with
  | none =>
    rw [hname] at hshape
    rw [fixShape_of_none hshape]
    simp [ShapeFix.none]
  | some name =>
    rw [hname] at hshape
    rw [fixShape_of_some hshape]
    rw [fixShape_of_some hname] at h ⊢
    cases hform : ShapeForm.ofName name with
    | line => exact fixLine_again as
    | pointed =>
      rw [hform] at h
      exact fixPointed_again name as (h rfl)
    | round isCircle => exact fixRound_again isCircle as

/-- A gradient is written once. -/
theorem fixGradient_again (as : Attributes) (children : List Element) :
    (fixGradient (fixShape (fixGradient as).2 children).attributes).1 ≠ .applied := by
  by_cases happlied : (fixGradient as).1 = .applied
  · obtain ⟨s, value, -, -, hstyle⟩ := exists_style_of_applied happlied
    refine fixGradient_ne_applied_of_background
      ((value?_fixShape (by decide) (by decide) _ children).trans hstyle) ?_
    rw [Style.has, OrderedMap.has, show (s.set "background" (.text value)).entries.get? "background"
      = _ from Style.get?_set_self ..]
    rfl
  · rw [fixGradient_attributes happlied, fixGradient_verdict_congr
      (value?_fixShape (by decide) (by decide) as children) (filter_isPart_fixShape as children)]
    exact happlied

/-! ### Elements -/

theorem isLooseImage_of_mem {tag : String} {as : Attributes} (h : containClass ∈ as.classes) :
    isLooseImage tag as = false := by
  rw [isLooseImage, List.contains_iff_mem.2 h, Bool.not_true, Bool.and_false]

theorem isLooseImage_containImage (tag : String) (as : Attributes) :
    isLooseImage tag (containImage tag as) = false := by
  unfold containImage
  split
  · refine isLooseImage_of_mem (Attributes.mem_classes_setClasses (by decide) ?_)
    exact List.mem_append_right _ (List.mem_singleton_self _)
  · rename_i hloose
    exact Bool.eq_false_iff.2 hloose

/-- An image that is not loose does not come loose when it is visited. -/
theorem isLooseImage_visit {st : Counters} {tag : String} {as : Attributes} {children : List Node}
    (h : isLooseImage tag as = false) :
    isLooseImage tag (visit st ⟨tag, as, children⟩).attributes = false := by
  cases hstatic : as.hasStaticClasses with
  | false => rwa [visit_of_not_static hstatic]
  | true =>
    rw [isLooseImage, hstatic, Bool.or_true, Bool.and_true, Bool.and_eq_false_iff] at h
    obtain htag | hmem := h
    · rw [isLooseImage, htag, Bool.false_and, Bool.false_and]
    · rw [Bool.not_eq_false', List.contains_iff_mem] at hmem
      exact isLooseImage_of_mem
        ((isWithin.attributes st ⟨tag, as, children⟩).keepsInert _ hmem isInert_containClass)

theorem seesTo_isSettled : SeesTo visit IsSettled where
  noFault := fault_visit
  seen := by
    intro st e children hchildren hstatic'
    cases hstatic : e.attributes.hasStaticClasses with
    | false =>
      rw [visit_of_not_static hstatic] at hstatic'
      exact absurd (hstatic.symm.trans hstatic') Bool.false_ne_true
    | true =>
      rw [visit_of_static hstatic] at hchildren ⊢
      dsimp only at hchildren ⊢
      refine ⟨fixGradient_again e.attributes e.elements, fixShape_again _ fun hcontain => ?_⟩
      intro child hchild
      obtain ⟨st', as, below, heq⟩ := hchildren child hchild
      rw [heq, hcontain]
      exact isLooseImage_visit (isLooseImage_containImage child.tag as)

/-- The pass completes, and so it does when it is run again; then it counts no gradient and no shape that
it has corrected, and leaves the document as it is. -/
theorem corrected_again (d : Document) (c c' : Context) :
    let once := (pass.run d c).document
    (∃ counters, (pass.run d c).result = .ok counters) ∧
      (∃ counters, (pass.run once c').result = .ok counters ∧
        counters.get? "gradientsFixed" = none ∧ counters.get? "shapesFixed" = none) ∧
      (pass.run once c').document = once := by
  intro once
  obtain ⟨hcompleted, hsettled⟩ := isWalk.seen (c := c) seesTo_isSettled d
  obtain ⟨counters, hresult, hcounters⟩ := (isIdleOn_iff once c').2 hsettled
  refine ⟨hcompleted, ⟨counters, hresult, ?_, ?_⟩, ?_⟩
  · exact hcounters.get?_eq_none (by decide)
  · exact hcounters.get?_eq_none (by decide)
  · exact isWalk.document_of_isIdleOn steady ⟨counters, hresult, hcounters⟩

end MarkupTidy.PostFixes
