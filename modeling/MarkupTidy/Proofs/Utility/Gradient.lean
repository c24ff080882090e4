import MarkupTidy.Proofs.Number.Written
import MarkupTidy.Proofs.Text.Words
import MarkupTidy.Utility.Gradient

/-! # Gradients and the tokens that describe them

A gradient is told from a few tokens, its parts, and from nothing else.  Its value lists the colours of
these tokens, place by place, each with a percentage, unless a position is out of range.

* `isPart`: the parts of a gradient; `classify_congr`: what is found depends on them alone.
* `colorsAt`: the colours of the stops at a place; `map_color_collect`: a gradient has all of them.
* `listing`, `entries`: colours with what stands behind them; `isPercentage_entries_iff`: where these are
  percentages.
* `Describes`: the direction or the mark that a gradient is told by, and how its value begins.
* `exists_describes`: the value of a gradient, and the tokens that it stands for. -/

namespace MarkupTidy.Gradient

open MarkupTidy.Binary64 MarkupTidy.Number MarkupTidy.Text

/-! ### Parts of a gradient -/

/-- Whether a token is a part of a gradient: a direction, a radial mark, a stop or a position. -/
def isPart (token : String) : Bool :=
  (directionDegrees? token).isSome || isRadial token || (StopToken.read? token).isSome

theorem isPart_of_direction {token : String} (h : (directionDegrees? token).isSome = true) :
    isPart token = true := by
  rw [isPart, h, Bool.true_or, Bool.true_or]

theorem isPart_of_radial {token : String} (h : isRadial token = true) : isPart token = true := by
  rw [isPart, h, Bool.or_true, Bool.true_or]

theorem isPart_of_stop {token : String} (h : (StopToken.read? token).isSome = true) :
    isPart token = true := by
  rw [isPart, h, Bool.or_true]

/-- The letters that the parts of a gradient begin with. -/
def partLetters : List Char := ['b', 'f', 'v', 't']

theorem head_of_afterText? {c : Char} {start cs rest : List Char}
    (h : afterText? (c :: start) cs = some rest) : cs.head? = some c := by
  rw [afterText?_eq_some.1 h]
  rfl

theorem head_of_direction {token : String} (h : (directionDegrees? token).isSome = true) :
    token.toList.head? = some 'b' := by
  unfold directionDegrees? at h
  dsimp only at h
  split at h
  · rename_i hfront
    exact head_of_afterText? hfront
  · obtain ⟨degrees, hdegrees⟩ := Option.isSome_iff_exists.1 h
    obtain ⟨d, hfront, -⟩ := Option.bind_eq_some_iff.1 hdegrees
    exact head_of_afterText? hfront

theorem head_of_stop {token : String} (h : (StopToken.read? token).isSome = true) :
    ∃ c ∈ ['f', 'v', 't'], token.toList.head? = some c := by
  obtain ⟨stop, hread⟩ := Option.isSome_iff_exists.1 h
  obtain ⟨⟨place, value⟩, hplace, -⟩ := Option.bind_eq_some_iff.1 hread
  unfold readPlace? at hplace
  split at hplace
  · rename_i hfront
    exact ⟨'f', by decide, head_of_afterText? hfront⟩
  · split at hplace
    · rename_i hfront
      exact ⟨'v', by decide, head_of_afterText? hfront⟩
    · obtain ⟨rest, hfront, -⟩ := Option.map_eq_some_iff.1 hplace
      exact ⟨'t', by decide, head_of_afterText? hfront⟩

theorem head_of_isPart {token : String} (h : isPart token = true) :
    ∃ c ∈ partLetters, token.toList.head? = some c := by
  simp only [isPart, Bool.or_eq_true] at h
  obtain (hdirection | hradial) | hstop := h
  · exact ⟨'b', by decide, head_of_direction hdirection⟩
  · refine ⟨'b', by decide, ?_⟩
    simp only [isRadial, Bool.or_eq_true, decide_eq_true_eq] at hradial
    obtain rfl | rfl := hradial <;> rfl
  · obtain ⟨c, hc, hhead⟩ := head_of_stop hstop
    exact ⟨c, List.mem_cons_of_mem _ hc, hhead⟩

/-- A token that describes a stop gives no direction. -/
theorem directionDegrees?_of_stop {token : String} (h : (StopToken.read? token).isSome = true) :
    directionDegrees? token = none := by
  by_contra hdirection
  obtain ⟨c, hc, hhead⟩ := head_of_stop h
  rw [head_of_direction (Option.isSome_iff_ne_none.2 hdirection)] at hhead
  exact absurd (Option.some.inj hhead ▸ hc) (by decide)

/-- A token that begins with another letter is no part of a gradient. -/
theorem isPart_eq_false {token : String} {c : Char} (hhead : token.toList.head? = some c)
    (hc : c ∉ partLetters) : isPart token = false := by
  rw [Bool.eq_false_iff]
  intro hpart
  obtain ⟨c', hc', hhead'⟩ := head_of_isPart hpart
  exact hc (Option.some.inj (hhead.symm.trans hhead') ▸ hc')

theorem find?_filter_isPart {p : String → Bool} (h : ∀ t, p t = true → isPart t = true)
    (tokens : List String) : (tokens.filter isPart).find? p = tokens.find? p := by
  rw [List.find?_filter]
  congr 1
  funext t
  cases hp : p t with
  | false => simp
  | true => simp [h t hp]

theorem filterMap_filter_isPart (tokens : List String) :
    (tokens.filter isPart).filterMap StopToken.read? = tokens.filterMap StopToken.read? := by
  rw [List.filterMap_filter]
  refine List.filterMap_congr fun t _ => ?_
  split
  · rfl
  · rename_i hpart
    have hstop := mt isPart_of_stop hpart
    rw [Bool.not_eq_true, Option.isSome_eq_false_iff, Option.isNone_iff_eq_none] at hstop
    exact hstop.symm

/-- What is found of a gradient depends on its parts alone. -/
theorem classify_filter_isPart (tokens : List String) :
    classify (tokens.filter isPart) = classify tokens := by
  have hused : usedTokens (tokens.filter isPart) = usedTokens tokens := by
    rw [usedTokens, List.filter_filter]
    refine List.filter_congr fun t _ => ?_
    cases hstop : (StopToken.read? t).isSome with
    | false => rfl
    | true => rw [isPart_of_stop hstop, Bool.and_self]
  unfold classify collect
  rw [find?_filter_isPart fun _ => isPart_of_direction,
    find?_filter_isPart fun _ => isPart_of_radial, filterMap_filter_isPart, hused]

theorem classify_congr {tokens tokens' : List String}
    (h : tokens'.filter isPart = tokens.filter isPart) : classify tokens' = classify tokens := by
  rw [← classify_filter_isPart, h, classify_filter_isPart]

/-! ### Stops in the order of their places -/

/-- The colours of the stops at a place, in the order of their tokens. -/
def colorsAt (place : StopPlace) (tokens : List String) : List (List Char) :=
  tokens.filterMap fun t =>
    match StopToken.read? t with
    | some (.color p color) => if p = place then some color else none
    | _ => none

/-- The positions at a place, in the order of their tokens. -/
def positionsAt (place : StopPlace) (tokens : List String) : List Binary64 :=
  tokens.filterMap fun t =>
    match StopToken.read? t with
    | some (.position p x) => if p = place then some x else none
    | _ => none

/-- The positions that are taken: as many as there are colours. -/
def usedPositionsAt (place : StopPlace) (tokens : List String) : List Binary64 :=
  (positionsAt place tokens).take (colorsAt place tokens).length

theorem stopsAt_eq (place : StopPlace) (tokens : List String) :
    stopsAt place (tokens.filterMap StopToken.read?)
      = placeStops (colorsAt place tokens) (positionsAt place tokens) := by
  rw [stopsAt, List.filterMap_filterMap, List.filterMap_filterMap, colorsAt, positionsAt]
  congr 1 <;>
  · refine List.filterMap_congr fun t _ => ?_
    cases StopToken.read? t with
    | none => rfl
    | some stop => cases stop <;> rfl

theorem map_color_placeStops (colors : List (List Char)) (positions : List Binary64) :
    (placeStops colors positions).map Stop.color = colors := by
  fun_induction placeStops colors positions with
  | case1 => rfl
  | case2 c colors ih => rw [List.map_cons, ih]
  | case3 c colors p positions ih => rw [List.map_cons, ih]

theorem filterMap_position?_placeStops (colors : List (List Char)) (positions : List Binary64) :
    (placeStops colors positions).filterMap Stop.position? = positions.take colors.length := by
  fun_induction placeStops colors positions with
  | case1 => rfl
  | case2 c colors ih => rw [List.filterMap_cons_none rfl, ih, List.take_nil, List.take_nil]
  | case3 c colors p positions ih =>
    rw [List.filterMap_cons_some (f := Stop.position?) rfl, ih, List.length_cons, List.take_succ_cons]

/-- The stops of a gradient have the colours of all tokens that name one, place by place. -/
theorem map_color_collect (tokens : List String) : (collect tokens).map Stop.color
    = colorsAt .first tokens ++ colorsAt .between tokens ++ colorsAt .last tokens := by
  simp only [collect, stopsAt_eq, List.map_append, map_color_placeStops]

theorem filterMap_position?_collect (tokens : List String) :
    (collect tokens).filterMap Stop.position? = usedPositionsAt .first tokens
      ++ usedPositionsAt .between tokens ++ usedPositionsAt .last tokens := by
  simp only [collect, stopsAt_eq, List.filterMap_append, filterMap_position?_placeStops, usedPositionsAt]

/-- A number with a percent sign is a position. -/
theorem read?_first_position {number : List Char} {x : Binary64}
    (h : isUnsignedNumber number = true) (hread : Binary64.read? number = some x) :
    StopToken.read? (String.ofList ("from-".toList ++ (number ++ ['%']))) = some (.position .first x) := by
  have hplace : readPlace? ("from-".toList ++ (number ++ ['%'])) = some (.first, number ++ ['%']) := rfl
  have hlast : (number ++ ['%']).getLast? = some '%' := List.getLast?_concat
  have hend : endsWith [']'] (number ++ ['%']) = false := by
    rw [Bool.eq_false_iff, Ne, endsWith, List.isSuffixOf_iff_suffix]
    rintro ⟨front, heq⟩
    exact absurd (List.append_inj_right' heq rfl) (by decide)
  have hpercent : endsWith ['%'] (number ++ ['%']) = true :=
    List.isSuffixOf_iff_suffix.2 ⟨number, rfl⟩
  have hcolor : namedColors.contains (number ++ ['%']) = false := by
    have hcolors : ∀ color ∈ namedColors, color.getLast? ≠ some '%' := by decide
    rw [Bool.eq_false_iff, Ne, List.contains_iff_mem]
    exact fun hmem => hcolors _ hmem hlast
  rw [StopToken.read?, String.toList_ofList, hplace]
  dsimp only [Option.bind_eq_bind, Option.bind_some]
  rw [isArbitrary, hend, hcolor, Bool.and_false, Bool.false_and, Bool.or_false,
    if_neg Bool.false_ne_true, if_pos hpercent, List.dropLast_concat, isPlainNumber_and_not_minus, if_pos h,
    hread, Option.map_some]

/-- A position that is read is a number that is not below zero, rounded. -/
theorem exists_roundsTo_of_read? {token : String} {place : StopPlace} {x : Binary64}
    (h : StopToken.read? token = some (.position place x)) : ∃ q, RoundsTo q x := by
  simp only [StopToken.read?, Option.bind_eq_bind, Option.bind_eq_some_iff] at h
  obtain ⟨⟨place', value⟩, -, h⟩ := h
  dsimp only at h
  split at h
  · exact absurd h (by simp)
  · split at h
    · split at h
      · rename_i hnumber
        rw [isPlainNumber_and_not_minus] at hnumber
        obtain ⟨y, hread, heq⟩ := Option.map_eq_some_iff.1 h
        obtain ⟨-, rfl⟩ := StopToken.position.inj heq
        rw [read?_of_isUnsignedNumber hnumber] at hread
        obtain ⟨decimal, -, rfl⟩ := Option.map_eq_some_iff.1 hread
        exact ⟨_, roundsTo_ofDecimal _ _⟩
      · exact absurd h (by simp)
    · exact absurd h (by simp)

theorem exists_roundsTo_of_mem_usedPositionsAt {tokens : List String} {place : StopPlace}
    {x : Binary64} (h : x ∈ usedPositionsAt place tokens) : ∃ q, RoundsTo q x := by
  obtain ⟨token, -, hposition⟩ := List.mem_filterMap.1 (List.mem_of_mem_take h)
  split at hposition
  · rename_i hread
    split at hposition
    · exact Option.some.inj hposition ▸ exists_roundsTo_of_read? hread
    · exact absurd hposition (by simp)
  · exact absurd hposition (by simp)

theorem mem_positions_collect_iff {tokens : List String} {x : Binary64} :
    x ∈ (collect tokens).filterMap Stop.position? ↔ ∃ place, x ∈ usedPositionsAt place tokens := by
  rw [filterMap_position?_collect, List.mem_append, List.mem_append]
  constructor
  · rintro ((h | h) | h) <;> exact ⟨_, h⟩
  · rintro ⟨place, h⟩
    cases place with
    | first => exact .inl (.inl h)
    | between => exact .inl (.inr h)
    | last => exact .inr h

/-! ### Percentages -/

/-- A decimal number and a percent sign. -/
def IsPercentage (cs : List Char) : Prop :=
  ∃ number, cs = number ++ ['%'] ∧ (written? number).isSome = true

theorem isPercentage_append_iff {number : List Char} :
    IsPercentage (number ++ ['%']) ↔ (written? number).isSome = true := by
  constructor
  · rintro ⟨number', heq, hread⟩
    rwa [List.append_cancel_right heq]
  · exact fun hread => ⟨number, rfl, hread⟩

/-- A position that is not out of range is written as a percentage, and no other is. -/
theorem isPercentage_percentText_iff {q : ℚ} {x : Binary64} (h : RoundsTo q x) :
    IsPercentage (percentText x) ↔ x ≠ .infinity false := by
  rw [percentText, isPercentage_append_iff]
  cases h with
  | finite hkept _ =>
    obtain ⟨m, e, hkept', heq⟩ := exists_finite_roundPlaces hkept 2
    rw [heq]
    exact iff_of_true (isSome_written?_wholeOr hkept') (by simp)
  | overflow _ => exact iff_of_false (by decide +kernel) (by simp)

/-- An even position among stops is never out of range. -/
theorem isPercentage_even {last index : ℕ} (h : index ≤ last) :
    IsPercentage (percentText (ofRatio false (100 * index) last)) := by
  obtain rfl | hlast := last.eq_zero_or_pos
  · rw [Nat.le_zero.1 h]
    have hzero : RoundsTo 0 (ofRatio false (100 * 0) 0) := .finite isKept_zero (by simp [rounded_zero])
    exact (isPercentage_percentText_iff hzero).2 (by simp [ofRatio])
  · have hround := roundsTo_ofRatio (100 * index) hlast
    have hlast' : (0 : ℚ) < last := by exact_mod_cast hlast
    have hle : ((100 * index : ℕ) / last : ℚ) ≤ 2 ^ (7 : ℤ) := by
      have hindex : (index : ℚ) ≤ last := by exact_mod_cast h
      rw [div_le_iff₀ hlast']
      push_cast
      linarith
    have hpow : (2 : ℚ) ^ (7 : ℤ) ≤ 2 ^ (1023 : ℤ) := zpow_le_zpow_right₀ one_le_two (by norm_num)
    obtain ⟨m, e, -, heq⟩ :=
      hround.exists_finite (div_nonneg (Nat.cast_nonneg _) hlast'.le) (hle.trans hpow)
    exact (isPercentage_percentText_iff hround).2 (by simp [heq])

/-! ### Listings -/

/-- Colours with what stands behind them, as they are listed. -/
def listing (entries : List (List Char × List Char)) : List Char :=
  List.intercalate [',', ' '] (entries.map fun entry => entry.1 ++ ' ' :: entry.2)

/-- What is listed of stops; one whose position is open is placed evenly. -/
def entries (stops : List Stop) : List (List Char × List Char) :=
  stops.zipIdx.map fun (stop, index) => (stop.color,
    percentText (stop.position?.getD (ofRatio false (100 * index) (stops.length - 1))))

theorem stopsText_eq (stops : List Stop) : stopsText stops = listing (entries stops) := by
  rw [stopsText, listing, entries, List.map_map]
  rfl

theorem map_fst_entries (stops : List Stop) : (entries stops).map Prod.fst = stops.map Stop.color := by
  rw [entries, List.map_map]
  have hcolor : (Prod.fst ∘ fun ((stop, index) : Stop × ℕ) => (stop.color,
      percentText (stop.position?.getD (ofRatio false (100 * index) (stops.length - 1)))))
        = Stop.color ∘ Prod.fst := rfl
  rw [hcolor, ← List.map_map, List.zipIdx_map_fst]

/-- A listing of stops holds percentages exactly if no position that is taken is out of range. -/
theorem isPercentage_entries_iff (tokens : List String) :
    (∀ entry ∈ entries (collect tokens), IsPercentage entry.2) ↔
      ∀ place, .infinity false ∉ usedPositionsAt place tokens := by
  rw [← not_exists, ← mem_positions_collect_iff]
  have hround : ∀ x ∈ (collect tokens).filterMap Stop.position?, ∃ q, RoundsTo q x := fun x hx =>
    (mem_positions_collect_iff.1 hx).elim fun _ => exists_roundsTo_of_mem_usedPositionsAt
  generalize collect tokens = stops at hround ⊢
  have hentry : ∀ stop ∈ stops, ∀ index < stops.length,
      (IsPercentage (percentText (stop.position?.getD (ofRatio false (100 * index) (stops.length - 1)))) ↔
        stop.position? ≠ some (.infinity false)) := by
    intro stop hstop index hindex
    cases hposition : stop.position? with
    | none => exact iff_of_true (isPercentage_even (Nat.le_sub_one_of_lt hindex)) (by simp)
    | some x =>
      obtain ⟨q, hq⟩ := hround x (List.mem_filterMap.2 ⟨stop, hstop, hposition⟩)
      rw [Option.getD_some, isPercentage_percentText_iff hq, Ne, Ne, Option.some.injEq]
  constructor
  · intro hall hmem
    obtain ⟨stop, hstop, hposition⟩ := List.mem_filterMap.1 hmem
    obtain ⟨index, hindex, rfl⟩ := List.getElem_of_mem hstop
    have hpair : (stops[index], index) ∈ stops.zipIdx :=
      List.mk_mem_zipIdx_iff_getElem?.2 (List.getElem?_eq_getElem hindex)
    exact (hentry _ hstop index hindex).1 (hall _ (List.mem_map.2 ⟨_, hpair, rfl⟩)) hposition
  · intro hall entry hmem
    obtain ⟨⟨stop, index⟩, hpair, rfl⟩ := List.mem_map.1 hmem
    rw [List.mk_mem_zipIdx_iff_getElem?] at hpair
    obtain ⟨hindex, -⟩ := List.getElem?_eq_some_iff.1 hpair
    have hstop := List.mem_of_getElem? hpair
    refine (hentry stop hstop index hindex).2 fun hposition => hall ?_
    exact List.mem_filterMap.2 ⟨stop, hstop, hposition⟩

/-! ### What a gradient stands for -/

/-- The first direction of tokens, or else the first mark of a radial gradient, and how the value
begins. -/
inductive Describes (tokens : List String) : String → List Char → Prop where
  | linear {direction : String} {degrees : ℕ}
      (h : tokens.find? (fun t => (directionDegrees? t).isSome) = some direction)
      (hdegrees : directionDegrees? direction = some degrees) :
      Describes tokens direction
        ("linear-gradient(".toList ++ (toString degrees).toList ++ "deg, ".toList)
  | radial {mark : String} (h : ∀ t ∈ tokens, directionDegrees? t = none)
      (hmark : tokens.find? isRadial = some mark) :
      Describes tokens mark "radial-gradient(circle, ".toList

theorem Describes.isPart {tokens : List String} {chosen : String} {front : List Char}
    (h : Describes tokens chosen front) : isPart chosen = true := by
  cases h with
  | linear h hdegrees => exact isPart_of_direction (hdegrees ▸ rfl)
  | radial h hmark => exact isPart_of_radial (List.find?_some hmark)

/-- The value of a gradient, and the tokens that it stands for. -/
theorem exists_describes {tokens used : List String} {value : String}
    (h : classify tokens = .found value used) : ∃ chosen front, Describes tokens chosen front ∧
      value = String.ofList (front ++ listing (entries (collect tokens)) ++ [')']) ∧
      ∀ t ∈ tokens, t ∈ used ↔ t = chosen ∨ (StopToken.read? t).isSome = true := by
  have hused : ∀ chosen, ∀ t ∈ tokens, t ∈ chosen :: usedTokens tokens ↔
      t = chosen ∨ (StopToken.read? t).isSome = true := by
    intro chosen t ht
    rw [List.mem_cons, usedTokens, List.mem_filter, and_iff_right ht]
  unfold classify at h
  dsimp only at h
  rw [stopsText_eq] at h
  split at h
  · rename_i direction hdirection
    have hsome : (directionDegrees? direction).isSome = true := by
      simpa using List.find?_some hdirection
    obtain ⟨degrees, hdegrees⟩ := Option.isSome_iff_exists.1 hsome
    split at h
    · exact Finding.noConfusion h
    · split at h
      · exact Finding.noConfusion h
      · obtain ⟨rfl, rfl⟩ := Finding.found.inj h
        refine ⟨direction, _, .linear hdirection hdegrees, ?_, hused direction⟩
        rw [hdegrees, Option.getD_some]
  · rename_i hnone
    have hlinear : ∀ t ∈ tokens, directionDegrees? t = none := fun t ht => by
      simpa using List.find?_eq_none.1 hnone t ht
    split at h
    · exact Finding.noConfusion h
    · rename_i mark hmark
      split at h
      · exact Finding.noConfusion h
      · obtain ⟨rfl, rfl⟩ := Finding.found.inj h
        exact ⟨mark, _, .radial hlinear hmark, rfl, hused mark⟩

end MarkupTidy.Gradient
