import MarkupTidy.Proofs.Number.Equality
import MarkupTidy.Proofs.Utility.Absorbed
import MarkupTidy.Utility.Shape

/-! # Sizes of optimized tokens

A size is read from a token as a step of four pixels, or as an arbitrary value without a sign.  The step
`px` is no number, so that a size of one pixel is not read any more once it has been optimized; and a zero
with a sign is read only then.

Of several tokens the last one counts, but repetitions are dropped where they stand last.  A square takes
the place of its last width and drops its last height.  So tokens that do not agree about a side can come
to give it another size.

* `readSize?_optimizeToken_iff`: the tokens whose size stays what it is.
* `dimensions_eq`: the sizes of the two sides; `sizeOn?`: what one token gives.
* `mem_sizes_optimized_iff`: the sizes that optimized tokens give.
* `KeepsDimensions`: lists that give the same dimensions when they are optimized;
  `keepsDimensions_of_agree`, `keepsDimensions_of_distinct`: such lists.
* `keepsDimensions_iff`: the tokens of which all lists keep their dimensions. -/

namespace MarkupTidy

open MarkupTidy.Markup MarkupTidy.Number MarkupTidy.Text

/-! ### Sizing tokens -/

/-- The utilities that give a size. -/
def sizeUtilities : List (String × Axis) :=
  [("size", .both), ("w", .width), ("h", .height)]

theorem readAxis?_of_mem {utility : String} {axis : Axis} (h : (utility, axis) ∈ sizeUtilities)
    (rest : List Char) : readAxis? (utility.toList ++ '-' :: rest) = some (axis, rest) := by
  simp only [sizeUtilities, List.mem_cons, List.not_mem_nil, or_false, Prod.mk.injEq] at h
  obtain ⟨rfl, rfl⟩ | ⟨rfl, rfl⟩ | ⟨rfl, rfl⟩ := h <;> rfl

/-- The letters that a sizing token begins with. -/
def sizeLetters : List Char := ['s', 'w', 'h']

theorem head_of_readAxis? {cs : List Char} {size : Axis × List Char} (h : readAxis? cs = some size) :
    ∃ c ∈ sizeLetters, cs.head? = some c := by
  unfold readAxis? at h
  split at h
  · rename_i hsize
    rw [afterText?_eq_some] at hsize
    exact ⟨'s', by decide, hsize ▸ rfl⟩
  · split at h
    · rename_i hwidth
      rw [afterText?_eq_some] at hwidth
      exact ⟨'w', by decide, hwidth ▸ rfl⟩
    · obtain ⟨rest, hheight, -⟩ := Option.map_eq_some_iff.1 h
      rw [afterText?_eq_some] at hheight
      exact ⟨'h', by decide, hheight ▸ rfl⟩

/-- A token that begins with another letter has no size. -/
theorem readSize?_eq_none {token : String} {c : Char} (hhead : token.toList.head? = some c)
    (hc : c ∉ sizeLetters) : readSize? token = none := by
  have haxis : readAxis? (dropFinalNewline token.toList) = none := by
    by_contra hne
    obtain ⟨size, hsize⟩ := Option.ne_none_iff_exists'.1 hne
    obtain ⟨c', hc', hhead'⟩ := head_of_readAxis? hsize
    obtain ⟨rest, hrest⟩ := List.head?_eq_some_iff.1 hhead'
    obtain heq | heq := eq_dropFinalNewline_or token.toList <;>
    · rw [heq, hrest] at hhead
      exact hc (Option.some.inj hhead ▸ hc')
  rw [readSize?, haxis]
  rfl

/-! ### Arbitrary sizes -/

theorem dropFinalNewline_append_cons {c : Char} (hc : c ≠ '\n') (front after : List Char) :
    dropFinalNewline (front ++ c :: after) = front ++ c :: dropFinalNewline after := by
  cases after with
  | nil => simp [dropFinalNewline, hc]
  | cons d rest =>
    have hlast : (front ++ c :: d :: rest).getLast? = (d :: rest).getLast? := by
      rw [List.getLast?_append_cons, List.getLast?_cons_cons]
    unfold dropFinalNewline
    rw [hlast]
    split
    · simp
    · rfl

/-- The text of a token with an arbitrary value in pixels. -/
theorem PixelToken.eq_of_read? {cs : List Char} {utility : String} {pixels : Binary64}
    (h : PixelToken.read? cs = some ⟨utility, pixels⟩) : ∃ inside number,
      cs = utility.toList ++ '-' :: '[' :: inside ∧
      dropFinalNewline inside = number ++ "px]".toList ∧ isPlainNumber number = true ∧
      Binary64.read? number = some pixels := by
  unfold PixelToken.read? at h
  obtain ⟨⟨head, inside⟩, hcut, h⟩ := Option.bind_eq_some_iff.1 h
  dsimp only at h
  split at h
  · rename_i hform
    simp only [Bool.and_eq_true, decide_eq_true_eq] at hform
    obtain ⟨⟨hlast, -⟩, hend⟩ := hform
    obtain ⟨number, hnumber⟩ := List.isSuffixOf_iff_suffix.1 hend
    have htake : (dropFinalNewline inside).take ((dropFinalNewline inside).length - 3) = number := by
      rw [← hnumber, List.length_append]
      exact List.take_left
    rw [htake] at h
    split at h
    · rename_i hplain
      obtain ⟨x, hread, heq⟩ := Option.map_eq_some_iff.1 h
      obtain ⟨rfl, rfl⟩ := PixelToken.mk.inj heq
      obtain ⟨name, rfl⟩ := List.getLast?_eq_some_iff.1 hlast
      refine ⟨inside, number, ?_, hnumber.symm, hplain, hread⟩
      rw [List.dropLast_concat, String.toList_ofList, (eq_of_cutAt? hcut).1, List.append_assoc]
      rfl
    · exact absurd h (by simp)
  · exact absurd h (by simp)

theorem readPixels?_of_pixels (number : List Char) :
    readPixels? ('[' :: (number ++ "px]".toList)) = readPlain? number := by
  have hstart : startsWith ['['] ('[' :: (number ++ "px]".toList)) = true := by
    simp [startsWith, List.isPrefixOf]
  have hend : endsWith "px]".toList ('[' :: (number ++ "px]".toList)) = true :=
    List.isSuffixOf_iff_suffix.2 ⟨'[' :: number, rfl⟩
  rw [readPixels?, hstart, hend, List.tail_cons, List.length_cons, List.length_append]
  exact congrArg readPlain? List.take_left

/-- The size of a token with an arbitrary value is not read if that has a minus sign. -/
theorem readSize?_of_read? {token utility : String} {axis : Axis} {pixels : Binary64}
    (h : PixelToken.read? token.toList = some ⟨utility, pixels⟩)
    (haxis : (utility, axis) ∈ sizeUtilities) : ∃ negative : Bool,
      readSize? token = (if negative then none else some (axis, pixels)) ∧
        (pixels = .nan ∨ pixels.isNegative = negative) := by
  obtain ⟨inside, number, htoken, hinside, hplain, hread⟩ := PixelToken.eq_of_read? h
  refine ⟨startsWith ['-'] number, ?_, Binary64.isNegative_read? hplain hread⟩
  have hvalue : readSize? token = (readPlain? number).bind fun x => some (axis, x) := by
    rw [readSize?, htoken, List.append_cons, dropFinalNewline_append_cons (by decide),
      ← List.append_cons, hinside, readAxis?_of_mem haxis]
    dsimp only [Option.bind_eq_bind, Option.bind_some]
    rw [readPixels?_of_pixels]
  rw [hvalue, readPlain?, hplain, hread]
  cases startsWith ['-'] number <;> rfl

/-! ### Sizes that change -/

/-- A token with an arbitrary size whose standard step is read as another size: one pixel, or zero with a
minus sign. -/
def IsUnsteady (token : String) : Prop :=
  ∃ utility ∈ sizeUtilities.map Prod.fst, ∃ pixels,
    PixelToken.read? token.toList = some ⟨utility, pixels⟩ ∧
      (pixels = .ofNat 1 ∨ pixels = .finite true 0 Binary64.leastExponent)

/-- The size that a standard step gives; the step of one pixel gives none. -/
theorem readSize?_step : ∀ size ∈ sizeUtilities, ∀ entry ∈ spacingScale,
    readSize? (size.1 ++ "-" ++ entry.2)
      = if entry.1 = 1 then none else some (size.2, .ofNat entry.1) := by
  decide +kernel

theorem ofNat_eq_one : ∀ entry ∈ spacingScale, Binary64.ofNat entry.1 = .ofNat 1 → entry.1 = 1 := by
  decide +kernel

theorem exists_of_lookup {α : Type} {entries : List (Nat × α)} {x : Binary64} {value : α}
    (h : Binary64.lookup entries x = some value) :
    ∃ n, (n, value) ∈ entries ∧ x.same (.ofNat n) = true := by
  obtain ⟨entry, hfind, rfl⟩ := Option.map_eq_some_iff.1 h
  have hsame := List.find?_some hfind
  exact ⟨entry.1, List.mem_of_find?_eq_some hfind, hsame⟩

/-- An arbitrary size becomes the step of the spacing scale that has as many pixels. -/
theorem optimizeToken_of_size {token utility : String} {pixels : Binary64}
    (h : PixelToken.read? token.toList = some ⟨utility, pixels⟩)
    (hutility : utility ∈ sizeUtilities.map Prod.fst) :
    optimizeToken token = match Binary64.lookup spacingScale pixels.abs with
      | none => token
      | some step => if pixels.below (.ofNat 0) then token else utility ++ "-" ++ step := by
  have hname : ∀ u ∈ sizeUtilities.map Prod.fst, u ≠ "rounded" ∧ spacingUtilities.contains u = true ∧
      negatableUtilities.contains u = false := by
    decide
  obtain ⟨hround, hspacing, hnegatable⟩ := hname utility hutility
  unfold optimizeToken
  rw [h]
  dsimp only
  rw [if_neg hround, if_pos hspacing, hnegatable]
  cases Binary64.lookup spacingScale pixels.abs with
  | none => rfl
  | some step =>
    dsimp only
    rw [if_neg Bool.false_ne_true]

theorem readSize?_optimizeToken_of_size {token utility : String} {axis : Axis} {pixels : Binary64}
    (h : PixelToken.read? token.toList = some ⟨utility, pixels⟩)
    (haxis : (utility, axis) ∈ sizeUtilities) :
    readSize? (optimizeToken token) = readSize? token ↔
      ¬ (pixels = .ofNat 1 ∨ pixels = .finite true 0 Binary64.leastExponent) := by
  obtain ⟨inside, number, -, -, -, hread⟩ := PixelToken.eq_of_read? h
  obtain ⟨negative, hsize, hsign⟩ := readSize?_of_read? h haxis
  have hcanonical := Binary64.isCanonical_read? hread
  rw [optimizeToken_of_size h (List.mem_map_of_mem haxis)]
  cases hlookup : Binary64.lookup spacingScale pixels.abs with
  | none =>
    refine iff_of_true rfl ?_
    rintro (rfl | rfl) <;> exact absurd hlookup (by decide +kernel)
  | some step =>
    dsimp only
    cases hbelow : pixels.below (.ofNat 0) with
    | true =>
      refine iff_of_true rfl ?_
      rintro (rfl | rfl) <;> exact absurd hbelow (by decide +kernel)
    | false =>
      obtain ⟨n, hentry, hsame⟩ := exists_of_lookup hlookup
      have hnan : pixels ≠ .nan := by
        rintro rfl
        exact absurd hsame (by simp [Binary64.abs, Binary64.same])
      have hnegative := hsign.resolve_left hnan
      rw [if_neg Bool.false_ne_true, readSize?_step _ haxis _ hentry, hsize, ← hnegative]
      dsimp only
      obtain rfl | rfl := Binary64.eq_of_same_abs hcanonical hsame hbelow
      · rw [Binary64.isNegative_ofNat, if_neg Bool.false_ne_true]
        by_cases hn : n = 1
        · simp [hn]
        · refine iff_of_true (if_neg hn) ?_
          rintro (hone | hzero)
          · exact hn (ofNat_eq_one _ hentry hone)
          · exact Bool.false_ne_true
              ((Binary64.isNegative_ofNat n).symm.trans (congrArg Binary64.isNegative hzero))
      · have hn : n ≠ 1 := by
          rintro rfl
          exact absurd hsame (by decide +kernel)
        simp [hn, Binary64.isNegative]

/-- No other utility that has standard steps gives a size. -/
theorem readSize?_optimizeToken_of_other {token utility : String} {pixels : Binary64}
    (h : PixelToken.read? token.toList = some ⟨utility, pixels⟩)
    (hutility : utility ∉ sizeUtilities.map Prod.fst) :
    readSize? (optimizeToken token) = readSize? token := by
  have hletters : ∀ u ∈ "rounded" :: spacingUtilities, u ∉ sizeUtilities.map Prod.fst →
      u.toList.head?.any (fun c => c ∉ sizeLetters) = true := by
    decide
  have hradii : ∀ radius ∈ radiusScale.map Prod.snd, radius.toList.head? = some 'r' := by
    decide
  obtain ⟨inside, -, htoken, -⟩ := PixelToken.eq_of_read? h
  -- Neither the token nor its step begins with the letter of a size.
  have hother : utility ∈ "rounded" :: spacingUtilities → ∀ t rest,
      t.toList = utility.toList ++ rest → readSize? t = none := by
    intro hmem t rest ht
    obtain ⟨c, hhead, hc⟩ := (Option.any_eq_true ..).1 (hletters utility hmem hutility)
    obtain ⟨tail, htail⟩ := List.head?_eq_some_iff.1 hhead
    refine readSize?_eq_none (c := c) ?_ (of_decide_eq_true hc)
    rw [ht, htail]
    rfl
  unfold optimizeToken
  rw [h]
  dsimp only
  split
  · rename_i hround
    cases hlookup : Binary64.lookup radiusScale pixels with
    | none => rfl
    | some radius =>
      rw [Option.getD_some, hother (hround ▸ List.mem_cons_self) token _ htoken]
      exact readSize?_eq_none (hradii radius (mem_of_lookup hlookup)) (by decide)
  · split
    · rename_i hspacing
      have hmem := List.mem_cons_of_mem "rounded" (List.contains_iff_mem.1 hspacing)
      rw [hother hmem token _ htoken]
      split
      · exact hother hmem token _ htoken
      · split
        · split
          · exact readSize?_eq_none (c := '-') (by simp) (by decide)
          · exact hother hmem token _ htoken
        · exact hother hmem _ _ (by rw [String.toList_append, String.toList_append, List.append_assoc])
    · rfl

/-- The size of a token stays what it is unless the token is unsteady. -/
theorem readSize?_optimizeToken_iff {token : String} :
    readSize? (optimizeToken token) = readSize? token ↔ ¬ IsUnsteady token := by
  cases hread : PixelToken.read? token.toList with
  | none =>
    have hkept : optimizeToken token = token := by
      unfold optimizeToken
      rw [hread]
    rw [hkept]
    refine iff_of_true rfl ?_
    rintro ⟨_, _, _, hsome, _⟩
    exact absurd (hread.symm.trans hsome) (by simp)
  | some value =>
    obtain ⟨utility, pixels⟩ := value
    have hunsteady : IsUnsteady token ↔ utility ∈ sizeUtilities.map Prod.fst ∧
        (pixels = .ofNat 1 ∨ pixels = .finite true 0 Binary64.leastExponent) := by
      constructor
      · rintro ⟨utility', hutility, pixels', hread', hpixels⟩
        obtain ⟨rfl, rfl⟩ := PixelToken.mk.inj (Option.some.inj (hread.symm.trans hread'))
        exact ⟨hutility, hpixels⟩
      · rintro ⟨hutility, hpixels⟩
        exact ⟨utility, hutility, pixels, hread, hpixels⟩
    rw [hunsteady]
    by_cases hutility : utility ∈ sizeUtilities.map Prod.fst
    · obtain ⟨⟨_, axis⟩, haxis, rfl⟩ := List.mem_map.1 hutility
      rw [and_iff_right hutility]
      exact readSize?_optimizeToken_of_size hread haxis
    · exact iff_of_true (readSize?_optimizeToken_of_other hread hutility) fun h => hutility h.1

/-! ### Sides -/

/-- The size that a token gives to a side. -/
def sizeOn? (side : Axis) (token : String) : Option Binary64 :=
  (readSize? token).bind fun size =>
    if size.1 = .both ∨ size.1 = side then some size.2 else none

/-- The sizes that tokens give to a side, in order. -/
def sizesOn (side : Axis) (tokens : List String) : List Binary64 :=
  tokens.filterMap (sizeOn? side)

theorem mem_sizesOn {side : Axis} {tokens : List String} {pixels : Binary64} :
    pixels ∈ sizesOn side tokens ↔ ∃ t ∈ tokens, sizeOn? side t = some pixels :=
  List.mem_filterMap

theorem foldl_set_eq (d : Dimensions) (tokens : List String) :
    (tokens.filterMap readSize?).foldl Dimensions.set d
      = ⟨(sizesOn .width tokens).getLast?.or d.width?,
          (sizesOn .height tokens).getLast?.or d.height?⟩ := by
  induction tokens generalizing d with
  | nil => rfl
  | cons t rest ih =>
    unfold sizesOn at ih ⊢
    rw [List.filterMap_cons, List.filterMap_cons, List.filterMap_cons]
    cases hsize : readSize? t with
    | none =>
      simp only [sizeOn?, hsize, Option.bind_none]
      exact ih d
    | some size =>
      obtain ⟨axis, pixels⟩ := size
      have hlast (l : List Binary64) : (pixels :: l).getLast? = l.getLast?.or (some pixels) := by
        rw [List.getLast?_cons]
        cases l.getLast? <;> rfl
      rw [List.foldl_cons, ih]
      cases axis <;> simp [sizeOn?, hsize, Dimensions.set, hlast]

/-- The dimensions are the last sizes that are given to the sides. -/
theorem dimensions_eq (tokens : List String) :
    dimensions tokens = ⟨(sizesOn .width tokens).getLast?, (sizesOn .height tokens).getLast?⟩ := by
  rw [dimensions, foldl_set_eq, Option.or_none, Option.or_none]

/-- Tokens without a size can be left out. -/
theorem dimensions_filter {p : String → Bool} {tokens : List String}
    (h : ∀ t ∈ tokens, p t = false → readSize? t = none) :
    dimensions (tokens.filter p) = dimensions tokens := by
  have hsizes : (tokens.filter p).filterMap readSize? = tokens.filterMap readSize? := by
    rw [List.filterMap_filter]
    refine List.filterMap_congr fun t ht => ?_
    split
    · rfl
    · rename_i hleft
      exact (h t ht (Bool.eq_false_iff.2 hleft)).symm
  rw [dimensions, hsizes, dimensions]

theorem dimensions_singleton (token : String) :
    dimensions [token] = (readSize? token).toList.foldl Dimensions.set ⟨none, none⟩ := by
  rw [dimensions, List.filterMap_cons]
  cases readSize? token <;> rfl

/-- The dimensions that a single token gives tell its size. -/
theorem readSize?_eq_of_dimensions {token token' : String}
    (h : dimensions [token] = dimensions [token']) : readSize? token = readSize? token' := by
  rw [dimensions_singleton, dimensions_singleton] at h
  generalize readSize? token = size? at h ⊢
  generalize readSize? token' = size?' at h ⊢
  match size?, size?' with
  | none, none => rfl
  | none, some (axis, _) => cases axis <;> exact absurd h (by simp [Dimensions.set])
  | some (axis, _), none => cases axis <;> exact absurd h (by simp [Dimensions.set])
  | some (axis, _), some (axis', _) => cases axis <;> cases axis' <;> simp_all [Dimensions.set]

theorem getLast?_sizesOn_of_dimensions {tokens tokens' : List String}
    (h : dimensions tokens = dimensions tokens') {side : Axis} (hside : side ∈ [Axis.width, .height]) :
    (sizesOn side tokens).getLast? = (sizesOn side tokens').getLast? := by
  rw [dimensions_eq, dimensions_eq] at h
  obtain ⟨hwidth, hheight⟩ := Dimensions.mk.inj h
  obtain rfl | hside := List.mem_cons.1 hside
  · exact hwidth
  · exact List.mem_singleton.1 hside ▸ hheight

/-! ### Tokens that agree -/

/-- Two tokens that do not give a side different sizes. -/
def AgreeInSize (token token' : String) : Prop :=
  ∀ side ∈ [Axis.width, .height], ∀ pixels pixels',
    sizeOn? side token = some pixels → sizeOn? side token' = some pixels' → pixels = pixels'

/-- Where all members of a list are one, the last member is told from any list with the same members. -/
theorem getLast?_congr {α : Type} {l l' : List α} (hone : ∀ x ∈ l, ∀ y ∈ l, x = y)
    (hmem : ∀ x, x ∈ l' ↔ x ∈ l) : l'.getLast? = l.getLast? := by
  cases hlast : l.getLast? with
  | none =>
    obtain rfl := List.getLast?_eq_none_iff.1 hlast
    rw [List.getLast?_eq_none_iff]
    exact List.eq_nil_iff_forall_not_mem.2 fun x hx => List.not_mem_nil ((hmem x).1 hx)
  | some x =>
    have hx := List.mem_of_getLast? hlast
    cases hlast' : l'.getLast? with
    | none =>
      rw [List.getLast?_eq_none_iff.1 hlast'] at hmem
      exact absurd ((hmem x).2 hx) List.not_mem_nil
    | some y => exact congrArg some (hone y ((hmem y).1 (List.mem_of_getLast? hlast')) x hx)

/-! ### Squares -/

/-- What the tokens of a square give to a side: one of width and height nothing, and the other one what
their common size gives. -/
theorem sizeOn?_square : ∀ side ∈ [Axis.width, .height], ∀ step ∈ spacingScale.map Prod.snd,
    (sizeOn? side ("w-" ++ step) = none ∧
        sizeOn? side ("h-" ++ step) = sizeOn? side ("size-" ++ step)) ∨
      (sizeOn? side ("h-" ++ step) = none ∧
        sizeOn? side ("w-" ++ step) = sizeOn? side ("size-" ++ step)) := by
  intro side hside step hstep
  obtain ⟨entry, hentry, rfl⟩ := List.mem_map.1 hstep
  have hsize : readSize? ("size-" ++ entry.2) = _ :=
    readSize?_step ("size", .both) (by decide) entry hentry
  have hwidth : readSize? ("w-" ++ entry.2) = _ :=
    readSize?_step ("w", .width) (by decide) entry hentry
  have hheight : readSize? ("h-" ++ entry.2) = _ :=
    readSize?_step ("h", .height) (by decide) entry hentry
  simp only [sizeOn?, hsize, hwidth, hheight]
  simp only [List.mem_cons, List.not_mem_nil, or_false] at hside
  obtain rfl | rfl := hside <;> by_cases hone : entry.1 = 1 <;> simp [hone]

section
variable {side : Axis} (hside : side ∈ [Axis.width, .height])
include hside

/-- Merging a square changes nothing about the sizes that are given. -/
theorem mem_sizesOn_mergeSquare_iff {tokens : List String} {pixels : Binary64} :
    pixels ∈ sizesOn side (mergeSquare tokens) ↔ pixels ∈ sizesOn side tokens := by
  by_cases hsquare : ∃ step, IsSquare tokens step
  · obtain ⟨step, h⟩ := hsquare
    obtain ⟨hwidth, hheight, hscale⟩ := isSquare_iff.1 h
    have hsize := sizeOn?_square side hside step hscale
    rw [mem_sizesOn, mem_sizesOn]
    constructor
    · rintro ⟨t, ht, hpixels⟩
      by_cases hmerged : t = "size-" ++ step
      · rw [hmerged] at hpixels
        obtain ⟨-, heq⟩ | ⟨-, heq⟩ := hsize
        · exact ⟨_, hheight.mem, heq.trans hpixels⟩
        · exact ⟨_, hwidth.mem, heq.trans hpixels⟩
      · exact ⟨t, eq_size_of_mem_mergeSquare h ht hmerged, hpixels⟩
    · rintro ⟨t, ht, hpixels⟩
      by_cases hkept : t = "w-" ++ step ∨ t = "h-" ++ step
      · refine ⟨_, size_mem_mergeSquare h, ?_⟩
        obtain rfl | rfl := hkept <;> obtain ⟨hnone, heq⟩ | ⟨hnone, heq⟩ := hsize
        · exact absurd (hnone.symm.trans hpixels) (by simp)
        · exact heq.symm.trans hpixels
        · exact heq.symm.trans hpixels
        · exact absurd (hnone.symm.trans hpixels) (by simp)
      · rw [not_or] at hkept
        exact ⟨t, mem_mergeSquare_of_ne h ht hkept.1 hkept.2, hpixels⟩
  · rw [mergeSquare_eq_self_iff.2 (not_exists.1 hsquare)]

end

theorem sizeOn?_optimizeToken {token : String} (h : ¬ IsUnsteady token) (side : Axis) :
    sizeOn? side (optimizeToken token) = sizeOn? side token := by
  rw [sizeOn?, readSize?_optimizeToken_iff.2 h, sizeOn?]

/-- Optimized tokens give the sizes that the tokens gave, unless one of these is unsteady. -/
theorem mem_sizes_optimized_iff {side : Axis} (hside : side ∈ [Axis.width, .height])
    {tokens : List String} (h : ∀ t ∈ tokens, ¬ IsUnsteady t) {pixels : Binary64} :
    pixels ∈ sizesOn side (dedupe (mergeSquare (tokens.map optimizeToken))) ↔
      pixels ∈ sizesOn side tokens := by
  have hdedupe : pixels ∈ sizesOn side (dedupe (mergeSquare (tokens.map optimizeToken))) ↔
      pixels ∈ sizesOn side (mergeSquare (tokens.map optimizeToken)) := by
    simp only [mem_sizesOn, mem_dedupe]
  have hmap : sizesOn side (tokens.map optimizeToken) = sizesOn side tokens := by
    rw [sizesOn, List.filterMap_map]
    exact List.filterMap_congr fun t ht => sizeOn?_optimizeToken (h t ht) side
  rw [hdedupe, mem_sizesOn_mergeSquare_iff hside, hmap]

/-! ### Dimensions of optimized tokens -/

/-- The dimensions that tokens give are the same when the tokens have been optimized. -/
def KeepsDimensions (tokens : List String) : Prop :=
  dimensions (dedupe (mergeSquare (tokens.map optimizeToken))) = dimensions tokens

instance (tokens : List String) : Decidable (KeepsDimensions tokens) :=
  inferInstanceAs (Decidable (_ = _))

/-- Tokens that are steady and agree in size keep their dimensions. -/
theorem keepsDimensions_of_agree {tokens : List String} (hsteady : ∀ t ∈ tokens, ¬ IsUnsteady t)
    (hagree : ∀ t ∈ tokens, ∀ u ∈ tokens, AgreeInSize t u) : KeepsDimensions tokens := by
  have hlast (side : Axis) (hside : side ∈ [Axis.width, .height]) :
      (sizesOn side (dedupe (mergeSquare (tokens.map optimizeToken)))).getLast?
        = (sizesOn side tokens).getLast? := by
    refine getLast?_congr (fun x hx y hy => ?_) fun _ => mem_sizes_optimized_iff hside hsteady
    obtain ⟨t, ht, hx⟩ := mem_sizesOn.1 hx
    obtain ⟨u, hu, hy⟩ := mem_sizesOn.1 hy
    exact hagree t ht u hu side hside x y hx hy
  rw [KeepsDimensions, dimensions_eq, dimensions_eq, hlast .width (by decide), hlast .height (by decide)]

/-- So do steady tokens that are distinct, unless they make a square: each of them stays in its place. -/
theorem keepsDimensions_of_distinct {tokens : List String}
    (hsteady : ∀ t ∈ tokens, ¬ IsUnsteady t) (hdistinct : (tokens.map optimizeToken).Nodup)
    (hsquare : ∀ step, ¬ IsSquare (tokens.map optimizeToken) step) : KeepsDimensions tokens := by
  have hsizes : (tokens.map optimizeToken).filterMap readSize? = tokens.filterMap readSize? := by
    rw [List.filterMap_map]
    exact List.filterMap_congr fun t ht => readSize?_optimizeToken_iff.2 (hsteady t ht)
  rw [KeepsDimensions, mergeSquare_eq_self_iff.2 hsquare, dedupe_eq_self_iff.2 hdistinct, dimensions,
    hsizes, dimensions]

theorem mergeSquare_singleton (token : String) : mergeSquare [token] = [token] := by
  refine mergeSquare_eq_self_iff.2 fun step h => ?_
  obtain ⟨hwidth, hheight, -⟩ := isSquare_iff.1 h
  have heq := (List.mem_singleton.1 hwidth.mem).trans (List.mem_singleton.1 hheight.mem).symm
  exact append_ne_append rfl rfl (by decide) step step heq

/-- A token that keeps its dimensions where it stands alone is steady. -/
theorem not_isUnsteady_of_keeps {token : String} (h : KeepsDimensions [token]) :
    ¬ IsUnsteady token := by
  rw [KeepsDimensions, List.map_singleton, mergeSquare_singleton] at h
  exact readSize?_optimizeToken_iff.1 (readSize?_eq_of_dimensions h)

/-- Two tokens agree in size if they keep their dimensions where one stands around the other. -/
theorem agreeInSize_of_keeps {t u : String} (ht : ¬ IsUnsteady t) (hu : ¬ IsUnsteady u)
    (h : KeepsDimensions [t, u, t]) : AgreeInSize t u := by
  intro side hside pixels pixels' hpixels hpixels'
  have ht' := (sizeOn?_optimizeToken ht side).trans hpixels
  have hu' := (sizeOn?_optimizeToken hu side).trans hpixels'
  by_cases hsame : optimizeToken u = optimizeToken t
  · rw [hsame, ht'] at hu'
    exact Option.some.inj hu'
  · have hmerged : mergeSquare ([t, u, t].map optimizeToken) = [t, u, t].map optimizeToken := by
      -- One token of a square would give this side nothing, but both tokens give it something.
      refine mergeSquare_eq_self_iff.2 fun step hsquare => ?_
      obtain ⟨hwidth, hheight, hscale⟩ := isSquare_iff.1 hsquare
      have hsome : ∀ x ∈ [t, u, t].map optimizeToken, sizeOn? side x ≠ none := by
        simp [ht', hu']
      obtain ⟨hnone, -⟩ | ⟨hnone, -⟩ := sizeOn?_square side hside step hscale
      · exact hsome _ hwidth.mem hnone
      · exact hsome _ hheight.mem hnone
    have hdeduped : dedupe ([t, u, t].map optimizeToken) = [optimizeToken t, optimizeToken u] := by
      simp [dedupe, dedupeFrom, hsame]
    rw [KeepsDimensions, hmerged, hdeduped] at h
    have hlast := getLast?_sizesOn_of_dimensions h hside
    simpa [sizesOn, hpixels, hpixels', ht', hu'] using hlast.symm

/-- All lists of tokens from a vocabulary keep their dimensions exactly if every token of it is steady, and
any two of them agree in size.  For lists of distinct tokens that make no square it is enough that every
token is steady. -/
theorem keepsDimensions_iff (vocabulary : Set String) :
    ((∀ tokens : List String, (∀ t ∈ tokens, t ∈ vocabulary) → KeepsDimensions tokens) ↔
        (∀ t ∈ vocabulary, ¬ IsUnsteady t) ∧
          ∀ t ∈ vocabulary, ∀ u ∈ vocabulary, AgreeInSize t u) ∧
      ((∀ tokens : List String, (∀ t ∈ tokens, t ∈ vocabulary) →
          (tokens.map optimizeToken).Nodup → (∀ step, ¬ IsSquare (tokens.map optimizeToken) step) →
            KeepsDimensions tokens) ↔
        ∀ t ∈ vocabulary, ¬ IsUnsteady t) := by
  refine ⟨⟨fun h => ?_, ?_⟩, ⟨fun h t ht => ?_, fun hsteady tokens htokens => ?_⟩⟩
  · have hsteady : ∀ t ∈ vocabulary, ¬ IsUnsteady t := fun t ht =>
      not_isUnsteady_of_keeps (h [t] (List.forall_mem_singleton.2 ht))
    refine ⟨hsteady, fun t ht u hu => agreeInSize_of_keeps (hsteady t ht) (hsteady u hu) ?_⟩
    exact h _ (by simp [ht, hu])
  · rintro ⟨hsteady, hagree⟩ tokens htokens
    exact keepsDimensions_of_agree (fun t ht => hsteady t (htokens t ht))
      fun t ht u hu => hagree t (htokens t ht) u (htokens u hu)
  · refine not_isUnsteady_of_keeps (h [t] (List.forall_mem_singleton.2 ht) (by simp) ?_)
    exact mergeSquare_eq_self_iff.1 (mergeSquare_singleton (optimizeToken t))
  · exact keepsDimensions_of_distinct fun t ht => hsteady t (htokens t ht)

/-- A square of 32 pixels, and after it one of a single pixel. -/
def pixelSquare : List String :=
  ["w-8", "h-8", "w-[1px]", "h-[1px]"]

/-- The later square is not read any more once its steps are standard ones. -/
theorem pixelSquare_not_kept :
    dimensions pixelSquare = ⟨some (.ofNat 1), some (.ofNat 1)⟩ ∧
      dimensions (dedupe (mergeSquare (pixelSquare.map optimizeToken)))
        = ⟨some (.ofNat 32), some (.ofNat 32)⟩ ∧
      ¬ KeepsDimensions pixelSquare := by
  decide +kernel

end MarkupTidy
