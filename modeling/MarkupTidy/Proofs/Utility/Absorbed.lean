import MarkupTidy.Pass.ClassOptimizer
import MarkupTidy.Proofs.Utility.InertToken
import MarkupTidy.Proofs.Utility.SafeTokens

/-! # What optimizing takes away

A token goes when classes are optimized if its own value has a standard step, or if it stands for the
width or the height of a square, once.  All other tokens stay.  Whether tokens make a square depends on
which tokens there are, not on their order or on how often each of them stands; where both sides stand
more often than once, the tokens make the same square again.

* `optimizeToken_of_not_mem`, `optimizeToken_optimizeToken`: a token without a bracket has no standard
  step, and neither has what a token becomes.
* `mem_mergeSquare_iff`: the tokens that stay when a square is merged.
* `IsAbsorbed`: the tokens that go; `mem_optimize_iff`: they are the ones.
* `IsOnlyStep`, `isSquare_iff`: a square by the tokens that there are; `isSquare_congr`.
* `nodup_dedupe`: after repetitions are dropped there are none.
* `isSquare_mergeSquare_iff`: when the square is there again after it has been merged.
* `ClassOptimizer.HasSpareSquare`, `ClassOptimizer.isSquare_dedupe_optimize_iff`: the tokens that make
  a square after they have been optimized.
* `ClassOptimizer.optimized_tokens`: which tokens there are then. -/

namespace MarkupTidy

open MarkupTidy.Text

/-! ### Standard steps -/

/-- Only a value in brackets has a standard step. -/
theorem optimizeToken_of_not_mem {token : String} (h : '[' ∉ token.toList) :
    optimizeToken token = token := by
  have hread : PixelToken.read? token.toList = none := by
    rw [PixelToken.read?, cutAt?_eq_none h]
    rfl
  unfold optimizeToken
  rw [hread]

/-- What a token becomes has no standard step again. -/
theorem optimizeToken_optimizeToken (token : String) :
    optimizeToken (optimizeToken token) = optimizeToken token := by
  have hradii : ∀ radius ∈ radiusScale.map Prod.snd, '[' ∉ radius.toList := by decide
  have hsteps : ∀ step ∈ spacingScale.map Prod.snd, '[' ∉ step.toList := by decide
  have hutilities : ∀ utility ∈ spacingUtilities, '[' ∉ utility.toList := by decide
  have hyphen : '[' ∉ "-".toList := by decide
  obtain hkept | hradius | ⟨utility, hutility, step, hstep, heq | heq⟩ := optimizeToken_cases token
  · rw [hkept, hkept]
  · exact optimizeToken_of_not_mem (hradii _ hradius)
  · refine optimizeToken_of_not_mem ?_
    rw [heq]
    simp only [String.toList_append, List.mem_append, not_or]
    exact ⟨⟨hutilities _ hutility, hyphen⟩, hsteps _ hstep⟩
  · refine optimizeToken_of_not_mem ?_
    rw [heq]
    simp only [String.toList_append, List.mem_append, not_or]
    exact ⟨⟨⟨hyphen, hutilities _ hutility⟩, hyphen⟩, hsteps _ hstep⟩

/-! ### Squares -/

section
variable {tokens : List String} {step : String}

theorem IsSquare.eq {step' : String} (h : IsSquare tokens step) (h' : IsSquare tokens step') :
    step = step' :=
  Option.some.inj (h.1.symm.trans h'.1)

/-- When a square is merged, a token stays unless it is the width or the height and stands in the
list once. -/
theorem mem_mergeSquare_iff (h : IsSquare tokens step) {token : String} (hmem : token ∈ tokens) :
    token ∈ mergeSquare tokens ↔
      ¬ ((token = "w-" ++ step ∨ token = "h-" ++ step) ∧ tokens.count token = 1) := by
  have hcount := (mergeSquare_perm h).count_eq token
  have hpos := List.count_pos_iff.2 hmem
  have hsides : "w-" ++ step ≠ "h-" ++ step := append_ne_append rfl rfl (by decide) step step
  have hwidth : "size-" ++ step ≠ "w-" ++ step := append_ne_append rfl rfl (by decide) step step
  have hheight : "size-" ++ step ≠ "h-" ++ step := append_ne_append rfl rfl (by decide) step step
  rw [← List.count_pos_iff]
  simp only [List.count_cons, beq_iff_eq] at hcount
  by_cases hw : "w-" ++ step = token
  · subst hw
    simp only [hsides.symm, hwidth, if_true, if_false] at hcount
    simp only [true_or, true_and]
    omega
  · by_cases hh : "h-" ++ step = token
    · subst hh
      simp only [hsides, hheight, if_true, if_false] at hcount
      simp only [or_true, true_and]
      omega
    · simp only [hw, hh, if_false] at hcount
      simp only [Ne.symm hw, Ne.symm hh, or_self, false_and, not_false_eq_true, iff_true]
      omega

end

/-! ### What goes -/

namespace ClassOptimizer

/-- A token that goes when tokens are optimized: it has a standard step, or it stands for a side of a
square, and for no more than that. -/
inductive IsAbsorbed (tokens : List String) (token : String) : Prop where
  | stepped : optimizeToken token ≠ token → IsAbsorbed tokens token
  | squared {step : String} : IsSquare (tokens.map optimizeToken) step →
      token = "w-" ++ step ∨ token = "h-" ++ step →
      (tokens.map optimizeToken).count token = 1 → IsAbsorbed tokens token

variable {tokens : List String} {token : String}

theorem not_mem_optimize_of_stepped (h : optimizeToken token ≠ token) : token ∉ optimize tokens := by
  intro hmem
  obtain hmem | ⟨step, hstep, rfl⟩ := mem_of_mem_mergeSquare hmem
  · obtain ⟨t, -, rfl⟩ := List.mem_map.1 hmem
    exact h (optimizeToken_optimizeToken t)
  · have hsteps : ∀ step ∈ spacingScale.map Prod.snd, '[' ∉ ("size-" ++ step).toList := by decide
    exact h (optimizeToken_of_not_mem (hsteps step hstep))

/-- The tokens that stay are those that are not absorbed. -/
theorem mem_optimize_iff (h : token ∈ tokens) :
    token ∈ optimize tokens ↔ ¬ IsAbsorbed tokens token := by
  by_cases hstep : optimizeToken token = token
  · have hmem : token ∈ tokens.map optimizeToken := List.mem_map.2 ⟨token, h, hstep⟩
    by_cases hsquare : ∃ step, IsSquare (tokens.map optimizeToken) step
    · obtain ⟨step, hsquare⟩ := hsquare
      refine (mem_mergeSquare_iff hsquare hmem).trans (not_congr ⟨fun ⟨hside, hcount⟩ =>
        .squared hsquare hside hcount, fun habsorbed => ?_⟩)
      cases habsorbed with
      | stepped hne => exact absurd hstep hne
      | squared hsquare' hside hcount =>
        obtain rfl := hsquare.eq hsquare'
        exact ⟨hside, hcount⟩
    · rw [optimize, mergeSquare_eq_self_iff.2 (not_exists.1 hsquare)]
      refine iff_of_true hmem fun habsorbed => ?_
      cases habsorbed with
      | stepped hne => exact hne hstep
      | squared hsquare' => exact hsquare ⟨_, hsquare'⟩
  · exact iff_of_false (not_mem_optimize_of_stepped hstep) fun hkept => hkept (.stepped hstep)

end ClassOptimizer

/-! ### Steps -/

section
variable {start step : String} {tokens tokens' : List String}

theorem mem_stepsOf_iff : step ∈ stepsOf start tokens ↔ start ++ step ∈ tokens := by
  refine ⟨mem_of_mem_stepsOf, fun h => List.mem_filterMap.2 ⟨start ++ step, h, ?_⟩⟩
  rw [Option.map_eq_some_iff]
  exact ⟨step.toList, afterText?_eq_some.2 (String.toList_append ..), String.ofList_toList⟩

theorem commonStep?_eq_some_iff {steps : List String} :
    commonStep? steps = some step ↔ ∀ s, s ∈ steps ↔ s = step := by
  cases steps with
  | nil => simp [commonStep?]
  | cons first rest =>
    rw [commonStep?, Option.ite_none_right_eq_some, List.all_eq_true, Option.some_inj]
    simp only [decide_eq_true_eq, List.mem_cons]
    constructor
    · rintro ⟨hrest, rfl⟩ s
      exact ⟨fun hs => hs.elim id (hrest s), Or.inl⟩
    · intro h
      obtain rfl := (h first).1 (.inl rfl)
      exact ⟨fun s hs => (h s).1 (.inr hs), rfl⟩

/-- The step is the only one that tokens with a beginning go on with. -/
def IsOnlyStep (start : String) (tokens : List String) (step : String) : Prop :=
  ∀ s, start ++ s ∈ tokens ↔ s = step

theorem IsOnlyStep.mem (h : IsOnlyStep start tokens step) : start ++ step ∈ tokens :=
  (h step).2 rfl

theorem isOnlyStep_congr (h : ∀ t, t ∈ tokens ↔ t ∈ tokens') :
    IsOnlyStep start tokens step ↔ IsOnlyStep start tokens' step :=
  forall_congr' fun _ => iff_congr (h _) Iff.rfl

theorem commonStep?_stepsOf :
    commonStep? (stepsOf start tokens) = some step ↔ IsOnlyStep start tokens step :=
  commonStep?_eq_some_iff.trans (forall_congr' fun _ => iff_congr mem_stepsOf_iff Iff.rfl)

/-- Tokens make a square if they have one width, one height, and both are the same step of the
spacing scale. -/
theorem isSquare_iff : IsSquare tokens step ↔ IsOnlyStep "w-" tokens step ∧
    IsOnlyStep "h-" tokens step ∧ step ∈ spacingScale.map Prod.snd :=
  and_congr commonStep?_stepsOf (and_congr_left' commonStep?_stepsOf)

theorem isSquare_congr (h : ∀ t, t ∈ tokens ↔ t ∈ tokens') :
    IsSquare tokens step ↔ IsSquare tokens' step := by
  rw [isSquare_iff, isSquare_iff, isOnlyStep_congr h, isOnlyStep_congr h]

end

/-! ### Repetitions -/

theorem nodup_dedupeFrom (seen tokens : List String) : (dedupeFrom seen tokens).Nodup := by
  fun_induction dedupeFrom seen tokens with
  | case1 => exact List.nodup_nil
  | case2 seen t rest h ih => exact ih
  | case3 seen t rest h ih =>
    refine List.nodup_cons.2 ⟨fun hmem => ?_, ih⟩
    exact (mem_dedupeFrom.1 hmem).2 List.mem_cons_self

theorem nodup_dedupe (tokens : List String) : (dedupe tokens).Nodup :=
  nodup_dedupeFrom [] tokens

/-! ### Merging -/

section
variable {tokens : List String} {step : String}

theorem size_mem_mergeSquare (h : IsSquare tokens step) : "size-" ++ step ∈ mergeSquare tokens := by
  have hmem := (mergeSquare_perm h).symm.subset List.mem_cons_self
  have hwidth : "size-" ++ step ≠ "w-" ++ step := append_ne_append rfl rfl (by decide) step step
  have hheight : "size-" ++ step ≠ "h-" ++ step := append_ne_append rfl rfl (by decide) step step
  exact (List.mem_cons.1 ((List.mem_cons.1 hmem).resolve_left hwidth)).resolve_left hheight

/-- A size is all that merging brings in. -/
theorem eq_size_of_mem_mergeSquare (h : IsSquare tokens step) {token : String}
    (hmem : token ∈ mergeSquare tokens) (hne : token ≠ "size-" ++ step) : token ∈ tokens :=
  (List.mem_cons.1 ((mergeSquare_perm h).subset
    (List.mem_cons_of_mem _ (List.mem_cons_of_mem _ hmem)))).resolve_left hne

/-- The width and the height are all that merging takes away. -/
theorem mem_mergeSquare_of_ne (h : IsSquare tokens step) {token : String} (hmem : token ∈ tokens)
    (hwidth : token ≠ "w-" ++ step) (hheight : token ≠ "h-" ++ step) : token ∈ mergeSquare tokens :=
  (mem_mergeSquare_iff h hmem).2 fun hside => hside.1.elim hwidth hheight

/-- A side of a merged square is still there if it stood there twice. -/
theorem isOnlyStep_mergeSquare_iff {start : String} (hstart : start = "w-" ∨ start = "h-")
    (h : IsSquare tokens step) {step' : String} :
    IsOnlyStep start (mergeSquare tokens) step' ↔
      step' = step ∧ 2 ≤ tokens.count (start ++ step) := by
  have honly : IsOnlyStep start tokens step := by
    obtain ⟨hw, hh, -⟩ := isSquare_iff.1 h
    obtain rfl | rfl := hstart
    · exact hw
    · exact hh
  have hsize (s : String) : start ++ s ≠ "size-" ++ step := by
    obtain rfl | rfl := hstart <;> exact append_ne_append rfl rfl (by decide) s step
  have hstep {s : String} (hs : start ++ s ∈ mergeSquare tokens) : s = step :=
    (honly s).1 (eq_size_of_mem_mergeSquare h hs (hsize s))
  have hside : start ++ step = "w-" ++ step ∨ start ++ step = "h-" ++ step :=
    hstart.imp (congrArg (· ++ step)) (congrArg (· ++ step))
  have hpos := List.count_pos_iff.2 honly.mem
  have hmem : start ++ step ∈ mergeSquare tokens ↔ 2 ≤ tokens.count (start ++ step) := by
    rw [mem_mergeSquare_iff h honly.mem, and_iff_right hside]
    omega
  constructor
  · intro honly'
    obtain rfl := hstep honly'.mem
    exact ⟨rfl, hmem.1 honly'.mem⟩
  · rintro ⟨rfl, hcount⟩ s
    exact ⟨hstep, fun hs => hs ▸ hmem.2 hcount⟩

/-- A merged square is there again if its width and its height both stood there twice. -/
theorem isSquare_mergeSquare_iff (h : IsSquare tokens step) {step' : String} :
    IsSquare (mergeSquare tokens) step' ↔
      step' = step ∧ 2 ≤ tokens.count ("w-" ++ step) ∧ 2 ≤ tokens.count ("h-" ++ step) := by
  rw [isSquare_iff, isOnlyStep_mergeSquare_iff (.inl rfl) h, isOnlyStep_mergeSquare_iff (.inr rfl) h]
  constructor
  · rintro ⟨⟨rfl, hw⟩, ⟨-, hh⟩, -⟩
    exact ⟨rfl, hw, hh⟩
  · rintro ⟨rfl, hw, hh⟩
    exact ⟨⟨rfl, hw⟩, ⟨rfl, hh⟩, h.2.2⟩

end

/-! ### Optimized tokens -/

namespace ClassOptimizer

/-- Tokens whose standard steps make a square, with a width and a height to spare. -/
def HasSpareSquare (tokens : List String) : Prop :=
  ∃ step, IsSquare (tokens.map optimizeToken) step ∧
    2 ≤ (tokens.map optimizeToken).count ("w-" ++ step) ∧
    2 ≤ (tokens.map optimizeToken).count ("h-" ++ step)

variable {tokens : List String}

/-- Optimized tokens make a square exactly if there was one to spare. -/
theorem isSquare_dedupe_optimize_iff :
    (∃ step, IsSquare (dedupe (optimize tokens)) step) ↔ HasSpareSquare tokens := by
  have hdedupe (step : String) : IsSquare (dedupe (optimize tokens)) step ↔
      IsSquare (optimize tokens) step := isSquare_congr fun _ => mem_dedupe
  simp only [hdedupe]
  unfold optimize
  by_cases hsquare : ∃ step, IsSquare (tokens.map optimizeToken) step
  · obtain ⟨step, hstep⟩ := hsquare
    constructor
    · rintro ⟨step', h⟩
      exact ⟨step, hstep, ((isSquare_mergeSquare_iff hstep).1 h).2⟩
    · rintro ⟨step', h, hcounts⟩
      exact ⟨step', (isSquare_mergeSquare_iff h).2 ⟨rfl, hcounts⟩⟩
  · rw [mergeSquare_eq_self_iff.2 (not_exists.1 hsquare)]
    exact iff_of_false hsquare fun ⟨step, h, _⟩ => hsquare ⟨step, h⟩

/-- Tokens in which a square has been merged: the size has come in, and nothing but the width and the
height has gone. -/
structure HasMerged (before after : List String) (step : String) : Prop where
  onScale : step ∈ spacingScale.map Prod.snd
  onlyWidth : IsOnlyStep "w-" before step
  onlyHeight : IsOnlyStep "h-" before step
  sized : "size-" ++ step ∈ after
  noOther : ∀ t ∈ after, t ≠ "size-" ++ step → t ∈ before
  kept : ∀ t ∈ before, t ≠ "w-" ++ step → t ≠ "h-" ++ step → t ∈ after

/-- Optimized tokens stand there once.  They are the standard steps of the tokens, all of them and no
others, unless these make a square; then the size of the square has come in, and nothing but its width
and its height can have gone. -/
theorem optimized_tokens (tokens : List String) :
    let steps := tokens.map optimizeToken
    let optimized := dedupe (mergeSquare steps)
    optimized.Nodup ∧
      ((∀ step, ¬ IsSquare steps step) ∧ (∀ t, t ∈ optimized ↔ t ∈ steps) ∨
        ∃ step, HasMerged steps optimized step) := by
  refine ⟨nodup_dedupe _, ?_⟩
  by_cases hsquare : ∃ step, IsSquare (tokens.map optimizeToken) step
  · obtain ⟨step, h⟩ := hsquare
    obtain ⟨hwidth, hheight, hscale⟩ := isSquare_iff.1 h
    exact .inr ⟨step, {
      onScale := hscale
      onlyWidth := hwidth
      onlyHeight := hheight
      sized := mem_dedupe.2 (size_mem_mergeSquare h)
      noOther := fun t ht hne => eq_size_of_mem_mergeSquare h (mem_dedupe.1 ht) hne
      kept := fun t ht hw hh => mem_dedupe.2 (mem_mergeSquare_of_ne h ht hw hh) }⟩
  · have hnone := not_exists.1 hsquare
    refine .inl ⟨hnone, fun t => ?_⟩
    rw [mem_dedupe, mergeSquare_eq_self_iff.2 hnone]

end ClassOptimizer

end MarkupTidy
