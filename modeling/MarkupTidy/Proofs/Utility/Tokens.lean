import Mathlib.Data.List.TakeWhile
import MarkupTidy.Utility.Cleanup
import MarkupTidy.Utility.Scale

/-! # Token lists that are left alone

When the steps that clean and optimize class tokens leave a list of tokens as it is.  Line pairs are dropped
from left to right in one go, so that one around others is left.

* `stripArtifacts_eq_self_iff`: no font class, and no line pair.
* `HasNestedPair`: a line pair around others; `stripped_iff_no_nested`: what is left of tokens is left alone
  exactly if there is none.
* `map_convertTextSize_eq_self_iff`: no text size that has a standard name.
* `dedupe_eq_self_iff`: no token twice.
* `mergeSquare_map_eq_self_iff`: no token that has a standard step, and no square. -/

namespace MarkupTidy

/-- The pair that the generator puts on every line of text. -/
def linePair : List String := ["text-nowrap", "whitespace-pre"]

theorem linePair_prefix_iff {t u : String} {rest : List String} :
    linePair <+: t :: u :: rest ↔ t = "text-nowrap" ∧ u = "whitespace-pre" := by
  unfold linePair
  rw [List.cons_prefix_cons, List.cons_prefix_cons]
  constructor
  · rintro ⟨rfl, rfl, -⟩
    exact ⟨rfl, rfl⟩
  · rintro ⟨rfl, rfl⟩
    exact ⟨rfl, rfl, List.nil_prefix⟩

theorem dropLinePairs_sublist (tokens : List String) : (dropLinePairs tokens).Sublist tokens := by
  fun_induction dropLinePairs tokens with
  | case1 => exact .slnil
  | case2 t => exact .refl _
  | case3 t u rest h ih => exact (ih.cons u).cons t
  | case4 t u rest h ih => exact ih.cons_cons t

/-- Tokens among which no line pair stands are left alone. -/
theorem dropLinePairs_eq_self_iff {tokens : List String} :
    dropLinePairs tokens = tokens ↔ ¬ linePair <:+: tokens := by
  fun_induction dropLinePairs tokens with
  | case1 => simp [linePair]
  | case2 t =>
    have hlong : ¬ linePair <:+: [t] := fun h => by
      have hlen := h.length_le
      simp [linePair] at hlen
    exact iff_of_true rfl hlong
  | case3 t u rest h ih =>
    simp only [Bool.and_eq_true, decide_eq_true_eq] at h
    have hpair : linePair <:+: t :: u :: rest := (linePair_prefix_iff.2 h).isInfix
    have hlen := (dropLinePairs_sublist rest).length_le
    refine iff_of_false (fun he => ?_) (fun hn => hn hpair)
    rw [he] at hlen
    simp only [List.length_cons] at hlen
    omega
  | case4 t u rest h ih =>
    simp only [Bool.and_eq_true, decide_eq_true_eq] at h
    rw [List.cons_inj_right, ih, List.infix_cons_iff (a := t), linePair_prefix_iff]
    simp [h]

theorem stripArtifacts_sublist (tokens : List String) : (stripArtifacts tokens).Sublist tokens :=
  (dropLinePairs_sublist _).trans List.filter_sublist

theorem isFontClass_of_mem_stripArtifacts {t : String} {tokens : List String}
    (h : t ∈ stripArtifacts tokens) : isFontClass t = false := by
  simpa using (List.mem_filter.1 ((dropLinePairs_sublist _).subset h)).2

/-- Tokens without font classes and without line pairs are left alone. -/
theorem stripArtifacts_eq_self_iff {tokens : List String} :
    stripArtifacts tokens = tokens ↔
      (∀ t ∈ tokens, isFontClass t = false) ∧ ¬ linePair <:+: tokens := by
  have hfilter : (∀ t ∈ tokens, isFontClass t = false) ↔
      tokens.filter (fun t => !isFontClass t) = tokens := by
    simp [List.filter_eq_self]
  rw [hfilter, ← dropLinePairs_eq_self_iff]
  unfold stripArtifacts
  constructor
  · intro h
    have hdrop := dropLinePairs_sublist (tokens.filter fun t => !isFontClass t)
    rw [h] at hdrop
    have heq := List.filter_sublist.eq_of_length_le hdrop.length_le
    rw [heq] at h
    exact ⟨heq, h⟩
  · rintro ⟨hfonts, hpairs⟩
    rw [hfonts, hpairs]

/-! ### Nested line pairs -/

/-- Line pairs one after the other. -/
def linePairs (count : Nat) : List String :=
  (List.replicate count linePair).flatten

/-- The two tokens of a line pair with at least one other pair between them: when that has gone, they
stand next to each other. -/
def HasNestedPair (tokens : List String) : Prop :=
  ∃ count, "text-nowrap" :: (linePairs (count + 1) ++ ["whitespace-pre"]) <:+: tokens

theorem linePairs_succ (count : Nat) (rest : List String) :
    linePairs (count + 1) ++ rest = "text-nowrap" :: "whitespace-pre" :: (linePairs count ++ rest) := by
  rw [linePairs, List.replicate_succ, List.flatten_cons]
  rfl

/-- What closes a pair is in front once the pairs before it have gone. -/
theorem closing_prefix_dropLinePairs_iff {tokens : List String} :
    ["whitespace-pre"] <+: dropLinePairs tokens ↔
      ∃ count, linePairs count ++ ["whitespace-pre"] <+: tokens := by
  fun_induction dropLinePairs tokens with
  | case1 => simp
  | case2 t =>
    constructor
    · intro h
      exact ⟨0, h⟩
    · rintro ⟨count, h⟩
      cases count with
      | zero => exact h
      | succ count =>
        rw [linePairs_succ] at h
        have hlen := h.length_le
        simp at hlen
  | case3 t u rest h ih =>
    simp only [Bool.and_eq_true, decide_eq_true_eq] at h
    obtain ⟨rfl, rfl⟩ := h
    rw [ih]
    constructor
    · rintro ⟨count, hcount⟩
      refine ⟨count + 1, ?_⟩
      rw [linePairs_succ, List.cons_prefix_cons, List.cons_prefix_cons]
      exact ⟨rfl, rfl, hcount⟩
    · rintro ⟨count, hcount⟩
      cases count with
      | zero => exact absurd (List.cons_prefix_cons.1 hcount).1 (by decide)
      | succ count =>
        rw [linePairs_succ, List.cons_prefix_cons, List.cons_prefix_cons] at hcount
        exact ⟨count, hcount.2.2⟩
  | case4 t u rest h ih =>
    simp only [Bool.and_eq_true, decide_eq_true_eq] at h
    constructor
    · intro hfront
      obtain ⟨rfl, -⟩ := List.cons_prefix_cons.1 hfront
      exact ⟨0, List.cons_prefix_cons.2 ⟨rfl, List.nil_prefix⟩⟩
    · rintro ⟨count, hcount⟩
      cases count with
      | zero =>
        obtain ⟨rfl, -⟩ := List.cons_prefix_cons.1 hcount
        exact List.cons_prefix_cons.2 ⟨rfl, List.nil_prefix⟩
      | succ count =>
        rw [linePairs_succ, List.cons_prefix_cons, List.cons_prefix_cons] at hcount
        exact absurd ⟨hcount.1.symm, hcount.2.1.symm⟩ h

theorem hasNestedPair_cons {t : String} {tokens : List String} : HasNestedPair (t :: tokens) ↔
    (t = "text-nowrap" ∧ ∃ count, linePairs (count + 1) ++ ["whitespace-pre"] <+: tokens) ∨
      HasNestedPair tokens := by
  unfold HasNestedPair
  simp only [List.infix_cons_iff, List.cons_prefix_cons, exists_or, exists_and_left]
  rw [eq_comm]

theorem not_hasNestedPair_nil : ¬ HasNestedPair [] := by
  rintro ⟨count, h⟩
  exact List.cons_ne_nil _ _ (List.infix_nil.1 h)

/-- A line pair is left exactly where one was nested. -/
theorem linePair_infix_dropLinePairs_iff {tokens : List String} :
    linePair <:+: dropLinePairs tokens ↔ HasNestedPair tokens := by
  fun_induction dropLinePairs tokens with
  | case1 => exact iff_of_false (fun h => absurd h.length_le (by decide)) not_hasNestedPair_nil
  | case2 t =>
    refine iff_of_false (fun h => absurd h.length_le (by simp [linePair])) fun h => ?_
    obtain ⟨-, count, hcount⟩ | hnil := hasNestedPair_cons.1 h
    · rw [linePairs_succ] at hcount
      exact List.cons_ne_nil _ _ (List.prefix_nil.1 hcount)
    · exact not_hasNestedPair_nil hnil
  | case3 t u rest h ih =>
    simp only [Bool.and_eq_true, decide_eq_true_eq] at h
    obtain ⟨rfl, rfl⟩ := h
    rw [ih, hasNestedPair_cons, hasNestedPair_cons]
    constructor
    · exact fun hrest => .inr (.inr hrest)
    · rintro (⟨-, count, hcount⟩ | ⟨hfirst, -⟩ | hrest)
      · rw [linePairs_succ] at hcount
        exact absurd (List.cons_prefix_cons.1 hcount).1 (by decide)
      · exact absurd hfirst (by decide)
      · exact hrest
  | case4 t u rest h ih =>
    simp only [Bool.and_eq_true, decide_eq_true_eq] at h
    rw [hasNestedPair_cons, ← ih, List.infix_cons_iff]
    refine or_congr_left ((List.cons_prefix_cons.trans (and_congr_left' eq_comm)).trans ?_)
    refine and_congr_right fun ht => closing_prefix_dropLinePairs_iff.trans ⟨?_, ?_⟩
    · rintro ⟨count, hcount⟩
      cases count with
      | zero => exact absurd ⟨ht, (List.cons_prefix_cons.1 hcount).1.symm⟩ h
      | succ count => exact ⟨count, hcount⟩
    · rintro ⟨count, hcount⟩
      exact ⟨count + 1, hcount⟩

/-- What is left of tokens stands in its order, and no font class is among it.  No line pair is among it
either, and it is left alone when it is stripped again, each exactly if no line pair was nested. -/
theorem stripped_iff_no_nested (tokens : List String) :
    let plain := tokens.filter fun t => !isFontClass t
    let stripped := stripArtifacts tokens
    stripped.Sublist tokens ∧ (∀ t ∈ stripped, isFontClass t = false) ∧
      (¬ linePair <:+: stripped ↔ ¬ HasNestedPair plain) ∧
      (stripArtifacts stripped = stripped ↔ ¬ HasNestedPair plain) := by
  intro plain stripped
  have hfonts : ∀ t ∈ stripped, isFontClass t = false := fun t => isFontClass_of_mem_stripArtifacts
  have hpairs : ¬ linePair <:+: stripped ↔ ¬ HasNestedPair plain :=
    not_congr linePair_infix_dropLinePairs_iff
  refine ⟨stripArtifacts_sublist tokens, hfonts, hpairs, ?_⟩
  rw [stripArtifacts_eq_self_iff, and_iff_right hfonts, hpairs]

/-- A line pair in the middle of another one. -/
def nestedPair : List String :=
  ["text-nowrap", "text-nowrap", "whitespace-pre", "whitespace-pre"]

/-- The outer pair is left. -/
theorem nestedPair_not_stripped :
    stripArtifacts nestedPair = linePair ∧ stripArtifacts (stripArtifacts nestedPair) = [] := by
  decide +kernel

/-! ### Text sizes and repetitions -/

/-- A token that is not left as it is comes from the table. -/
theorem convertTextSize_cases (token : String) :
    convertTextSize token = token ∨ ∃ size ∈ textSizes, convertTextSize token = size.2 := by
  unfold convertTextSize
  cases hlookup : textSizes.lookup token with
  | none => exact .inl rfl
  | some size =>
    obtain ⟨front, back, heq, -⟩ := List.lookup_eq_some_iff.1 hlookup
    exact .inr ⟨(token, size), heq ▸ List.mem_append_right front List.mem_cons_self, rfl⟩

theorem map_convertTextSize_eq_self_iff {tokens : List String} :
    tokens.map convertTextSize = tokens ↔ ∀ t ∈ tokens, convertTextSize t = t := by
  constructor
  · intro h
    exact List.map_inj_left.1 (h.trans (List.map_id tokens).symm)
  · intro h
    rw [List.map_congr_left h, List.map_id']

theorem dedupeFrom_sublist (seen tokens : List String) :
    (dedupeFrom seen tokens).Sublist tokens := by
  fun_induction dedupeFrom seen tokens with
  | case1 => exact .slnil
  | case2 seen t rest h ih => exact ih.cons t
  | case3 seen t rest h ih => exact ih.cons_cons t

theorem dedupeFrom_eq_self_iff {seen tokens : List String} :
    dedupeFrom seen tokens = tokens ↔ tokens.Nodup ∧ ∀ t ∈ tokens, t ∉ seen := by
  fun_induction dedupeFrom seen tokens with
  | case1 => simp
  | case2 seen t rest h ih =>
    have hlen := (dedupeFrom_sublist seen rest).length_le
    refine iff_of_false (fun he => ?_) (fun hn => hn.2 t List.mem_cons_self (by simpa using h))
    rw [he, List.length_cons] at hlen
    omega
  | case3 seen t rest h ih =>
    rw [List.cons_inj_right, ih, List.nodup_cons, List.forall_mem_cons]
    simp only [List.mem_cons, not_or]
    have ht : t ∉ seen := by simpa using h
    constructor
    · rintro ⟨hnodup, hrest⟩
      exact ⟨⟨fun hmem => (hrest t hmem).1 rfl, hnodup⟩, ht, fun u hu => (hrest u hu).2⟩
    · rintro ⟨⟨hfirst, hnodup⟩, -, hrest⟩
      exact ⟨hnodup, fun u hu => ⟨fun he => hfirst (he ▸ hu), hrest u hu⟩⟩

/-- Tokens without repetitions are left alone. -/
theorem dedupe_eq_self_iff {tokens : List String} : dedupe tokens = tokens ↔ tokens.Nodup := by
  unfold dedupe
  rw [dedupeFrom_eq_self_iff]
  exact and_iff_left fun t _ => List.not_mem_nil

theorem length_dedupe_eq_iff {tokens : List String} :
    (dedupe tokens).length = tokens.length ↔ tokens.Nodup := by
  rw [← dedupe_eq_self_iff]
  exact ⟨(dedupeFrom_sublist [] tokens).eq_of_length, congrArg List.length⟩

/-! ### Standard steps -/

/-- The last occurrence of a token is replaced where it stands. -/
theorem replaceLast_of_mem {old : String} {tokens : List String} (h : old ∈ tokens)
    (new : Option String) : ∃ before after, tokens = before ++ old :: after ∧
      replaceLast old new tokens = before ++ (new.toList ++ after) := by
  obtain ⟨back, rest, hsplit, hback⟩ := List.eq_append_cons_of_mem (List.mem_reverse.2 h)
  have hpos : ∀ t ∈ back, decide (t ≠ old) = true := by
    intro t ht
    rw [decide_eq_true_eq]
    exact fun he => hback (he ▸ ht)
  have htake : (old :: rest).takeWhile (fun t => decide (t ≠ old)) = [] := by simp
  have hdrop : (old :: rest).dropWhile (fun t => decide (t ≠ old)) = old :: rest := by
    simp
  refine ⟨rest.reverse, back.reverse, ?_, ?_⟩
  · rw [← List.reverse_reverse tokens, hsplit, List.reverse_append, List.reverse_cons,
      List.append_assoc, List.singleton_append]
  · unfold replaceLast
    dsimp only
    rw [hsplit, List.takeWhile_append_of_pos hpos, List.dropWhile_append_of_pos hpos,
      htake, hdrop]
    cases new with
    | none => simp
    | some token => simp

/-- A step that is the only width and the only height, as a step of the spacing scale. -/
def IsSquare (tokens : List String) (step : String) : Prop :=
  commonStep? (stepsOf "w-" tokens) = some step ∧ commonStep? (stepsOf "h-" tokens) = some step ∧
    step ∈ spacingScale.map Prod.snd

theorem mem_of_commonStep? {steps : List String} {step : String}
    (h : commonStep? steps = some step) : step ∈ steps := by
  cases steps with
  | nil => simp [commonStep?] at h
  | cons s rest =>
    rw [commonStep?] at h
    split at h
    · exact Option.some.inj h ▸ List.mem_cons_self
    · simp at h

theorem mem_of_mem_stepsOf {start step : String} {tokens : List String}
    (h : step ∈ stepsOf start tokens) : start ++ step ∈ tokens := by
  obtain ⟨t, ht, hafter⟩ := List.mem_filterMap.1 h
  obtain ⟨rest, hrest, rfl⟩ := Option.map_eq_some_iff.1 hafter
  rw [Text.afterText?_eq_some] at hrest
  have heq : start ++ String.ofList rest = t := by
    apply String.toList_injective
    rw [String.toList_append, String.toList_ofList, hrest]
  exact heq ▸ ht

theorem replaceLast_of_not_mem {old : String} {tokens : List String} (h : old ∉ tokens)
    (new : Option String) : replaceLast old new tokens = tokens := by
  have hdrop : tokens.reverse.dropWhile (fun t => decide (t ≠ old)) = [] := by
    rw [List.dropWhile_eq_nil_iff]
    intro t ht
    rw [decide_eq_true_eq]
    rintro rfl
    exact h (List.mem_reverse.1 ht)
  unfold replaceLast
  dsimp only
  rw [hdrop]

/-- Replacing the last occurrence of a token takes it away once, and puts the other in. -/
theorem replaceLast_perm {old : String} {tokens : List String} (h : old ∈ tokens)
    (new : Option String) : (old :: replaceLast old new tokens).Perm (new.toList ++ tokens) := by
  obtain ⟨before, after, rfl, hreplaced⟩ := replaceLast_of_mem h new
  rw [hreplaced, List.perm_iff_count]
  intro token
  simp only [List.count_append, List.count_cons]
  omega

/-- Beginnings with different first letters make different tokens. -/
theorem append_ne_append {start start' : String} {c c' : Char}
    (h : start.toList.head? = some c) (h' : start'.toList.head? = some c') (hne : c ≠ c')
    (rest rest' : String) : start ++ rest ≠ start' ++ rest' := by
  intro he
  have hheads := congrArg (fun t : String => t.toList.head?) he
  simp only [String.toList_append, List.head?_append, h, h', Option.some_or] at hheads
  exact hne (Option.some.inj hheads)

/-- Merging a square takes the last width and the last height away, and puts a size in. -/
theorem mergeSquare_perm {tokens : List String} {step : String} (h : IsSquare tokens step) :
    (("w-" ++ step) :: ("h-" ++ step) :: mergeSquare tokens).Perm
      (("size-" ++ step) :: tokens) := by
  obtain ⟨hw, hh, hstep⟩ := h
  have hwidth := mem_of_mem_stepsOf (mem_of_commonStep? hw)
  have hheight := mem_of_mem_stepsOf (mem_of_commonStep? hh)
  have hsized := replaceLast_perm hwidth (some ("size-" ++ step))
  have hkept : "h-" ++ step ∈ replaceLast ("w-" ++ step) (some ("size-" ++ step)) tokens := by
    have hmem := hsized.mem_iff.2 (List.mem_append_right _ hheight)
    exact (List.mem_cons.1 hmem).resolve_left (append_ne_append rfl rfl (by decide) step step)
  have hcond : (decide (step = step) && (spacingScale.map Prod.snd).contains step) = true := by
    simpa using hstep
  unfold mergeSquare
  rw [hw, hh]
  dsimp only
  rw [if_pos hcond]
  exact ((replaceLast_perm hkept none).cons _).trans hsized

theorem length_mergeSquare_of_isSquare {tokens : List String} {step : String}
    (h : IsSquare tokens step) : (mergeSquare tokens).length < tokens.length := by
  have hlen := (mergeSquare_perm h).length_eq
  simp only [List.length_cons] at hlen
  omega

/-- Tokens that are no square are left alone. -/
theorem mergeSquare_eq_self_iff {tokens : List String} :
    mergeSquare tokens = tokens ↔ ∀ step, ¬ IsSquare tokens step := by
  constructor
  · intro h step hs
    have hlen := length_mergeSquare_of_isSquare hs
    rw [h] at hlen
    omega
  · intro h
    unfold mergeSquare
    split
    · rename_i width height hw hh
      refine if_neg fun hcond => ?_
      simp only [Bool.and_eq_true, decide_eq_true_eq, List.contains_iff_mem] at hcond
      obtain ⟨rfl, hstep⟩ := hcond
      exact h width ⟨hw, hh, hstep⟩
    · rfl

/-- Merging brings in nothing but a size. -/
theorem mem_of_mem_mergeSquare {tokens : List String} {token : String}
    (h : token ∈ mergeSquare tokens) :
    token ∈ tokens ∨ ∃ step ∈ spacingScale.map Prod.snd, token = "size-" ++ step := by
  by_cases hsquare : ∃ step, IsSquare tokens step
  · obtain ⟨step, hstep⟩ := hsquare
    have hmem := (mergeSquare_perm hstep).subset (List.mem_cons_of_mem _ (List.mem_cons_of_mem _ h))
    obtain rfl | hmem := List.mem_cons.1 hmem
    · exact Or.inr ⟨step, hstep.2.2, rfl⟩
    · exact Or.inl hmem
  · rw [mergeSquare_eq_self_iff.2 (not_exists.1 hsquare)] at h
    exact Or.inl h

/-- Mapping a list and then merging a square leaves it alone only if each of the two does. -/
theorem mergeSquare_map_eq_self_iff {f : String → String} {tokens : List String} :
    mergeSquare (tokens.map f) = tokens ↔
      (∀ t ∈ tokens, f t = t) ∧ ∀ step, ¬ IsSquare tokens step := by
  constructor
  · intro h
    have hsame : ∀ step, ¬ IsSquare (tokens.map f) step := by
      intro step hs
      have hlen := length_mergeSquare_of_isSquare hs
      rw [h, List.length_map] at hlen
      omega
    rw [mergeSquare_eq_self_iff.2 hsame] at h
    rw [h] at hsame
    exact ⟨List.map_inj_left.1 (h.trans (List.map_id tokens).symm), hsame⟩
  · rintro ⟨hf, hsquare⟩
    rw [List.map_congr_left hf, List.map_id', mergeSquare_eq_self_iff.2 hsquare]

end MarkupTidy
