import MarkupTidy.Proofs.Utility.Sweep

/-! # What a sweep leaves to sweep

The fallback that takes the place of a placeholder is a token of its own, and it may be a placeholder
again.  A sweep resolves what stands between single spaces once, so it can leave behind what the next
sweep resolves.

* `Placeholder.read?_opening_append`: the token that a fallback makes is read with the variants and
  the utility of the placeholder.
* `resolvedToken_resolvedToken_eq_iff`: resolving a token again changes nothing unless its fallback
  is a reference with a fallback of its own.
* `classParts_sweep`: a sweep resolves the parts of class attributes one by one.
* `settles_iff`: when one sweep leaves nothing to the next. -/

namespace MarkupTidy

open MarkupTidy.Text MarkupTidy.Variable

/-! ### Nested fallbacks -/

namespace Placeholder

/-- The placeholder that stands in the brackets of another one's fallback. -/
def inner? (p : Placeholder) : Option Placeholder :=
  p.fallback?.bind fun fallback =>
    (readBody? (readKind (fallback ++ [']'])).2).map fun body =>
      { p with
        kind? := (readKind (fallback ++ [']'])).1
        reference := (splitBody body).1
        fallback? := (splitBody body).2 }

/-- Behind the opening of a placeholder another value is read with the same variants and utility. -/
theorem read?_opening_append {token : List Char} {p : Placeholder} (h : read? token = some p)
    (inside : List Char) : read? (p.opening ++ inside)
      = (readBody? (readKind inside).2).map fun body =>
          { p with
            kind? := (readKind inside).1
            reference := (splitBody body).1
            fallback? := (splitBody body).2 } := by
  simp only [read?, Option.bind_eq_bind, Option.bind_eq_some_iff] at h
  obtain ⟨⟨head, value⟩, hcut, h⟩ := h
  obtain ⟨rfl, hbracket⟩ := eq_of_cutAt? hcut
  dsimp only at h
  split at h
  · rename_i hlast
    split at h
    · rename_i hnames
      obtain ⟨body, -, h⟩ := Option.bind_eq_some_iff.1 h
      obtain rfl := Option.some.inj h
      obtain ⟨base, rfl⟩ := List.getLast?_eq_some_iff.1 hlast
      rw [List.dropLast_concat] at hnames ⊢
      obtain ⟨variants, hvariants⟩ := afterLast_suffix ':' base
      have htake : ∀ utility, variants ++ utility = base →
          base.take (base.length - utility.length) = variants := by
        rintro utility rfl
        simp
      have hopening : base.take (base.length - (afterLast ':' base).length) ++ afterLast ':' base
          ++ ['-', '['] ++ inside = (base ++ ['-']) ++ '[' :: inside := by
        rw [htake _ hvariants, hvariants]
        simp
      unfold read? opening
      dsimp only
      rw [hopening, cutAt?_append_cons hbracket]
      simp only [Option.bind_eq_bind, Option.bind_some, List.getLast?_concat, if_true,
        List.dropLast_concat]
      rw [if_pos hnames]
      cases readBody? (readKind inside).2 <;> rfl
    · exact absurd h (by simp)
  · exact absurd h (by simp)

/-- A placeholder that is left with its fallback: it names a variable, and its variants or its
utility keep it from being bound to it. -/
def IsInlined (p : Placeholder) : Prop :=
  cleanReference p.reference ≠ [] ∧
    (p.variants = [] → utilityBinding? (String.ofList p.utility) p.kind? p.fallback? = none)

instance (p : Placeholder) : Decidable p.IsInlined :=
  inferInstanceAs (Decidable (_ ∧ (_ → _)))

theorem IsInlined.resolve_eq {p : Placeholder} (h : p.IsInlined) (design : VariableTable) :
    p.resolve design = p.inlineFallback := by
  obtain ⟨hname, hbinding⟩ := h
  unfold resolve
  dsimp only
  rw [if_neg (by simpa using hname)]
  cases hvariants : p.variants with
  | nil => rw [List.isEmpty_nil, if_pos rfl, hbinding hvariants]
  | cons c variants => rfl

/-- Only what is left with its fallback gives way to it. -/
theorem isInlined_of_resolve {design : VariableTable} {p : Placeholder} {text : String}
    (h : p.resolve design = .fallback text) : p.IsInlined := by
  unfold resolve at h
  dsimp only at h
  split at h
  · exact absurd h (by simp)
  · rename_i hname
    refine ⟨by simpa using hname, fun hvariants => ?_⟩
    rw [hvariants, List.isEmpty_nil, if_pos rfl] at h
    split at h
    · assumption
    · split at h <;> exact absurd h (by simp)

/-- Text and border are bound whatever the kind of the value, and the others are bound or not
without regard to it. -/
theorem utilityBinding?_eq_none_congr {utility : String} {kind? : Option ValueKind}
    {fallback? : Option (List Char)} (h : utilityBinding? utility kind? fallback? = none)
    (kind'? : Option ValueKind) (fallback'? : Option (List Char)) :
    utilityBinding? utility kind'? fallback'? = none := by
  unfold utilityBinding? at h ⊢
  dsimp only at h ⊢
  split
  · rename_i htext
    rw [if_pos htext] at h
    exact absurd h (by simp)
  · rename_i htext
    rw [if_neg htext] at h
    split
    · rename_i hborder
      rw [if_pos hborder] at h
      exact absurd h (by simp)
    · rename_i hborder
      rw [if_neg hborder, Option.map_eq_none_iff] at h
      rw [h]
      rfl

/-- What stands in the brackets of a fallback is left with its own fallback, if it has a name. -/
theorem IsInlined.inner {p q : Placeholder} (h : p.IsInlined) (hinner : p.inner? = some q)
    (hname : cleanReference q.reference ≠ []) : q.IsInlined := by
  obtain ⟨fallback, -, hq⟩ := Option.bind_eq_some_iff.1 hinner
  obtain ⟨body, -, rfl⟩ := Option.map_eq_some_iff.1 hq
  exact ⟨hname, fun hvariants => utilityBinding?_eq_none_congr (h.2 hvariants) _ _⟩

/-- A placeholder that gives way to its fallback, where the fallback is a reference to a named
variable with a fallback of its own. -/
def IsNested (p : Placeholder) : Prop :=
  p.IsInlined ∧
    ∃ q ∈ p.inner?, cleanReference q.reference ≠ [] ∧ q.fallback? ≠ none

instance (p : Placeholder) : Decidable p.IsNested :=
  inferInstanceAs (Decidable (_ ∧ ∃ q ∈ p.inner?, _))

/-- A placeholder that is left with its fallback stays unrecognized where it has none. -/
theorem IsInlined.resolve_eq_unrecognized_iff {p : Placeholder} (h : p.IsInlined)
    (design : VariableTable) : p.resolve design = .unrecognized ↔ p.fallback? = none := by
  rw [h.resolve_eq, inlineFallback]
  cases p.fallback? <;> simp

/-- What stands in the brackets of a fallback gives way exactly if it is named and has a fallback of
its own. -/
theorem IsInlined.inner_resolve_ne_iff {p q : Placeholder} (h : p.IsInlined)
    (hinner : p.inner? = some q) (design : VariableTable) :
    q.resolve design ≠ .unrecognized ↔ cleanReference q.reference ≠ [] ∧ q.fallback? ≠ none := by
  by_cases hname : cleanReference q.reference = []
  · have hnone : q.resolve design = .unrecognized := by
      unfold resolve
      dsimp only
      rw [hname]
      rfl
    simp [hnone, hname]
  · rw [Ne, (h.inner hinner hname).resolve_eq_unrecognized_iff design]
    exact (and_iff_right hname).symm

end Placeholder

/-- A token whose placeholder has a nested fallback. -/
def IsNestedToken (token : List Char) : Prop :=
  ∃ p ∈ Placeholder.read? token, p.IsNested

instance (token : List Char) : Decidable (IsNestedToken token) :=
  inferInstanceAs (Decidable (∃ p ∈ Placeholder.read? token, _))

section
variable (design : VariableTable) {token : List Char}

/-- A fallback that takes the place of its token is read as the placeholder inside it. -/
theorem read?_resolvedToken_of_fallback {p : Placeholder} (hread : Placeholder.read? token = some p)
    (hinlined : p.IsInlined) {fallback : List Char} (hfallback : p.fallback? = some fallback) :
    Placeholder.read? (resolvedToken design token) = p.inner? := by
  have hresolved : resolvedToken design token = p.opening ++ (fallback ++ [']']) := by
    simp [resolvedToken, resolveToken?, hread, hinlined.resolve_eq, Placeholder.inlineFallback,
      hfallback, Resolution.token, Placeholder.opening]
  rw [hresolved, Placeholder.read?_opening_append hread, Placeholder.inner?, hfallback]
  rfl

/-- Resolving a token once more changes nothing, unless its fallback is nested. -/
theorem resolvedToken_resolvedToken_eq_iff (hline : '\n' ∉ token) :
    resolvedToken design (resolvedToken design token) = resolvedToken design token ↔
      ¬ IsNestedToken token := by
  have hlineResolved : '\n' ∉ resolvedToken design token := by
    intro hmem
    obtain hmem | hmem := mem_resolvedToken design hline hmem
    · exact hline hmem
    · exact hmem (by decide)
  cases hread : Placeholder.read? token with
  | none =>
    have hkept : resolvedToken design token = token := resolvedToken_of_read?_eq_none hread
    rw [hkept, hkept]
    simp [IsNestedToken, hread]
  | some p =>
    have hnested : IsNestedToken token ↔ p.IsNested := by simp [IsNestedToken, hread]
    rw [hnested]
    by_cases hinlined : p.IsInlined
    · cases hfallback : p.fallback? with
      | none =>
        have hresolve : p.resolve design = .unrecognized :=
          (hinlined.resolve_eq_unrecognized_iff design).2 hfallback
        have hkept : resolvedToken design token = token := by
          simp [resolvedToken, resolveToken?, hread, hresolve, Resolution.token]
        rw [hkept, hkept]
        simp [Placeholder.IsNested, Placeholder.inner?, hfallback]
      | some fallback =>
        rw [resolvedToken_eq_iff design hlineResolved, resolveToken?, String.toList_ofList,
          read?_resolvedToken_of_fallback design hread hinlined hfallback]
        cases hq : p.inner? with
        | none => simp [Placeholder.IsNested, hq]
        | some q =>
          have hgives := hinlined.inner_resolve_ne_iff hq design
          rw [Placeholder.IsNested, hq]
          simp only [Option.map_some, Option.some.injEq, forall_eq', Option.mem_def, exists_eq_left',
            ← hgives]
          simp [hinlined]
    · refine iff_of_true ?_ fun h => hinlined h.1
      obtain hkept | ⟨_, _, _, hname⟩ | ⟨_, hinlinedText, -⟩ := resolvedToken_forms design hline
      · rw [hkept.1, hkept.1]
      · exact resolvedToken_of_read?_eq_none (read?_eq_none_of_isNameFor hname)
      · rw [resolveToken?, String.toList_ofList, hread] at hinlinedText
        exact absurd (Placeholder.isInlined_of_resolve (Option.some.inj hinlinedText)) hinlined

/-- A replacement has no blanks but those of the token. -/
theorem mem_of_isBlank_resolvedToken (hline : '\n' ∉ token) {c : Char}
    (hc : c ∈ resolvedToken design token) (hblank : isBlank c = true) : c ∈ token := by
  obtain hkept | hreplaces := resolvedToken_cases design hline
  · rwa [hkept.1] at hc
  · generalize resolvedToken design token = text at hc hreplaces
    cases hreplaces with
    | name p body spells isName =>
      have hsolid := isName.isSolid c hc
      rw [hblank] at hsolid
      exact absurd hsolid (by simp)
    | fallback p body rest spells body_eq comma ne_nil =>
      rw [spells.token_eq_lead body_eq]
      simp only [List.mem_append, List.mem_cons, List.not_mem_nil, or_false] at hc ⊢
      obtain hc | hc | rfl := hc
      · exact Or.inl (Or.inl (Or.inl hc))
      · exact Or.inl (Or.inr (mem_of_mem_trim hc))
      · exact absurd hblank (by decide)

end

/-! ### Parts of class attributes -/

namespace ClassPiece

/-- What stands between single spaces in a class attribute. -/
def parts : ClassPiece → List (List Char)
  | other _ => []
  | classes _ value => splitOn ' ' value

theorem tokens_eq (piece : ClassPiece) :
    piece.tokens = (piece.parts.flatMap words).map String.ofList := by
  cases piece with
  | other c => rfl
  | classes q value => rw [tokens, parts, flatMap_words_splitOn]

theorem line_not_mem_part {piece : ClassPiece} (h : piece.IsSound) {part : List Char}
    (hpart : part ∈ piece.parts) : '\n' ∉ part := by
  cases piece with
  | other c => exact absurd hpart List.not_mem_nil
  | classes q value => exact fun hmem => h.2.2 (mem_of_mem_splitOn hpart hmem)

variable (design : VariableTable)

/-- The parts of a class attribute are resolved one by one. -/
theorem parts_resolve {piece : ClassPiece} (h : piece.IsSound) :
    (piece.resolve design).parts = piece.parts.map (resolvedToken design) := by
  cases piece with
  | other c => rfl
  | classes q value =>
    have hspace : ∀ part ∈ (splitOn ' ' value).map (resolvedToken design), ' ' ∉ part := by
      rw [List.forall_mem_map]
      intro part hpart hmem
      have hline := line_not_mem_part h hpart
      exact not_mem_of_mem_splitOn hpart
        (mem_of_isBlank_resolvedToken design hline hmem (by decide))
    exact splitOn_intercalate hspace (by simp [splitOn_ne_nil])

/-- A class attribute is its quote and its parts. -/
theorem eq_of_parts {q : Char} {value value' : List Char}
    (h : (classes q value).parts = (classes q value').parts) : value = value' := by
  rw [← intercalate_splitOn ' ' value, ← intercalate_splitOn ' ' value']
  exact congrArg _ h

/-- Resolving a resolved piece changes nothing exactly if it changes none of its parts. -/
theorem resolve_resolve_eq_iff {piece : ClassPiece} (h : piece.IsSound) :
    (piece.resolve design).resolve design = piece.resolve design ↔
      ∀ part ∈ piece.parts, resolvedToken design (resolvedToken design part)
        = resolvedToken design part := by
  have hparts : ((piece.resolve design).resolve design).parts = (piece.resolve design).parts ↔
      ∀ part ∈ piece.parts, resolvedToken design (resolvedToken design part)
        = resolvedToken design part := by
    rw [parts_resolve design (h.resolve design), parts_resolve design h, List.map_map,
      List.map_inj_left]
    simp only [Function.comp_apply]
  rw [← hparts]
  cases piece with
  | other c => simp [resolve]
  | classes q value => exact ⟨fun heq => congrArg parts heq, fun heq => congrArg (classes q) (eq_of_parts heq)⟩

end ClassPiece

/-- What stands between single spaces in the class attributes of a text. -/
def classParts (code : List Char) : List (List Char) :=
  (ClassPiece.split code).flatMap ClassPiece.parts

/-- The class tokens of a text. -/
def classTokensOf (code : List Char) : List (List Char) :=
  (classParts code).flatMap words

theorem countPlaceholders_split (code : List Char) : countPlaceholders (ClassPiece.split code)
    = (classTokensOf code).countP fun token => (Placeholder.read? token).isSome := by
  unfold countPlaceholders classTokensOf classParts
  rw [← List.countP_eq_length_filter, List.countP_flatMap, List.flatMap_assoc, List.countP_flatMap]
  refine congrArg List.sum (List.map_congr_left fun piece _ => ?_)
  simp only [Function.comp_apply, ClassPiece.tokens_eq, List.countP_map]
  congr 1
  funext w
  simp [isPlaceholder]

section
variable (design : VariableTable) (table : ClassTable) (code : List Char)

theorem found_sweep_eq : (sweep design table code).found = countPlaceholders (ClassPiece.split code) := by
  unfold sweep
  dsimp only
  split
  · rename_i h
    exact h.symm
  · rfl

/-- A text without placeholders is left alone. -/
theorem sweep_of_found_eq_zero (h : (sweep design table code).found = 0) :
    sweep design table code = ⟨code, table, 0, 0, []⟩ := by
  rw [found_sweep_eq] at h
  unfold sweep
  dsimp only
  rw [if_pos h]

/-- A text with placeholders is swept piece by piece. -/
theorem split_code_sweep (h : (sweep design table code).found ≠ 0) :
    ClassPiece.split (sweep design table code).code
      = (ClassPiece.split code).map (·.resolve design) := by
  rw [found_sweep_eq] at h
  unfold sweep
  dsimp only
  rw [if_neg h]
  exact ClassPiece.split_join_resolve design code

/-- A sweep resolves the parts of class attributes one by one. -/
theorem classParts_sweep (h : (sweep design table code).found ≠ 0) :
    classParts (sweep design table code).code = (classParts code).map (resolvedToken design) := by
  unfold classParts
  rw [split_code_sweep design table code h, List.flatMap_map, List.map_flatMap,
    List.flatMap_def, List.flatMap_def]
  refine congrArg List.flatten (List.map_congr_left fun piece hpiece => ?_)
  exact ClassPiece.parts_resolve design (ClassPiece.isSound_of_mem_split hpiece)

/-- What is fixed is counted in the swept text. -/
theorem fixed_sweep_eq : (sweep design table code).fixed = (sweep design table code).found
    - countPlaceholders (ClassPiece.split (sweep design table code).code) := by
  by_cases h : (sweep design table code).found = 0
  · rw [sweep_of_found_eq_zero design table code h]
    rw [found_sweep_eq] at h
    dsimp only
    omega
  · rw [found_sweep_eq] at h
    unfold sweep
    dsimp only
    rw [if_neg h]

/-- A text with placeholders stays the same in a sweep exactly if all its class attributes do. -/
theorem code_sweep_eq_iff (h : (sweep design table code).found ≠ 0) :
    (sweep design table code).code = code ↔
      ∀ piece ∈ ClassPiece.split code, piece.resolve design = piece := by
  have hmap : (ClassPiece.split code).map (·.resolve design) = ClassPiece.split code ↔
      ∀ piece ∈ ClassPiece.split code, piece.resolve design = piece := by
    conv => lhs; rhs; rw [← List.map_id (ClassPiece.split code)]
    exact List.map_inj_left
  rw [← hmap, ← split_code_sweep design table code h]
  constructor
  · intro heq
    rw [heq]
  · intro heq
    rw [← ClassPiece.join_split (sweep design table code).code, heq, ClassPiece.join_split]

/-! ### Two sweeps -/

/-- What one sweep leaves to the next: only placeholders that stay unrecognized, so that a second
sweep leaves the text as it is and fixes nothing. -/
structure Settles : Prop where
  residue : ∀ piece ∈ ClassPiece.split (sweep design table code).code, ∀ token ∈ piece.tokens,
    isPlaceholder token = true → resolveToken? design token = some .unrecognized
  code_again : (sweep design (sweep design table code).table (sweep design table code).code).code
    = (sweep design table code).code
  fixed_again : (sweep design (sweep design table code).table (sweep design table code).code).fixed
    = 0

/-- The class attributes of a text whose placeholders all are resolved at once: no part of them has
a nested fallback, where a part with a blank inside, which is several tokens to the count, leaves no
token behind that gives way, and has no nested fallback at least if any placeholder is left. -/
structure IsSettledAtOnce : Prop where
  single : ∀ part ∈ classParts code, IsSolid part → ¬ IsNestedToken part
  tokens : ∀ part ∈ classParts code, ¬ IsSolid part →
    ∀ token ∈ words (resolvedToken design part), resolvedToken design token = token
  broken : (∃ part ∈ classParts code, ∃ token ∈ words (resolvedToken design part),
      Placeholder.read? token ≠ none) →
    ∀ part ∈ classParts code, ¬ IsSolid part → ¬ IsNestedToken part

/-- The tokens of a swept text are those of its resolved parts. -/
theorem classTokensOf_sweep (h : (sweep design table code).found ≠ 0) :
    classTokensOf (sweep design table code).code
      = (classParts code).flatMap fun part => words (resolvedToken design part) := by
  rw [classTokensOf, classParts_sweep design table code h, List.flatMap_map]

theorem residue_iff : (∀ piece ∈ ClassPiece.split code, ∀ token ∈ piece.tokens,
      isPlaceholder token = true → resolveToken? design token = some .unrecognized) ↔
    ∀ token ∈ classTokensOf code, resolvedToken design token = token := by
  have hword : ∀ token, IsSolid token → ((isPlaceholder (String.ofList token) = true →
      resolveToken? design (String.ofList token) = some .unrecognized) ↔
        resolvedToken design token = token) := by
    intro token hsolid
    rw [resolvedToken_eq_iff design fun hmem => absurd (hsolid _ hmem) (by decide), isPlaceholder,
      resolveToken?, String.toList_ofList]
    cases Placeholder.read? token <;> simp
  simp only [classTokensOf, classParts, List.mem_flatMap, ClassPiece.tokens_eq, List.mem_map]
  constructor
  · rintro h token ⟨part, ⟨piece, hpiece, hpart⟩, htoken⟩
    exact (hword token (isSolid_of_mem_words htoken).1).1
      (h piece hpiece _ ⟨token, ⟨part, hpart, htoken⟩, rfl⟩)
  · rintro h piece hpiece _ ⟨token, ⟨part, hpart, htoken⟩, rfl⟩
    exact (hword token (isSolid_of_mem_words htoken).1).2
      (h token ⟨part, ⟨piece, hpiece, hpart⟩, htoken⟩)

theorem found_eq_zero_iff : (sweep design table code).found = 0 ↔
    ∀ token ∈ classTokensOf code, Placeholder.read? token = none := by
  rw [found_sweep_eq, countPlaceholders_split, List.countP_eq_zero]
  simp

/-- The word that a solid part is resolved to is resolved for good unless its fallback is nested. -/
theorem words_resolvedToken_kept_iff {part : List Char} (hs : IsSolid part) :
    (∀ token ∈ words (resolvedToken design part), resolvedToken design token = token) ↔
      ¬ IsNestedToken part := by
  rw [← resolvedToken_resolvedToken_eq_iff design fun hmem => absurd (hs _ hmem) (by decide)]
  by_cases hnil : part = []
  · subst hnil
    exact iff_of_true (List.forall_mem_nil _) rfl
  · obtain ⟨hsolid, hne⟩ := isSolid_resolvedToken design hs hnil
    rw [words_of_isSolid hsolid hne, List.forall_mem_singleton]

/-- What a sweep leaves unrecognized. -/
theorem residue_sweep_iff (h : (sweep design table code).found ≠ 0) :
    (∀ piece ∈ ClassPiece.split (sweep design table code).code, ∀ token ∈ piece.tokens,
        isPlaceholder token = true → resolveToken? design token = some .unrecognized) ↔
      (∀ part ∈ classParts code, IsSolid part → ¬ IsNestedToken part) ∧
        ∀ part ∈ classParts code, ¬ IsSolid part →
          ∀ token ∈ words (resolvedToken design part), resolvedToken design token = token := by
  rw [residue_iff, classTokensOf_sweep design table code h, List.forall_mem_flatMap]
  constructor
  · intro hkept
    refine ⟨fun part hpart hs => ?_, fun part hpart _ => hkept part hpart⟩
    exact (words_resolvedToken_kept_iff design hs).1 (hkept part hpart)
  · rintro ⟨hsingle, htokens⟩ part hpart
    by_cases hs : IsSolid part
    · exact (words_resolvedToken_kept_iff design hs).2 (hsingle part hpart hs)
    · exact htokens part hpart hs

/-- A second sweep changes nothing exactly if it finds nothing or no fallback of the text is
nested. -/
theorem code_again_iff (h : (sweep design table code).found ≠ 0) (table' : ClassTable) :
    (sweep design table' (sweep design table code).code).code = (sweep design table code).code ↔
      (sweep design table' (sweep design table code).code).found = 0 ∨
        ∀ part ∈ classParts code, ¬ IsNestedToken part := by
  have hnested : (∀ piece ∈ ClassPiece.split (sweep design table code).code,
        piece.resolve design = piece) ↔ ∀ part ∈ classParts code, ¬ IsNestedToken part := by
    rw [split_code_sweep design table code h, List.forall_mem_map, classParts,
      List.forall_mem_flatMap]
    refine forall₂_congr fun piece hpiece => ?_
    have hsound := ClassPiece.isSound_of_mem_split hpiece
    rw [ClassPiece.resolve_resolve_eq_iff design hsound]
    exact forall₂_congr fun part hpart =>
      resolvedToken_resolvedToken_eq_iff design (ClassPiece.line_not_mem_part hsound hpart)
  by_cases hagain : (sweep design table' (sweep design table code).code).found = 0
  · rw [sweep_of_found_eq_zero design table' _ hagain]
    simp
  · rw [code_sweep_eq_iff design table' _ hagain, hnested]
    simp [hagain]

/-- One sweep leaves nothing to the next exactly if it finds nothing, or all it finds is settled at
once. -/
theorem settles_iff : Settles design table code ↔
    (sweep design table code).found = 0 ∨ IsSettledAtOnce design code := by
  by_cases hfound : (sweep design table code).found = 0
  · refine iff_of_true ?_ (Or.inl hfound)
    have hsame := sweep_of_found_eq_zero design table code hfound
    refine ⟨?_, ?_, ?_⟩
    · rw [hsame, residue_iff]
      intro token htoken
      exact resolvedToken_of_read?_eq_none ((found_eq_zero_iff design table code).1 hfound token htoken)
    · rw [hsame]
      exact congrArg Sweep.code hsame
    · rw [hsame]
      exact congrArg Sweep.fixed hsame
  · have hleft : (sweep design (sweep design table code).table (sweep design table code).code).found
        ≠ 0 ↔ ∃ part ∈ classParts code, ∃ token ∈ words (resolvedToken design part),
          Placeholder.read? token ≠ none := by
      rw [Ne, found_eq_zero_iff, classTokensOf_sweep design table code hfound,
        List.forall_mem_flatMap]
      simp
    have hagain := code_again_iff design table code hfound (sweep design table code).table
    rw [or_iff_right hfound]
    constructor
    · intro h
      obtain ⟨hsingle, htokens⟩ := (residue_sweep_iff design table code hfound).1 h.residue
      refine ⟨hsingle, htokens, fun hplaceholder part hpart _ => ?_⟩
      exact (hagain.1 h.code_again).resolve_left (hleft.2 hplaceholder) part hpart
    · intro h
      have hcode := hagain.2 <| by
        by_cases hnone : (sweep design (sweep design table code).table
            (sweep design table code).code).found = 0
        · exact Or.inl hnone
        · refine Or.inr fun part hpart => ?_
          by_cases hs : IsSolid part
          · exact h.single part hpart hs
          · exact h.broken (hleft.1 hnone) part hpart hs
      refine ⟨(residue_sweep_iff design table code hfound).2 ⟨h.single, h.tokens⟩, hcode, ?_⟩
      rw [fixed_sweep_eq, hcode, found_sweep_eq]
      exact Int.sub_self _

/-- A fallback that is a reference again gives way to its own fallback only in the second sweep. -/
theorem nested_fallback_not_settled :
    ¬ Settles .empty .empty "className=\"z-[var(--a,var(--b,4px))]\"".toList := by
  intro h
  have hchanged : (sweep .empty (sweep .empty .empty
        "className=\"z-[var(--a,var(--b,4px))]\"".toList).table
      (sweep .empty .empty "className=\"z-[var(--a,var(--b,4px))]\"".toList).code).code
        ≠ (sweep .empty .empty "className=\"z-[var(--a,var(--b,4px))]\"".toList).code := by
    decide +kernel
  exact hchanged h.code_again

end

end MarkupTidy
