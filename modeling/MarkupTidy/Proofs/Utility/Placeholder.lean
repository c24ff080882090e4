import MarkupTidy.Proofs.Utility.ClassNames
import MarkupTidy.Proofs.Variable.Reference
import MarkupTidy.Utility.Sweep

/-! # Placeholder tokens and what takes their place

A placeholder token on one line is an opening such as `hover:p-[`, an optional kind, and a
reference with what belongs to it.  It gives way to a name, which holds no parentheses and no
blanks, or to its own fallback behind the same opening.

* `Placeholder.Spells`: the parts of a placeholder in its token; `Placeholder.exists_spells`.
* `Placeholder.exists_binding_of_resolve`: where a generated class comes from.
* `IsNameFor`: a name of a class that is made for a token.
* `Replaces`: what takes the place of a token; `resolvedToken_forms`: a token stays, or a name
  takes its place, or its fallback. -/

namespace MarkupTidy

open MarkupTidy.Text MarkupTidy.Variable MarkupTidy.Markup

/-- A character that every name may hold: no blank, no parenthesis, no quote, no equals sign and no
capital letter. -/
def IsSafe (c : Char) : Prop :=
  isBlank c = false ∧ c ∉ ['(', ')', '"', '\'', '='] ∧ c.isUpper = false

instance (c : Char) : Decidable (IsSafe c) :=
  inferInstanceAs (Decidable (_ ∧ _))

theorem isSafe_of_mem_utility {utility : List Char} (h : Placeholder.isUtility utility = true)
    {c : Char} (hc : c ∈ utility) : IsSafe c := by
  have hletter : ∀ n < 0x80, Placeholder.isLowerLetter (Char.ofNat n) = true →
      IsSafe (Char.ofNat n) := by decide +kernel
  have hlower : ∀ {d : Char}, Placeholder.isLowerLetter d = true → IsSafe d := by
    intro d hd
    have hle : d ≤ 'z' := by
      simp only [Placeholder.isLowerLetter, Bool.and_eq_true, decide_eq_true_eq] at hd
      exact hd.2
    have hlt : d.toNat < 0x80 := Nat.lt_of_le_of_lt hle (by decide)
    simpa only [Char.ofNat_toNat] using hletter d.toNat hlt (by rwa [Char.ofNat_toNat])
  have hname : ∀ {cs : List Char}, Placeholder.isUtilityName cs = true → c ∈ cs → IsSafe c := by
    intro cs hcs hc
    cases cs with
    | nil => exact absurd hc List.not_mem_nil
    | cons d rest =>
      simp only [Placeholder.isUtilityName, Bool.and_eq_true, List.all_eq_true, Bool.or_eq_true,
        beq_iff_eq] at hcs
      obtain rfl | hc := List.mem_cons.1 hc
      · exact hlower hcs.1
      · obtain h | rfl := hcs.2 c hc
        · exact hlower h
        · decide
  unfold Placeholder.isUtility at h
  split at h
  · obtain rfl | hc := List.mem_cons.1 hc
    · decide
    · exact hname h hc
  · exact hname h hc

namespace Placeholder

/-- What a placeholder token begins with. -/
def opening (p : Placeholder) : List Char :=
  p.variants ++ p.utility ++ ['-', '[']

/-- How the kind of a value is written. -/
def kindText : Option ValueKind → List Char
  | none => []
  | some .color => "color:".toList
  | some .length => "length:".toList

/-- A token on one line that a placeholder is read from, with the body of its reference. -/
structure Spells (p : Placeholder) (body token : List Char) : Prop where
  token_eq : token = p.opening ++ (kindText p.kind? ++ ("var(".toList ++ (body ++ [')', ']'])))
  body_eq : splitBody body = (p.reference, p.fallback?)
  utility : isUtility p.utility = true
  variants : areVariants p.variants = true
  bracket : '[' ∉ p.variants ++ p.utility

theorem readKind_eq {cs value : List Char} {kind? : Option ValueKind}
    (h : readKind cs = (kind?, value)) : cs = kindText kind? ++ value := by
  unfold readKind at h
  split at h
  · rename_i rest hrest
    obtain ⟨rfl, rfl⟩ := Prod.mk.inj h
    exact afterText?_eq_some.1 hrest
  · split at h
    · rename_i rest hrest
      obtain ⟨rfl, rfl⟩ := Prod.mk.inj h
      exact afterText?_eq_some.1 hrest
    · obtain ⟨rfl, rfl⟩ := Prod.mk.inj h
      rfl

theorem readBody?_eq {cs body : List Char} (h : readBody? cs = some body) (hline : '\n' ∉ cs) :
    cs = "var(".toList ++ (body ++ [')', ']']) := by
  simp only [readBody?, Option.bind_eq_bind, Option.bind_eq_some_iff] at h
  obtain ⟨rest, hrest, h⟩ := h
  rw [afterText?_eq_some] at hrest
  have hdrop : dropFinalNewline rest = rest := by
    unfold dropFinalNewline
    rw [if_neg]
    intro hlast
    refine hline ?_
    rw [hrest]
    exact List.mem_append_right _ (List.mem_of_getLast? hlast)
  rw [hdrop] at h
  split at h
  · rename_i hends
    obtain ⟨front, rfl⟩ := List.isSuffixOf_iff_suffix.1 hends
    split at h
    · obtain rfl := Option.some.inj h
      rw [hrest]
      simp
    · exact absurd h (by simp)
  · exact absurd h (by simp)

/-- The parts of a placeholder make up its token. -/
theorem exists_spells {token : List Char} {p : Placeholder} (h : read? token = some p)
    (hline : '\n' ∉ token) : ∃ body, p.Spells body token := by
  simp only [read?, Option.bind_eq_bind, Option.bind_eq_some_iff] at h
  obtain ⟨⟨head, inside⟩, hcut, h⟩ := h
  obtain ⟨rfl, hbracket⟩ := eq_of_cutAt? hcut
  dsimp only at h
  split at h
  · rename_i hlast
    split at h
    · rename_i hnames
      simp only [Bool.and_eq_true] at hnames
      obtain ⟨body, hbody, h⟩ := Option.bind_eq_some_iff.1 h
      obtain rfl := Option.some.inj h
      obtain ⟨base, rfl⟩ := List.getLast?_eq_some_iff.1 hlast
      rw [List.dropLast_concat] at hnames ⊢
      obtain ⟨variants, hvariants⟩ := afterLast_suffix ':' base
      have htake : ∀ utility, variants ++ utility = base →
          base.take (base.length - utility.length) = variants := by
        rintro utility rfl
        simp
      rw [htake _ hvariants] at hnames ⊢
      have hinside : inside = kindText (readKind inside).1 ++ (readKind inside).2 := readKind_eq rfl
      have hvalue := readBody?_eq hbody fun hmem => hline (by rw [hinside]; simp [hmem])
      refine ⟨body, ?_, rfl, hnames.1, hnames.2, ?_⟩
      · rw [opening, hvariants, ← hvalue]
        dsimp only
        rw [← hinside]
        simp
      · rw [hvariants]
        exact fun hmem => hbracket (List.mem_append_left _ hmem)
    · exact absurd h (by simp)
  · exact absurd h (by simp)

/-- A fallback stands behind the first comma of a body, with blanks around it. -/
theorem exists_of_splitBody {body reference fallback : List Char}
    (h : splitBody body = (reference, some fallback)) :
    ∃ rest, body = reference ++ ',' :: rest ∧ fallback = trim rest ∧ fallback ≠ [] ∧
      ',' ∉ reference := by
  unfold splitBody at h
  split at h
  · exact absurd (Prod.mk.inj h).2 (by simp)
  · rename_i front rest hcut
    obtain ⟨rfl, hfallback⟩ := Prod.mk.inj h
    split at hfallback
    · exact absurd hfallback (by simp)
    · rename_i hne
      obtain rfl := Option.some.inj hfallback
      exact ⟨rest, (eq_of_cutAt? hcut).1, rfl, by simpa using hne, (eq_of_cutAt? hcut).2⟩

/-- The variants and the utility of a placeholder hold no blanks. -/
theorem Spells.isSolid_opening {p : Placeholder} {body token : List Char}
    (h : p.Spells body token) : IsSolid p.opening := by
  have hvariants : IsSolid p.variants := by
    have hall := h.variants
    unfold areVariants at hall
    split at hall
    · rename_i variants hsplit
      intro c hc
      obtain rfl | ⟨part, hpart, hc⟩ := mem_splitOn ':' hc
      · decide
      · rw [← List.mem_reverse, hsplit] at hpart
        obtain rfl | hpart := List.mem_cons.1 hpart
        · exact absurd hc List.not_mem_nil
        · have hchars := List.all_eq_true.1 hall part hpart
          simp only [Bool.and_eq_true, List.all_eq_true] at hchars
          have hchar := hchars.2 c hc
          simp only [isVariantChar, Bool.or_eq_true, beq_iff_eq] at hchar
          obtain hword | rfl := hchar
          · exact isBlank_of_isWordChar hword
          · decide
    · exact absurd hall (by simp)
  have hutility : IsSolid p.utility := fun c hc => (isSafe_of_mem_utility h.utility hc).1
  exact isSolid_append.2 ⟨isSolid_append.2 ⟨hvariants, hutility⟩, by decide⟩

theorem mem_body_of_mem_reference {body reference : List Char} {fallback? : Option (List Char)}
    (h : splitBody body = (reference, fallback?)) {c : Char} (hc : c ∈ reference) : c ∈ body := by
  unfold splitBody at h
  split at h
  · rwa [(Prod.mk.inj h).1]
  · rename_i front rest hcut
    rw [(eq_of_cutAt? hcut).1, (Prod.mk.inj h).1]
    exact List.mem_append_left _ hc

theorem Spells.mem_token {p : Placeholder} {body token : List Char} (h : p.Spells body token)
    {c : Char} (hc : c ∈ body) : c ∈ token := by
  rw [h.token_eq]
  simp [hc]

/-! ### What a placeholder becomes -/

/-- All that a placeholder can become: nothing, its fallback, a standard colour, or a class that is
generated for its utility. -/
theorem resolve_cases (design : VariableTable) (p : Placeholder) :
    p.resolve design = .unrecognized ∨
      (∃ fallback, p.fallback? = some fallback ∧
        p.resolve design = .fallback (String.ofList (p.opening ++ (fallback ++ [']'])))) ∨
      (∃ keyword, keyword ∈ colorKeywords.map Prod.snd ∧
        p.resolve design = .canonical (String.ofList p.utility ++ "-" ++ keyword)) ∨
      ∃ binding, utilityBinding? (String.ofList p.utility) p.kind? p.fallback? = some binding ∧
        p.resolve design = .synthesized (p.boundClass binding (cleanReference p.reference)) := by
  unfold resolve
  dsimp only
  split
  · exact Or.inl rfl
  · split
    · unfold inlineFallback
      cases p.fallback? with
      | none => exact Or.inl rfl
      | some fallback => exact Or.inr (Or.inl ⟨fallback, rfl, by simp [opening]⟩)
    · rename_i binding hbinding
      split at hbinding
      · split
        · rename_i keyword hkeyword
          refine Or.inr (Or.inr (Or.inl ⟨keyword, ?_, rfl⟩))
          split at hkeyword
          · obtain ⟨before, after, htable, -⟩ := List.lookup_eq_some_iff.1 hkeyword
            rw [htable]
            simp
          · exact absurd hkeyword (by simp)
        · exact Or.inr (Or.inr (Or.inr ⟨binding, hbinding, rfl⟩))
      · exact absurd hbinding (by simp)

/-- What a placeholder is resolved to, if a class is generated for it. -/
theorem exists_binding_of_resolve {design : VariableTable} {p : Placeholder} {e : ClassEntry}
    (h : p.resolve design = .synthesized e) :
    ∃ binding, utilityBinding? (String.ofList p.utility) p.kind? p.fallback? = some binding ∧
      e = p.boundClass binding (cleanReference p.reference) := by
  obtain hr | ⟨_, _, hr⟩ | ⟨_, _, hr⟩ | ⟨binding, hbinding, hr⟩ := resolve_cases design p
  · rw [hr] at h
    exact absurd h (by simp)
  · rw [hr] at h
    exact absurd h (by simp)
  · rw [hr] at h
    exact absurd h (by simp)
  · rw [hr] at h
    exact ⟨binding, hbinding, (Resolution.synthesized.inj h).symm⟩

end Placeholder

/-! ### Names of classes -/

/-- A name of a class that is made for a token: it has no blanks, no parentheses and no capital
letters, and no quotes but from the token. -/
structure IsNameFor (token name : List Char) : Prop where
  ne_nil : name ≠ []
  char : ∀ c ∈ name,
    IsSafe c ∨ c ∈ token ∧ isBlank c = false ∧ c ≠ '(' ∧ c ≠ ')' ∧ c.isUpper = false

namespace IsNameFor

theorem isSolid {token name : List Char} (h : IsNameFor token name) : IsSolid name :=
  fun c hc => (h.char c hc).elim And.left fun hc => hc.2.1

theorem open_not_mem {token name : List Char} (h : IsNameFor token name) : '(' ∉ name :=
  fun hc => (h.char _ hc).elim (by decide) fun hc => hc.2.2.1 rfl

theorem close_not_mem {token name : List Char} (h : IsNameFor token name) : ')' ∉ name :=
  fun hc => (h.char _ hc).elim (by decide) fun hc => hc.2.2.2.1 rfl

theorem isUpper_of_mem {token name : List Char} (h : IsNameFor token name) {c : Char}
    (hc : c ∈ name) : c.isUpper = false :=
  (h.char c hc).elim (fun hsafe => hsafe.2.2) fun hc => hc.2.2.2.2

theorem isSafe_of_isLowered {c : Char} (h : IsLowered c) : IsSafe c := by
  refine ⟨h.2, fun hc => ?_, h.isUpper⟩
  simp only [List.mem_cons, List.not_mem_nil, or_false] at hc
  obtain rfl | rfl | rfl | rfl | rfl := hc <;> exact absurd h.1 (by decide)

theorem isSafe_of_mem_bases : ∀ p ∈ ClassTarget.bases, ∀ c ∈ p.1.toList, IsSafe c := by
  decide +kernel

theorem isSafe_of_mem_colorKeywords :
    ∀ keyword ∈ colorKeywords.map Prod.snd, ∀ c ∈ keyword.toList, IsSafe c := by
  decide +kernel

theorem isSafe_of_mem_standIns : ∀ c ∈ ['_', '-', 'd', 'o', 't'], IsSafe c := by
  decide +kernel

theorem standard {token utility : List Char} (h : Placeholder.isUtility utility = true)
    {keyword : String} (hkeyword : keyword ∈ colorKeywords.map Prod.snd) :
    IsNameFor token (String.ofList utility ++ "-" ++ keyword).toList := by
  refine ⟨by simp, fun c hc => Or.inl ?_⟩
  simp only [String.toList_append, String.toList_ofList, List.mem_append] at hc
  obtain (hc | hc) | hc := hc
  · exact isSafe_of_mem_utility h hc
  · obtain rfl : c = '-' := by simpa using hc
    decide
  · exact isSafe_of_mem_colorKeywords keyword hkeyword c hc

theorem generated {p : Placeholder} {body token : List Char} (h : p.Spells body token)
    {binding : UtilityBinding}
    (hbinding : utilityBinding? (String.ofList p.utility) p.kind? p.fallback? = some binding) :
    IsNameFor token (p.boundClass binding (cleanReference p.reference)).name.toList := by
  have hbase := isSafe_of_mem_bases _ (ClassTarget.mem_bases_of_utilityBinding? hbinding)
  have hname : (p.boundClass binding (cleanReference p.reference)).name.toList
      = binding.classBase.toList ++ '-' :: cleanReference p.reference := by
    simp [Placeholder.boundClass]
  rw [hname]
  refine ⟨by simp, fun c hc => ?_⟩
  rw [List.mem_append, List.mem_cons] at hc
  obtain hc | rfl | hc := hc
  · exact Or.inl (hbase c hc)
  · exact Or.inl (by decide)
  · have hupper := isUpper_of_mem_cleanReference hc
    obtain ⟨hblank, hopen, hclose, hc | hc | hc⟩ := mem_cleanReference hc
    · have hbody := Placeholder.mem_body_of_mem_reference h.body_eq hc
      exact Or.inr ⟨h.mem_token hbody, hblank, hopen, hclose, hupper⟩
    · exact Or.inl (isSafe_of_mem_standIns c hc)
    · exact Or.inl (isSafe_of_isLowered hc)

end IsNameFor

/-! ### What takes the place of a token -/

/-- A text that takes the place of a placeholder token on one line: a name, or the fallback of the
placeholder behind its opening. -/
inductive Replaces (token : List Char) : List Char → Prop where
  | name {text : List Char} (p : Placeholder) (body : List Char) (spells : p.Spells body token)
      (isName : IsNameFor token text) : Replaces token text
  | fallback (p : Placeholder) (body rest : List Char) (spells : p.Spells body token)
      (body_eq : body = p.reference ++ ',' :: rest) (comma : ',' ∉ p.reference)
      (ne_nil : trim rest ≠ []) : Replaces token (p.opening ++ (trim rest ++ [']']))

namespace Replaces

variable {token text : List Char}

/-- A replacement is another text. -/
theorem ne (h : Replaces token text) : text ≠ token := by
  rintro rfl
  cases h with
  | name p body spells isName =>
    refine absurd isName.open_not_mem (not_not_intro ?_)
    rw [spells.token_eq]
    simp
  | fallback p body rest spells body_eq comma ne_nil =>
    have htoken := congrArg List.length spells.token_eq
    have hrest := (trim_sublist rest).length_le
    simp only [body_eq, List.length_append, List.length_cons, List.length_nil] at htoken
    omega

/-- A replacement has no quotes, line breaks and equals signs but the token's own. -/
theorem mem (h : Replaces token text) {c : Char} (hc : c ∈ text) :
    c ∈ token ∨ c ∉ ['"', '\'', '\n', '='] := by
  cases h with
  | name p body spells isName =>
    obtain hsafe | hmem := isName.char c hc
    · refine Or.inr fun hq => ?_
      simp only [List.mem_cons, List.not_mem_nil, or_false] at hq
      obtain rfl | rfl | rfl | rfl := hq <;> exact absurd hsafe (by decide)
    · exact Or.inl hmem.1
  | fallback p body rest spells body_eq comma ne_nil =>
    left
    rw [spells.token_eq, body_eq]
    simp only [List.mem_append, List.mem_cons] at hc ⊢
    obtain hc | hc | hc | hc := hc
    · exact Or.inl hc
    · have := mem_of_mem_trim hc
      simp [this]
    · simp [hc]
    · exact absurd hc List.not_mem_nil

end Replaces

section
variable (design : VariableTable) {token : List Char}

/-- A token on one line is no placeholder or stays unrecognized, or a name takes its place, or else
its own fallback. -/
theorem resolveToken?_forms (hline : '\n' ∉ token) :
    (∀ r, resolveToken? design (String.ofList token) = some r → r = .unrecognized) ∨
      (∃ p body, Placeholder.Spells p body token ∧
        IsNameFor token (resolvedToken design token)) ∨
      ∃ inlined, resolveToken? design (String.ofList token) = some (.fallback inlined) ∧
        Replaces token (resolvedToken design token) := by
  unfold resolvedToken resolveToken?
  rw [String.toList_ofList]
  cases hread : Placeholder.read? token with
  | none => exact Or.inl fun r hr => absurd hr (by simp)
  | some p =>
    obtain ⟨body, hspells⟩ := Placeholder.exists_spells hread hline
    obtain hr | ⟨fallback, hfallback, hr⟩ | ⟨keyword, hkeyword, hr⟩ | ⟨binding, hbinding, hr⟩ :=
      Placeholder.resolve_cases design p
    · exact Or.inl (by simp [hr])
    · obtain ⟨rest, hbody, rfl, hne, hcomma⟩ :=
        Placeholder.exists_of_splitBody (hspells.body_eq.trans (by rw [hfallback]))
      refine Or.inr (Or.inr ⟨_, congrArg some hr, ?_⟩)
      simp only [Option.map_some, hr, Resolution.token, String.toList_ofList]
      exact .fallback p body rest hspells hbody hcomma hne
    · refine Or.inr (Or.inl ⟨p, body, hspells, ?_⟩)
      simp only [Option.map_some, hr, Resolution.token]
      exact .standard hspells.utility hkeyword
    · refine Or.inr (Or.inl ⟨p, body, hspells, ?_⟩)
      simp only [Option.map_some, hr, Resolution.token]
      exact .generated hspells hbinding

/-- A token that is no placeholder or an unrecognized one stays, and no class is generated. -/
theorem resolvedToken_of_unrecognized
    (h : ∀ r, resolveToken? design (String.ofList token) = some r → r = .unrecognized) :
    resolvedToken design token = token ∧
      (resolveToken? design (String.ofList token)).bind Resolution.entry? = none := by
  unfold resolvedToken
  cases hr : resolveToken? design (String.ofList token) with
  | none => exact ⟨rfl, rfl⟩
  | some r =>
    rw [h r hr]
    exact ⟨String.toList_ofList, rfl⟩

/-- A token on one line stays, with no class generated, or a name takes its place, or else its own
fallback. -/
theorem resolvedToken_forms (hline : '\n' ∉ token) :
    (resolvedToken design token = token ∧
        (resolveToken? design (String.ofList token)).bind Resolution.entry? = none) ∨
      (∃ p body, Placeholder.Spells p body token ∧
        IsNameFor token (resolvedToken design token)) ∨
      ∃ inlined, resolveToken? design (String.ofList token) = some (.fallback inlined) ∧
        Replaces token (resolvedToken design token) :=
  (resolveToken?_forms design hline).imp_left (resolvedToken_of_unrecognized design)

/-- Only what is no placeholder or an unrecognized one stays as it is. -/
theorem resolvedToken_eq_iff (hline : '\n' ∉ token) : resolvedToken design token = token ↔
    ∀ r, resolveToken? design (String.ofList token) = some r → r = .unrecognized := by
  refine ⟨fun hkept => ?_, fun h => (resolvedToken_of_unrecognized design h).1⟩
  obtain h | ⟨p, body, hspells, hname⟩ | ⟨_, _, hreplaces⟩ := resolveToken?_forms design hline
  · exact h
  · exact absurd hkept (Replaces.name p body hspells hname).ne
  · exact absurd hkept hreplaces.ne

/-- A token on one line stays, with no class generated, or it is replaced. -/
theorem resolvedToken_cases (hline : '\n' ∉ token) :
    (resolvedToken design token = token ∧
        (resolveToken? design (String.ofList token)).bind Resolution.entry? = none) ∨
      Replaces token (resolvedToken design token) := by
  obtain hkept | ⟨p, body, hspells, hname⟩ | ⟨_, _, hreplaces⟩ := resolvedToken_forms design hline
  · exact Or.inl hkept
  · exact Or.inr (.name p body hspells hname)
  · exact Or.inr hreplaces

/-- A token is replaced unless it stays. -/
theorem replaces_of_ne (hline : '\n' ∉ token) (h : resolvedToken design token ≠ token) :
    Replaces token (resolvedToken design token) :=
  (resolvedToken_cases design hline).elim (fun hkept => absurd hkept.1 h) id

/-- No class is generated for a token that stays. -/
theorem entry_eq_none_of_resolvedToken_eq (hline : '\n' ∉ token)
    (h : resolvedToken design token = token) :
    (resolveToken? design (String.ofList token)).bind Resolution.entry? = none :=
  (resolvedToken_cases design hline).elim And.right fun hr => absurd h hr.ne

/-- What takes the place of a token has no quotes, line breaks and equals signs but the token's
own. -/
theorem mem_resolvedToken (hline : '\n' ∉ token) {c : Char} (hc : c ∈ resolvedToken design token) :
    c ∈ token ∨ c ∉ ['"', '\'', '\n', '='] := by
  obtain ⟨hkept, -⟩ | hr := resolvedToken_cases design hline
  · exact Or.inl (hkept ▸ hc)
  · exact hr.mem hc

end

end MarkupTidy
