import MarkupTidy.Proofs.Utility.Placeholder

/-! # Words of a replaced token

The sweep cuts class texts at single spaces, so a token that it replaces may hold other blanks and
be several words to everyone else.

* `Replaces.length_words_le`: a replacement has no more words than the token.
* `Replaces.words_ne`: where the token holds a blank, its words resolved one by one are not the
  words of the replacement.
* `placeholderCount_resolvedToken_le`: a replacement has no more placeholders than the token, unless
  it is a fallback with a blank inside, whose first and last word may be new ones. -/

namespace MarkupTidy

open MarkupTidy.Text

namespace Placeholder

theorem mem_of_append_comma_eq (front back : List Char) {g : List Char}
    (h : front ++ [','] ++ g = back ++ [')', ']']) (hne : g ≠ []) : ')' ∈ g := by
  obtain ⟨init, x, hx⟩ : ∃ init x, g = init ++ [x] :=
    ⟨_, _, (List.dropLast_concat_getLast hne).symm⟩
  rw [hx, ← List.append_assoc, List.append_cons back ')' [']']] at h
  have hinit := (List.append_inj' h rfl).1
  by_cases hnil : init = []
  · rw [hnil, List.append_nil] at hinit
    exact absurd (List.append_inj' hinit rfl).2 (by decide)
  · have hlast := List.dropLast_concat_getLast hnil
    rw [← hlast, ← List.append_assoc] at hinit
    rw [hx, ← hlast, List.singleton_inj.1 (List.append_inj' hinit rfl).2]
    simp

/-- What stands between the opening of a placeholder and its fallback. -/
def lead (p : Placeholder) : List Char :=
  kindText p.kind? ++ ("var(".toList ++ (p.reference ++ [',']))

theorem Spells.beginsSolid {p : Placeholder} {body token : List Char} (h : p.Spells body token) :
    BeginsSolid token := by
  rw [h.token_eq]
  exact (h.isSolid_opening.beginsSolid (by simp [opening])).append _

theorem Spells.endsSolid {p : Placeholder} {body token : List Char} (h : p.Spells body token) :
    EndsSolid token := by
  have hend : EndsSolid [')', ']'] := ⟨[')'], ']', rfl, by decide⟩
  rw [h.token_eq]
  exact (((hend.append _).append _).append _).append _

theorem Spells.token_eq_lead {p : Placeholder} {body token rest : List Char}
    (h : p.Spells body token) (hbody : body = p.reference ++ ',' :: rest) :
    token = p.opening ++ p.lead ++ rest ++ [')', ']'] := by
  rw [h.token_eq, hbody, lead]
  simp

theorem opening_inj {p p' : Placeholder} {body body' token token' y y' : List Char}
    (h : p.Spells body token) (h' : p'.Spells body' token')
    (heq : p.opening ++ y = p'.opening ++ y') : p.opening = p'.opening ∧ y = y' := by
  have hbracket : ∀ {q : Placeholder}, '[' ∉ q.variants ++ q.utility →
      '[' ∉ q.variants ++ q.utility ++ ['-'] := by
    intro q hq
    simpa using hq
  have hcons : ∀ (q : Placeholder) (z : List Char),
      q.opening ++ z = q.variants ++ q.utility ++ ['-'] ++ '[' :: z := by
    intro q z
    simp [opening]
  rw [hcons, hcons] at heq
  obtain ⟨hopening, hy⟩ := append_cons_inj (hbracket h.bracket) (hbracket h'.bracket) heq
  refine ⟨?_, hy⟩
  have hclose : ∀ q : Placeholder, q.opening = q.variants ++ q.utility ++ ['-'] ++ ['['] := by
    intro q
    simp [opening]
  rw [hclose, hclose, hopening]

theorem kindText_append_inj {k? k'? : Option ValueKind} {y y' : List Char}
    (h : kindText k? ++ ("var(".toList ++ y) = kindText k'? ++ ("var(".toList ++ y')) : y = y' := by
  have hvar : "var(".toList = ['v', 'a', 'r', '('] := rfl
  rw [hvar] at h
  -- different kinds begin with different letters
  cases k? with
  | none =>
    cases k'? with
    | none => exact List.append_cancel_left h
    | some k' => cases k' <;> exact absurd (List.cons.inj h).1 (by decide)
  | some k =>
    cases k'? with
    | none => cases k <;> exact absurd (List.cons.inj h).1 (by decide)
    | some k' =>
      cases k <;> cases k'
      · exact List.append_cancel_left (List.append_cancel_left h)
      · exact absurd (List.cons.inj h).1 (by decide)
      · exact absurd (List.cons.inj h).1 (by decide)
      · exact List.append_cancel_left (List.append_cancel_left h)

theorem lead_inj {p p' : Placeholder} (h : ',' ∉ p.reference) (h' : ',' ∉ p'.reference)
    {y y' : List Char} (heq : p.lead ++ y = p'.lead ++ y') : y = y' := by
  simp only [lead, List.append_assoc, List.singleton_append] at heq
  exact (append_cons_inj h h' (kindText_append_inj heq)).2

end Placeholder

namespace Replaces

variable {token text : List Char}

theorem spells (h : Replaces token text) : ∃ p body, Placeholder.Spells p body token := by
  cases h with
  | name p body spells isName => exact ⟨p, body, spells⟩
  | fallback p body rest spells body_eq comma ne_nil => exact ⟨p, body, spells⟩

theorem length_words_fallback {p : Placeholder} {body rest : List Char}
    (hspells : p.Spells body token) (hne : trim rest ≠ []) :
    (words (p.opening ++ (trim rest ++ [']']))).length = (words (trim rest)).length := by
  have hb := beginsSolid_trim hne
  rw [length_words_solid_append hspells.isSolid_opening (hb.append _),
    length_words_append_solid hb (endsSolid_trim hne) (by decide)]

/-- A replacement has no more words than the token. -/
theorem length_words_le (h : Replaces token text) : (words text).length ≤ (words token).length := by
  cases h with
  | name p body spells isName =>
    rw [words_of_isSolid isName.isSolid isName.ne_nil]
    exact List.length_pos_iff.2 spells.beginsSolid.words_ne_nil
  | fallback p body rest spells body_eq comma ne_nil =>
    obtain ⟨l, r, hrest, -, -⟩ := exists_trim rest
    rw [length_words_fallback spells ne_nil, spells.token_eq_lead body_eq]
    conv => rhs; rw [hrest]
    have hright := length_words_le_append_right (beginsSolid_trim ne_nil) (endsSolid_trim ne_nil)
      (r ++ [')', ']'])
    have hleft := length_words_le_append_left (p.opening ++ p.lead ++ l)
      (trim rest ++ (r ++ [')', ']']))
    simp only [List.append_assoc] at hleft hright ⊢
    exact Nat.le_trans hright hleft

/-- A token without blanks is replaced by one. -/
theorem isSolid (h : Replaces token text) (hs : IsSolid token) : IsSolid text ∧ text ≠ [] := by
  cases h with
  | name p body spells isName => exact ⟨isName.isSolid, isName.ne_nil⟩
  | fallback p body rest spells body_eq comma ne_nil =>
    refine ⟨isSolid_append.2 ⟨spells.isSolid_opening, isSolid_append.2 ⟨fun c hc => ?_, by decide⟩⟩,
      by simp⟩
    refine hs c ?_
    rw [spells.token_eq_lead body_eq]
    simp [mem_of_mem_trim hc]

/-- A placeholder has more words than its fallback if a blank stands in front of the fallback or
behind it. -/
theorem isSolid_lead_of_length {p : Placeholder} {body rest : List Char}
    (hspells : p.Spells body token) (hbody : body = p.reference ++ ',' :: rest)
    (hne : trim rest ≠ []) (hlen : (words (trim rest)).length = (words token).length) :
    IsSolid p.lead ∧ rest = trim rest := by
  have hopening : BeginsSolid p.opening :=
    hspells.isSolid_opening.beginsSolid (by simp [Placeholder.opening])
  obtain ⟨l, r, hrest, hl, hr⟩ := exists_trim rest
  have htoken : token = p.opening ++ (p.lead ++ (l ++ (trim rest ++ (r ++ [')', ']'])))) := by
    rw [hspells.token_eq_lead hbody]
    conv => lhs; rw [hrest]
    simp
  have hright := length_words_le_append_right (beginsSolid_trim hne) (endsSolid_trim hne)
    (r ++ [')', ']'])
  have hlead : IsSolid p.lead := by
    refine Decidable.byContradiction fun hs => ?_
    obtain ⟨x, c, y, hxy, -, hc⟩ := exists_blank_of_not_isSolid hs
    have hlt := length_words_lt_append_left (hopening.append x) hc (y ++ l)
      (trim rest ++ (r ++ [')', ']']))
    rw [hlen, htoken, hxy] at hright
    simp only [List.append_assoc, List.cons_append] at hlt hright
    omega
  have hnil : l = [] := by
    cases l with
    | nil => rfl
    | cons c l =>
      have hlt := length_words_lt_append_left (hopening.append p.lead) (hl c List.mem_cons_self) l
        (trim rest ++ (r ++ [')', ']']))
      rw [hlen, htoken] at hright
      simp only [List.append_assoc, List.cons_append] at hlt hright
      omega
  have hnil' : r = [] := by
    cases r with
    | nil => rfl
    | cons c r =>
      have hend : EndsSolid (r ++ [')', ']']) := EndsSolid.append ⟨[')'], ']', rfl, by decide⟩ r
      have hleft := length_words_le_append_left (p.opening ++ p.lead ++ l) (trim rest)
      have hlt := length_words_lt_append_right hend (hr c List.mem_cons_self)
        (p.opening ++ p.lead ++ l ++ trim rest)
      rw [hlen, htoken] at hleft
      simp only [List.append_assoc, List.cons_append] at hlt hleft
      omega
  refine ⟨hlead, ?_⟩
  conv => lhs; rw [hrest, hnil, hnil']
  simp

/-- The first word of a placeholder does not become the first word of its fallback. -/
theorem resolvedToken_ne (design : VariableTable) {p : Placeholder} {body g : List Char}
    (hspells : p.Spells body token) (hcomma : ',' ∉ p.reference) (hlead : IsSolid p.lead)
    (hg : IsSolid g) (hne : g ≠ []) :
    resolvedToken design (p.opening ++ p.lead ++ g) ≠ p.opening ++ g := by
  intro heq
  have hsolid : IsSolid (p.opening ++ p.lead ++ g) :=
    isSolid_append.2 ⟨isSolid_append.2 ⟨hspells.isSolid_opening, hlead⟩, hg⟩
  have hline : '\n' ∉ p.opening ++ p.lead ++ g := fun hmem =>
    absurd (hsolid _ hmem) (by decide)
  have hlonger : resolvedToken design (p.opening ++ p.lead ++ g) ≠ p.opening ++ p.lead ++ g := by
    rw [heq]
    intro hlen
    have := congrArg List.length hlen
    simp only [Placeholder.lead, List.length_append, List.length_cons, List.length_nil] at this
    omega
  have hreplaces := replaces_of_ne design hline hlonger
  rw [heq] at hreplaces
  generalize htext : p.opening ++ g = text at hreplaces
  cases hreplaces with
  | name p' body' spells' isName =>
    -- the word ends in a parenthesis, which is no part of the lead
    refine isName.close_not_mem ?_
    rw [← htext]
    refine List.mem_append_right _ (Placeholder.mem_of_append_comma_eq
      (p.opening ++ (Placeholder.kindText p.kind? ++ ("var(".toList ++ p.reference)))
      (p'.opening ++ (Placeholder.kindText p'.kind? ++ ("var(".toList ++ body'))) ?_ hne)
    have htoken := spells'.token_eq
    simp only [Placeholder.lead, List.append_assoc] at htoken ⊢
    exact htoken
  | fallback p' body' rest' spells' body_eq' comma' ne_nil' =>
    -- both openings end at the first bracket, and both references at the first comma
    have htoken := spells'.token_eq_lead body_eq'
    simp only [List.append_assoc] at htoken
    obtain ⟨hopening, hafter⟩ := Placeholder.opening_inj hspells spells' htoken
    rw [hopening, List.append_cancel_left_eq] at htext
    have hg := Placeholder.lead_inj hcomma comma' hafter
    have htrim := (trim_sublist rest').length_le
    have hshort := congrArg List.length htext
    have hlong := congrArg List.length hg
    simp only [List.length_append, List.length_cons, List.length_nil] at hshort hlong
    omega

/-- The words of a token with a blank, resolved one by one, are not the words of what replaces
it. -/
theorem words_ne (design : VariableTable) (h : Replaces token text) (hs : ¬ IsSolid token) :
    words text ≠ (words token).map (resolvedToken design) := by
  intro heq
  have hlen := congrArg List.length heq
  rw [List.length_map] at hlen
  cases h with
  | name p body spells isName =>
    have htwo := two_le_length_words spells.beginsSolid spells.endsSolid hs
    rw [words_of_isSolid isName.isSolid isName.ne_nil, List.length_singleton] at hlen
    omega
  | fallback p body rest spells body_eq comma ne_nil =>
    rw [length_words_fallback spells ne_nil] at hlen
    obtain ⟨hlead, hrest⟩ := isSolid_lead_of_length spells body_eq ne_nil hlen
    have htoken := spells.token_eq_lead body_eq
    have hopening := spells.isSolid_opening
    obtain hsolid | ⟨g, c, tail, hg, hgs, hgne, hc⟩ := (beginsSolid_trim ne_nil).isSolid_or
    · refine hs ?_
      rw [htoken, hrest]
      exact isSolid_append.2 ⟨isSolid_append.2 ⟨isSolid_append.2 ⟨hopening, hlead⟩, hsolid⟩, by decide⟩
    · have htext : p.opening ++ (trim rest ++ [']']) = p.opening ++ g ++ c :: (tail ++ [']']) := by
        rw [hg]
        simp
      have htoken' : token = p.opening ++ p.lead ++ g ++ c :: (tail ++ [')', ']']) := by
        rw [htoken, hrest, hg]
        simp
      rw [htext, htoken',
        words_append_blank_of_isSolid (isSolid_append.2 ⟨hopening, hgs⟩) (by simp [hgne]) hc,
        words_append_blank_of_isSolid (isSolid_append.2 ⟨isSolid_append.2 ⟨hopening, hlead⟩, hgs⟩)
          (by simp [hgne]) hc] at heq
      exact resolvedToken_ne design spells comma hlead hgs hgne (List.cons.inj heq).1.symm

end Replaces

/-- A word is replaced by a word. -/
theorem isSolid_resolvedToken (design : VariableTable) {w : List Char} (hw : IsSolid w)
    (hne : w ≠ []) : IsSolid (resolvedToken design w) ∧ resolvedToken design w ≠ [] := by
  have hline : '\n' ∉ w := fun hmem => absurd (hw _ hmem) (by decide)
  obtain ⟨hkept, -⟩ | hreplaces := resolvedToken_cases design hline
  · rw [hkept]
    exact ⟨hw, hne⟩
  · exact hreplaces.isSolid hw

theorem resolvedToken_of_read?_eq_none {design : VariableTable} {w : List Char}
    (h : Placeholder.read? w = none) : resolvedToken design w = w := by
  simp [resolvedToken, resolveToken?, h]

/-! ### Placeholders among the words -/

/-- The number of placeholders among the words of a text. -/
def placeholderCount (cs : List Char) : Nat :=
  (words cs).countP fun w => (Placeholder.read? w).isSome

theorem placeholderCount_eq_zero_iff {v : List Char} :
    placeholderCount v = 0 ↔ ∀ w ∈ words v, Placeholder.read? w = none := by
  simp [placeholderCount, List.countP_eq_zero]

/-- A token with a blank inside that gives way to its fallback. -/
def IsBrokenFallback (design : VariableTable) (token : List Char) : Prop :=
  ¬ IsSolid token ∧ ∃ inlined, resolveToken? design (String.ofList token) = some (.fallback inlined)

instance (design : VariableTable) (token : List Char) :
    Decidable (IsBrokenFallback design token) :=
  decidable_of_iff (¬ IsSolid token ∧ (match resolveToken? design (String.ofList token) with
      | some (.fallback _) => true
      | _ => false) = true) <| by
    unfold IsBrokenFallback
    refine and_congr_right fun _ => ?_
    split <;> simp_all

theorem read?_eq_none_of_isNameFor {token name : List Char} (h : IsNameFor token name) :
    Placeholder.read? name = none := by
  refine Option.eq_none_iff_forall_ne_some.2 fun p hread => ?_
  have hline : '\n' ∉ name := fun hmem => absurd (h.isSolid _ hmem) (by decide)
  obtain ⟨body, hspells⟩ := Placeholder.exists_spells hread hline
  refine absurd h.open_not_mem (not_not_intro ?_)
  rw [hspells.token_eq]
  simp

theorem placeholderCount_le_one {w : List Char} (hw : IsSolid w) : placeholderCount w ≤ 1 := by
  unfold placeholderCount
  by_cases hnil : w = []
  · simp [hnil, words_nil]
  · rw [words_of_isSolid hw hnil]
    exact List.countP_le_length

theorem countP_le_inner {α : Type} (p : α → Bool) (xs : List α) :
    xs.countP p ≤ xs.tail.dropLast.countP p + 2 := by
  have hone : ∀ x : α, [x].countP p ≤ 1 := fun x => List.countP_le_length
  cases xs with
  | nil => exact Nat.zero_le _
  | cons x xs =>
    have hcons : (x :: xs).countP p ≤ xs.countP p + 1 := by
      rw [List.countP_cons]
      split <;> omega
    by_cases hnil : xs = []
    · rw [hnil]
      exact Nat.le_trans (hone x) (by omega)
    · have hlast := congrArg (List.countP p) (List.dropLast_concat_getLast hnil)
      rw [List.countP_append] at hlast
      have := hone (xs.getLast hnil)
      rw [List.tail_cons]
      omega

/-- The words inside a replacement are words of the token. -/
theorem Replaces.inner_words_isInfix {token text : List Char} (h : Replaces token text) :
    (words text).tail.dropLast <:+: words token := by
  cases h with
  | name p body spells isName =>
    rw [words_of_isSolid isName.isSolid isName.ne_nil]
    exact List.nil_infix
  | fallback p body rest spells body_eq comma ne_nil =>
    have hb := beginsSolid_trim ne_nil
    have he := endsSolid_trim ne_nil
    obtain ⟨l, r, hrest, -, -⟩ := exists_trim rest
    have htoken : token = p.opening ++ p.lead ++ l ++ trim rest ++ (r ++ [')', ']']) := by
      rw [spells.token_eq_lead body_eq]
      conv => lhs; rw [hrest]
      simp
    rw [tail_words_append spells.isSolid_opening (hb.append _), ← List.tail_dropLast,
      dropLast_words_append he (by decide), List.tail_dropLast, htoken]
    exact Text.inner_words_isInfix _ hb he _

/-- A token that is replaced has no fewer placeholders than what takes its place, but for the first
and the last word of a fallback. -/
theorem placeholderCount_resolvedToken_le (design : VariableTable) {token : List Char}
    (hline : '\n' ∉ token) : placeholderCount (resolvedToken design token) ≤
      placeholderCount token + if IsBrokenFallback design token then 2 else 0 := by
  obtain ⟨hkept, -⟩ | ⟨p, body, -, hname⟩ | ⟨inlined, hinlined, hreplaces⟩ :=
    resolvedToken_forms design hline
  · rw [hkept]
    exact Nat.le_add_right _ _
  · unfold placeholderCount
    rw [words_of_isSolid hname.isSolid hname.ne_nil, List.countP_singleton,
      read?_eq_none_of_isNameFor hname]
    exact Nat.zero_le _
  · by_cases hs : IsSolid token
    · have hone := placeholderCount_le_one (hreplaces.isSolid hs).1
      have htoken : placeholderCount token = 1 := by
        have hread : (Placeholder.read? token).isSome = true := by
          simp only [resolveToken?, String.toList_ofList, Option.map_eq_some_iff] at hinlined
          obtain ⟨p, hp, -⟩ := hinlined
          exact Option.isSome_of_eq_some hp
        obtain ⟨p, body, hspells⟩ := hreplaces.spells
        unfold placeholderCount
        rw [words_of_isSolid hs hspells.beginsSolid.ne_nil, List.countP_singleton, hread]
        rfl
      omega
    · rw [if_pos ⟨hs, inlined, hinlined⟩]
      have hinner := hreplaces.inner_words_isInfix.countP_le
        (p := fun w => (Placeholder.read? w).isSome)
      have hall := countP_le_inner (fun w => (Placeholder.read? w).isSome)
        (words (resolvedToken design token))
      unfold placeholderCount
      omega

end MarkupTidy
