import MarkupTidy.Proofs.Utility.Placeholder

/-! # Requests for generated classes

The first entry under a name stays.  So a token gets a class that means what it asks for as long as
no token before it has asked for another class of the same name.

* `ClassRequest`: a token that a class is asked for, and `ClassRequest.KeepMeaning`: every class
  that is handed out means what its token has asked for.
* `ClassRequest.keepMeaning_iff`: it does exactly if no two of the tokens clash. -/

namespace MarkupTidy

open MarkupTidy.Text MarkupTidy.Variable

/-- What a placeholder asks a class for: its utility has to set properties, and its variable must
not have a standard colour. -/
def Placeholder.classTarget? (design : VariableTable) (p : Placeholder) : Option ClassTarget :=
  match p.resolve design with
  | .synthesized _ =>
    (utilityBinding? (String.ofList p.utility) p.kind? p.fallback?).map fun binding =>
      .bound binding.classBase binding.properties (cleanReference p.reference)
  | _ => none

/-! ### Requests -/

/-- A token for which a class is asked: a placeholder, or the shorthand of a border. -/
inductive ClassRequest where
  | placeholder (token : String)
  | shorthand (token : String)

namespace ClassRequest

/-- The entry that a request wants registered, if a class is generated for it. -/
def entryFor? (design : VariableTable) : ClassRequest → Option ClassEntry
  | placeholder token => (resolveToken? design token).bind Resolution.entry?
  | shorthand token => borderClass? token

/-- The name of the class that a request is answered with. -/
def answer? (design : VariableTable) (table : ClassTable) (r : ClassRequest) : Option String :=
  (r.entryFor? design).map fun e => (table.kept e).name

/-- The classes that have been generated once requests are answered. -/
def tableAfter (design : VariableTable) (rs : List ClassRequest) : ClassTable :=
  (ClassTable.empty.registerAll (rs.filterMap (entryFor? design))).1

/-- What a request asks a class for, if a class is generated for it. -/
def target? (design : VariableTable) : ClassRequest → Option ClassTarget
  | placeholder token => (Placeholder.read? token.toList).bind (Placeholder.classTarget? design)
  | shorthand token => (BorderShorthand.read? token.toList).map .widths

/-- Whenever a request is answered with a class, the entry that is registered under its name does
what the request has asked for. -/
def KeepMeaning (design : VariableTable) (rs : List ClassRequest) : Prop :=
  ∀ before r after, rs = before ++ r :: after →
    ∀ name, r.answer? design (tableAfter design before) = some name →
      ∃ target entry, r.target? design = some target ∧
        (tableAfter design (before ++ [r])).get? name = some entry ∧
        entry.meaning = target.meaning

section
variable {design : VariableTable}

theorem entryFor?_placeholder_iff {token : String} {e : ClassEntry} :
    (placeholder token).entryFor? design = some e ↔
      ∃ p, Placeholder.read? token.toList = some p ∧ p.resolve design = .synthesized e := by
  unfold entryFor? resolveToken?
  dsimp only
  cases Placeholder.read? token.toList with
  | none => simp
  | some p => cases hr : p.resolve design <;> simp [Resolution.entry?, hr]

/-- A request that wants an entry has a target, of which the entry has the name and the meaning. -/
theorem exists_target_of_entryFor? {r : ClassRequest} {e : ClassEntry}
    (h : r.entryFor? design = some e) :
    ∃ t, r.target? design = some t ∧ t.IsKnown ∧ e.name = t.className ∧ e.meaning = t.meaning := by
  cases r with
  | placeholder token =>
    obtain ⟨p, hp, hresolve⟩ := entryFor?_placeholder_iff.1 h
    obtain ⟨binding, hbinding, rfl⟩ := Placeholder.exists_binding_of_resolve hresolve
    refine ⟨.bound binding.classBase binding.properties (cleanReference p.reference), ?_,
      ClassTarget.mem_bases_of_utilityBinding? hbinding, rfl, rfl⟩
    rw [target?, hp, Option.bind_some, Placeholder.classTarget?, hresolve, hbinding]
    rfl
  | shorthand token =>
    obtain ⟨ws, hws, rfl⟩ := Option.map_eq_some_iff.1 h
    exact ⟨.widths ws, by rw [target?, hws]; rfl, ClassTarget.isKnown_of_shorthand hws, rfl, rfl⟩

/-- A request that has a target wants an entry. -/
theorem exists_entryFor?_of_target? {r : ClassRequest} {t : ClassTarget}
    (h : r.target? design = some t) : ∃ e, r.entryFor? design = some e := by
  cases r with
  | placeholder token =>
    obtain ⟨p, hp, htarget⟩ := Option.bind_eq_some_iff.1 h
    unfold Placeholder.classTarget? at htarget
    split at htarget
    · rename_i e hresolve
      exact ⟨e, entryFor?_placeholder_iff.2 ⟨p, hp, hresolve⟩⟩
    · exact absurd htarget (by simp)
  | shorthand token =>
    obtain ⟨ws, hws, -⟩ := Option.map_eq_some_iff.1 h
    exact ⟨_, by rw [entryFor?, borderClass?, hws]; rfl⟩

end

end ClassRequest

/-! ### Tables -/

namespace ClassTable

theorem name_of_get? {t : ClassTable} {name : String} {e : ClassEntry}
    (h : t.get? name = some e) : e.name = name := by
  simpa using List.find?_some h

theorem get?_register (t : ClassTable) (e : ClassEntry) (name : String) :
    (t.register e).get? name = (t.get? name).or (if e.name = name then some e else none) := by
  cases h : t.get? e.name with
  | some first =>
    rw [register_of_get?_some h]
    split
    · rename_i hname
      rw [← hname, h]
      rfl
    · rw [Option.or_none]
  | none =>
    rw [get?, register_of_get?_none h, List.find?_append]
    simp only [List.find?_cons, List.find?_nil]
    by_cases hname : e.name = name <;> simp [hname, get?]

theorem registerAll_fst (t : ClassTable) (es : List ClassEntry) :
    (t.registerAll es).1 = es.foldl register t := by
  have hfold : ∀ s : ClassTable × List Notice, (es.foldl (fun s e =>
      (s.1.register e, s.2 ++ (s.1.conflict? e).toList)) s).1 = es.foldl register s.1 := by
    induction es with
    | nil => exact fun _ => rfl
    | cons e es ih => exact fun s => ih _
  exact hfold (t, [])

/-- The entry of a name is the one it has had before, or else the first that is registered. -/
theorem get?_registerAll (t : ClassTable) (es : List ClassEntry) (name : String) :
    (t.registerAll es).1.get? name = (t.get? name).or (es.find? (·.name = name)) := by
  rw [registerAll_fst]
  induction es generalizing t with
  | nil => simp
  | cons e es ih =>
    rw [List.foldl_cons, ih, get?_register, List.find?_cons, Option.or_assoc]
    by_cases hname : e.name = name <;> simp [hname]

theorem name_kept (t : ClassTable) (e : ClassEntry) : (t.kept e).name = e.name := by
  unfold kept
  cases h : t.get? e.name with
  | some first => exact name_of_get? h
  | none => rfl

end ClassTable

namespace ClassRequest

variable {design : VariableTable}

theorem get?_tableAfter (rs : List ClassRequest) (name : String) :
    (tableAfter design rs).get? name =
      (rs.filterMap (entryFor? design)).find? (·.name = name) := by
  rw [tableAfter, ClassTable.get?_registerAll]
  rfl

theorem answer?_eq (table : ClassTable) (r : ClassRequest) :
    r.answer? design table = (r.entryFor? design).map ClassEntry.name := by
  unfold answer?
  simp only [ClassTable.name_kept]

/-- An entry stays under its name. -/
theorem get?_tableAfter_append {rs : List ClassRequest} {name : String} {e : ClassEntry}
    (h : (tableAfter design rs).get? name = some e) (rest : List ClassRequest) :
    (tableAfter design (rs ++ rest)).get? name = some e := by
  rw [get?_tableAfter] at h ⊢
  rw [List.filterMap_append, List.find?_append, h]
  rfl

/-- What stands under a name was wanted under it by a request. -/
theorem exists_request_of_get? {rs : List ClassRequest} {name : String} {e : ClassEntry}
    (h : (tableAfter design rs).get? name = some e) :
    ∃ r ∈ rs, r.entryFor? design = some e ∧ e.name = name := by
  have hname := ClassTable.name_of_get? h
  rw [get?_tableAfter] at h
  obtain ⟨r, hr, hentry⟩ := List.mem_filterMap.1 (List.mem_of_find?_eq_some h)
  exact ⟨r, hr, hentry, hname⟩

/-- A name that an entry was wanted under has an entry. -/
theorem exists_get?_tableAfter {rs : List ClassRequest} {r : ClassRequest} (hr : r ∈ rs)
    {e : ClassEntry} (h : r.entryFor? design = some e) :
    ∃ kept, (tableAfter design rs).get? e.name = some kept := by
  rw [get?_tableAfter]
  refine Option.isSome_iff_exists.1 (List.find?_isSome.2 ⟨e, List.mem_filterMap.2 ⟨r, hr, h⟩, ?_⟩)
  simp

/-- What a token has asked for stands under its class at the end, if every class that is handed out
does what its token has asked for. -/
theorem exists_kept_of_keepMeaning {rs : List ClassRequest} (h : KeepMeaning design rs)
    {r : ClassRequest} (hr : r ∈ rs) {t : ClassTarget} (ht : r.target? design = some t) :
    t.IsKnown ∧ ∃ kept, (tableAfter design rs).get? t.className = some kept ∧
      kept.meaning = t.meaning := by
  obtain ⟨e, he⟩ := exists_entryFor?_of_target? ht
  obtain ⟨t₁, ht₁, hknown, hname, -⟩ := exists_target_of_entryFor? he
  obtain rfl := Option.some.inj (ht.symm.trans ht₁)
  obtain ⟨before, after, hrs⟩ := List.append_of_mem hr
  obtain ⟨t₂, kept, ht₂, hkept, hmeaning⟩ :=
    h before r after hrs e.name (by rw [answer?_eq, he]; rfl)
  obtain rfl := Option.some.inj (ht.symm.trans ht₂)
  have hend := get?_tableAfter_append hkept after
  rw [List.append_assoc, List.singleton_append, ← hrs, hname] at hend
  exact ⟨hknown, kept, hend, hmeaning⟩

/-- Every class that is handed out does what its token has asked for exactly if no two of the tokens
clash: no variable begins with a word that belongs to the other's utility, none reads like the
widths of a border, and no widths have the same numbers in different units. -/
theorem keepMeaning_iff (design : VariableTable) (rs : List ClassRequest) :
    KeepMeaning design rs ↔ ∀ r ∈ rs, ∀ r' ∈ rs, ∀ t t', r.target? design = some t →
      r'.target? design = some t' → ¬ t.Clash t' := by
  constructor
  · intro h r hr r' hr' t t' ht ht' hclash
    -- both entries stay to the end, so one entry has both meanings
    obtain ⟨hknown, kept, hkept, hmeaning⟩ := exists_kept_of_keepMeaning h hr ht
    obtain ⟨hknown', kept', hkept', hmeaning'⟩ := exists_kept_of_keepMeaning h hr' ht'
    obtain ⟨hname, hne⟩ := (ClassTarget.clash_iff hknown hknown').1 hclash
    rw [hname, hkept'] at hkept
    exact hne (by rw [← hmeaning, ← hmeaning', Option.some.inj hkept])
  · intro h before r after hrs name hname
    rw [answer?_eq] at hname
    obtain ⟨e, he, rfl⟩ := Option.map_eq_some_iff.1 hname
    obtain ⟨t, ht, hknown, hename, -⟩ := exists_target_of_entryFor? he
    obtain ⟨kept, hkept⟩ := exists_get?_tableAfter (show r ∈ before ++ [r] by simp) he
    refine ⟨t, kept, ht, hkept, ?_⟩
    obtain ⟨r', hr', hentry', hsame⟩ := exists_request_of_get? hkept
    obtain ⟨t', ht', hknown', hename', hmeaning'⟩ := exists_target_of_entryFor? hentry'
    have hmem : ∀ q ∈ before ++ [r], q ∈ rs := by
      rw [hrs]
      intro q hq
      simp only [List.mem_append, List.mem_singleton] at hq
      simp only [List.mem_append, List.mem_cons]
      exact hq.imp_right Or.inl
    refine Decidable.byContradiction fun hne => h r' (hmem r' hr') r (hmem r (by simp)) t' t ht' ht
      ((ClassTarget.clash_iff hknown' hknown).2 ⟨?_, ?_⟩)
    · rw [← hename', ← hename, hsame]
    · rwa [← hmeaning']

/-- The gap of `--x-a` and the column gap of `--a` are bound to one class. -/
theorem gap_not_keepMeaning :
    ¬ KeepMeaning .empty [.placeholder "gap-[var(--x-a)]", .placeholder "gap-x-[var(--a)]"] := by
  intro h
  -- the second request is answered with the class of the first
  have hsecond := h [.placeholder "gap-[var(--x-a)]"] (.placeholder "gap-x-[var(--a)]") [] rfl
    "gap-x-a" (by decide)
  obtain ⟨target, entry, htarget, hentry, hmeaning⟩ := hsecond
  have hbound : (placeholder "gap-x-[var(--a)]").target? .empty =
      some (.bound "gap-x" ["column-gap"] ['a']) := by decide
  have hgap : (tableAfter .empty [.placeholder "gap-[var(--x-a)]",
      .placeholder "gap-x-[var(--a)]"]).get? "gap-x-a" =
        some ⟨"gap-x-a", ["gap"], some "--x-a", none, none⟩ := by decide
  rw [← Option.some.inj (hbound.symm.trans htarget),
    ← Option.some.inj (hgap.symm.trans hentry)] at hmeaning
  exact absurd hmeaning (by decide)

end ClassRequest

end MarkupTidy
