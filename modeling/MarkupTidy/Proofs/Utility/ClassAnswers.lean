import MarkupTidy.Pass.CssVariables
import MarkupTidy.Proofs.Utility.ClassRequests
import MarkupTidy.Utility.Sweep

/-! # The table of classes over a sequence of requests

A request is answered from a table, and the table goes on to the next request.

* `ClassRequest.serve`: the answer to a request, and the table after it; `ClassRequest.tableFrom`: the
  table after requests.
* `ClassRequest.IsServed`, `ClassRequest.isServed`: what one request does to the table.
* `ClassTable.IsKeyed`, `ClassRequest.entries_isPrefix_tableFrom`: what requests keep.
* `ClassRequest.exists_request_of_mem_tableFrom`: where an entry of the table comes from. -/

namespace MarkupTidy

open MarkupTidy.Text

/-! ### Tables -/

namespace ClassTable

/-- No two entries have one name. -/
def IsKeyed (t : ClassTable) : Prop :=
  (t.entries.map ClassEntry.name).Nodup

variable {t : ClassTable} {e : ClassEntry}

theorem get?_eq_none_iff {name : String} :
    t.get? name = none ↔ name ∉ t.entries.map ClassEntry.name := by
  rw [get?, List.find?_eq_none, List.mem_map]
  simp only [decide_eq_true_eq]
  constructor
  · rintro h ⟨e, he, hname⟩
    exact h e he hname
  · intro h e he hname
    exact h ⟨e, he, hname⟩

theorem mem_of_get? {name : String} (h : t.get? name = some e) : e ∈ t.entries :=
  List.mem_of_find?_eq_some h

/-- An entry goes to the end, or it does not go into the table. -/
theorem register_cases (t : ClassTable) (e : ClassEntry) :
    t.register e = t ∨ t.get? e.name = none ∧ (t.register e).entries = t.entries ++ [e] := by
  cases h : t.get? e.name with
  | some first => exact .inl (register_of_get?_some h)
  | none => exact .inr ⟨rfl, register_of_get?_none h⟩

theorem isPrefix_register (t : ClassTable) (e : ClassEntry) :
    t.entries <+: (t.register e).entries := by
  obtain h | ⟨-, h⟩ := t.register_cases e
  · exact h.symm ▸ List.prefix_refl _
  · exact h ▸ List.prefix_append ..

/-- The entry that is kept stands in the table once the wanted one is registered. -/
theorem get?_register_kept (t : ClassTable) (e : ClassEntry) :
    (t.register e).get? e.name = some (t.kept e) := by
  rw [get?_register, if_pos rfl, kept]
  cases t.get? e.name <;> rfl

theorem isKeyed_empty : empty.IsKeyed :=
  List.nodup_nil

theorem IsKeyed.register (h : t.IsKeyed) (e : ClassEntry) : (t.register e).IsKeyed := by
  obtain heq | ⟨hnone, hentries⟩ := t.register_cases e
  · rwa [heq]
  · rw [IsKeyed, hentries, List.map_append, List.map_singleton]
    exact List.nodup_append.2 ⟨h, List.pairwise_singleton .., fun name hname other hother heq =>
      get?_eq_none_iff.1 hnone (List.mem_singleton.1 hother ▸ heq ▸ hname)⟩

/-- What registering one entry keeps of a table, registering entries keeps. -/
theorem registerAll_invariant {P : ClassTable → Prop} (hstep : ∀ t e, P t → P (t.register e))
    (h : P t) (es : List ClassEntry) : P (t.registerAll es).1 := by
  rw [registerAll_fst]
  induction es generalizing t with
  | nil => exact h
  | cons e es ih => exact ih (hstep t e h)

theorem IsKeyed.registerAll (h : t.IsKeyed) (es : List ClassEntry) : (t.registerAll es).1.IsKeyed :=
  registerAll_invariant (fun _ e h => h.register e) h es

theorem isPrefix_registerAll (t : ClassTable) (es : List ClassEntry) :
    t.entries <+: (t.registerAll es).1.entries :=
  registerAll_invariant (P := fun t' => t.entries <+: t'.entries)
    (fun t' e h => h.trans (t'.isPrefix_register e)) (List.prefix_refl _) es

/-- An entry of the table has stood there before, or it was to be registered. -/
theorem mem_of_mem_registerAll {es : List ClassEntry} (h : e ∈ (t.registerAll es).1.entries) :
    e ∈ t.entries ∨ e ∈ es := by
  rw [registerAll_fst] at h
  induction es generalizing t with
  | nil => exact .inl h
  | cons wanted es ih =>
    obtain h | h := ih h
    · obtain hsame | ⟨-, hentries⟩ := t.register_cases wanted
      · exact .inl (hsame ▸ h)
      · rw [hentries, List.mem_append, List.mem_singleton] at h
        obtain h | rfl := h
        · exact .inl h
        · exact .inr List.mem_cons_self
    · exact .inr (List.mem_cons_of_mem wanted h)

/-- The name of an entry that was to be registered has an entry. -/
theorem exists_get?_registerAll {es : List ClassEntry} (h : e ∈ es) :
    ∃ first, (t.registerAll es).1.get? e.name = some first := by
  rw [get?_registerAll]
  have hfind : (es.find? (·.name = e.name)).isSome = true := List.find?_isSome.2 ⟨e, h, by simp⟩
  cases t.get? e.name with
  | some first => exact ⟨first, rfl⟩
  | none => exact Option.isSome_iff_exists.1 hfind

end ClassTable

namespace ClassRequest

/-! ### One request -/

/-- The token of a request. -/
def token : ClassRequest → String
  | placeholder token => token
  | shorthand token => token

/-- What becomes of the token of a request: the shorthand of a border becomes a class. No answer where
the token is not what the request takes it for. -/
def resolution? (design : VariableTable) : ClassRequest → Option Resolution
  | placeholder token => resolveToken? design token
  | shorthand token => (borderClass? token).map .synthesized

/-- The answer to a request, and the table after it.  The class that is handed out is the one that
stands under its name. -/
def serve (design : VariableTable) (t : ClassTable) (r : ClassRequest) :
    Option Resolution × ClassTable :=
  match r.resolution? design with
  | some (.synthesized e) => (some (.synthesized (t.kept e)), t.register e)
  | reply? => (reply?, t)

/-- The token that stands where the token of a request has stood. -/
def replacement (design : VariableTable) (t : ClassTable) (r : ClassRequest) : String :=
  ((r.serve design t).1.map (·.token r.token)).getD r.token

/-- Nothing is known about the token of a request. -/
def IsUnanswered (design : VariableTable) (r : ClassRequest) : Prop :=
  r.resolution? design = none ∨ r.resolution? design = some .unrecognized

/-- A request changes a table at most by one entry at its end, and only where a class is handed out. -/
structure IsServed (design : VariableTable) (t : ClassTable) (r : ClassRequest) : Prop where
  /-- What is new in the table is the class that is handed out, under a name that was free. -/
  appends : (r.serve design t).2 = t ∨ ∃ e, (r.serve design t).1 = some (.synthesized e) ∧
    t.get? e.name = none ∧ (r.serve design t).2.entries = t.entries ++ [e]
  /-- A class that is handed out stands in the table under the name that is written. -/
  hands : ∀ e, (r.serve design t).1 = some (.synthesized e) →
    r.replacement design t = e.name ∧ (r.serve design t).2.get? e.name = some e
  /-- What nothing is known about stays as it is written, and the answer says so. -/
  stays : r.IsUnanswered design ↔ (r.serve design t).1 = none ∨
    (r.serve design t).1 = some .unrecognized
  token_stays : r.IsUnanswered design → r.replacement design t = r.token

section
variable {design : VariableTable} {t : ClassTable} {r : ClassRequest}

theorem entryFor?_eq_bind (design : VariableTable) (r : ClassRequest) :
    r.entryFor? design = (r.resolution? design).bind Resolution.entry? := by
  cases r with
  | placeholder token => rfl
  | shorthand token =>
    rw [entryFor?, resolution?]
    cases borderClass? token <;> rfl

/-- A request hands out a class and registers it, or it leaves the table alone. -/
theorem serve_cases (design : VariableTable) (t : ClassTable) (r : ClassRequest) :
    (∃ e, r.resolution? design = some (.synthesized e) ∧
      r.serve design t = (some (.synthesized (t.kept e)), t.register e)) ∨
    ((∀ e, r.resolution? design ≠ some (.synthesized e)) ∧
      r.serve design t = (r.resolution? design, t)) := by
  unfold serve
  split
  · rename_i e h
    exact .inl ⟨e, h, rfl⟩
  · rename_i h
    exact .inr ⟨h, rfl⟩

theorem serve_snd (design : VariableTable) (t : ClassTable) (r : ClassRequest) :
    (r.serve design t).2 = (r.entryFor? design).elim t t.register := by
  rw [entryFor?_eq_bind]
  obtain ⟨e, hresolution, hserve⟩ | ⟨hnone, hserve⟩ := r.serve_cases design t
  · rw [hserve, hresolution]
    rfl
  · rw [hserve]
    cases h : r.resolution? design with
    | none => rfl
    | some resolution =>
      cases resolution with
      | synthesized e => exact absurd h (hnone e)
      | canonical _ => rfl
      | fallback _ => rfl
      | unrecognized => rfl

theorem isServed (design : VariableTable) (t : ClassTable) (r : ClassRequest) :
    r.IsServed design t := by
  obtain ⟨e, hresolution, hserve⟩ | ⟨hnone, hserve⟩ := r.serve_cases design t
  · have hunanswered : ¬ r.IsUnanswered design := by
      rintro (h | h) <;> exact absurd (hresolution.symm.trans h) (by simp)
    refine ⟨?_, ?_, ?_, fun h => absurd h hunanswered⟩
    · rw [hserve]
      obtain hsame | ⟨hfree, hentries⟩ := t.register_cases e
      · exact .inl hsame
      · have hkept : t.kept e = e := by rw [ClassTable.kept, hfree, Option.getD_none]
        exact .inr ⟨e, by rw [hkept], hfree, hentries⟩
    · intro first h
      rw [hserve] at h
      obtain rfl : t.kept e = first := by simpa using h
      refine ⟨by rw [replacement, hserve]; rfl, ?_⟩
      rw [hserve, ClassTable.name_kept]
      exact t.get?_register_kept e
    · rw [hserve]
      simp [hunanswered]
  · refine ⟨.inl (by rw [hserve]), ?_, ?_, ?_⟩
    · intro first h
      rw [hserve] at h
      exact absurd h (hnone first)
    · rw [hserve]
      rfl
    · rintro (h | h) <;> rw [replacement, hserve, h] <;> rfl

end

/-! ### Requests one after the other -/

/-- The table after requests that are answered from it one after the other. -/
def tableFrom (design : VariableTable) (t : ClassTable) (rs : List ClassRequest) : ClassTable :=
  rs.foldl (fun t r => (r.serve design t).2) t

section
variable {design : VariableTable} {t : ClassTable} {rs : List ClassRequest}

theorem tableFrom_append (design : VariableTable) (t : ClassTable)
    (rs rest : List ClassRequest) :
    tableFrom design t (rs ++ rest) = tableFrom design (tableFrom design t rs) rest :=
  List.foldl_append

theorem tableFrom_cons (design : VariableTable) (t : ClassTable) (r : ClassRequest)
    (rs : List ClassRequest) :
    tableFrom design t (r :: rs) = tableFrom design (r.serve design t).2 rs :=
  rfl

/-- The table after requests is the one in which all that they want is registered. -/
theorem tableFrom_eq_registerAll (design : VariableTable) (t : ClassTable)
    (rs : List ClassRequest) :
    tableFrom design t rs = (t.registerAll (rs.filterMap (entryFor? design))).1 := by
  rw [ClassTable.registerAll_fst]
  induction rs generalizing t with
  | nil => rfl
  | cons r rs ih =>
    rw [tableFrom_cons, ih, serve_snd, List.filterMap_cons]
    cases r.entryFor? design <;> rfl

theorem isKeyed_tableFrom (h : t.IsKeyed) (rs : List ClassRequest) :
    (tableFrom design t rs).IsKeyed :=
  tableFrom_eq_registerAll design t rs ▸ h.registerAll _

/-- No entry is altered, removed or moved. -/
theorem entries_isPrefix_tableFrom (design : VariableTable) (t : ClassTable)
    (rs : List ClassRequest) : t.entries <+: (tableFrom design t rs).entries :=
  tableFrom_eq_registerAll design t rs ▸ t.isPrefix_registerAll _

theorem get?_tableFrom_of_some {name : String} {e : ClassEntry} (h : t.get? name = some e)
    (rs : List ClassRequest) : (tableFrom design t rs).get? name = some e := by
  rw [tableFrom_eq_registerAll, ClassTable.get?_registerAll, h]
  rfl

/-- An entry of the table has stood there before, or a request has wanted it. -/
theorem exists_request_of_mem_tableFrom {e : ClassEntry}
    (h : e ∈ (tableFrom design t rs).entries) :
    e ∈ t.entries ∨ ∃ r ∈ rs, r.entryFor? design = some e := by
  rw [tableFrom_eq_registerAll] at h
  exact (ClassTable.mem_of_mem_registerAll h).imp_right List.mem_filterMap.1

end

/-! ### Tokens that nothing is known about -/

/-- A token that is neither a placeholder that is recognized nor the shorthand of a border stays
where variables are resolved, and where a text is swept. -/
theorem token_eq_of_isUnanswered {design : VariableTable} {token : String}
    (hplaceholder : (placeholder token).IsUnanswered design)
    (hshorthand : (shorthand token).IsUnanswered design) :
    (CssVariables.TokenChange.of design token).token token = token ∧
      resolvedToken design token.toList = token.toList := by
  have hborder : borderClass? token = none := by
    cases h : borderClass? token with
    | none => rfl
    | some e => simp [IsUnanswered, resolution?, h] at hshorthand
  rw [CssVariables.TokenChange.of, hborder, resolvedToken, String.ofList_toList]
  obtain h | h := hplaceholder <;> dsimp only [resolution?] at h <;> rw [h] <;> exact ⟨rfl, rfl⟩

end ClassRequest

end MarkupTidy
