import MarkupTidy.Proofs.Pass.SweepAgreement
import MarkupTidy.Proofs.Run.Isolation
import MarkupTidy.Proofs.Sheet.ClassRules

/-! # The table of classes of a run

The classes of a run come from requests: resolving variables makes them for class tokens, and so does
the sweep after the passes.

* `ClassTable.IsAnswered`: a table that requests have filled.
* `isAnswered_builtin`: every built-in pass leaves such a table.
* `Pipeline.isAnswered_run`: every run does, however it ends. -/

namespace MarkupTidy

open MarkupTidy.Text

/-! ### Tables -/

namespace ClassTable

/-- The table is what requests have made of the table without classes. -/
def IsAnswered (design : VariableTable) (t : ClassTable) : Prop :=
  ∃ rs, t = ClassRequest.tableFrom design .empty rs

variable {design : VariableTable} {t : ClassTable}

theorem isAnswered_empty (design : VariableTable) : IsAnswered design .empty :=
  ⟨[], rfl⟩

theorem exists_requests {es : List ClassEntry}
    (h : ∀ e ∈ es, ∃ r : ClassRequest, r.entryFor? design = some e) :
    ∃ rs : List ClassRequest, rs.filterMap (ClassRequest.entryFor? design) = es := by
  induction es with
  | nil => exact ⟨[], rfl⟩
  | cons e es ih =>
    obtain ⟨⟨r, hr⟩, hrest⟩ := List.forall_mem_cons.1 h
    obtain ⟨rs, hrs⟩ := ih hrest
    exact ⟨r :: rs, by rw [List.filterMap_cons, hr, hrs]⟩

theorem IsAnswered.registerAll (h : IsAnswered design t) {es : List ClassEntry}
    (hes : ∀ e ∈ es, ∃ r : ClassRequest, r.entryFor? design = some e) :
    IsAnswered design (t.registerAll es).1 := by
  obtain ⟨rs, rfl⟩ := h
  obtain ⟨more, rfl⟩ := exists_requests hes
  refine ⟨rs ++ more, ?_⟩
  rw [ClassRequest.tableFrom_append, ← ClassRequest.tableFrom_eq_registerAll]

end ClassTable

/-! ### Passes -/

/-- What becomes of a class token is the answer to a request. -/
theorem CssVariables.TokenChange.exists_request {design : VariableTable} {token : String}
    {e : ClassEntry} (h : TokenChange.entry? (TokenChange.of design token) = some e) :
    ∃ r : ClassRequest, r.entryFor? design = some e := by
  unfold TokenChange.of at h
  cases hborder : borderClass? token with
  | some entry =>
    rw [hborder] at h
    exact ⟨.shorthand token, hborder.trans h⟩
  | none =>
    rw [hborder] at h
    refine ⟨.placeholder token, ?_⟩
    rw [ClassRequest.entryFor?]
    cases hresolve : resolveToken? design token with
    | none => rw [hresolve] at h; exact absurd h (by simp [TokenChange.entry?])
    | some resolution => rw [hresolve] at h; exact h

theorem CssVariables.isAnswered_run {design : VariableTable} (d : Document) {c : Context}
    (hdesign : c.design = design) (h : c.classes.IsAnswered design) :
    (pass.run d c).context.classes.IsAnswered design := by
  have hvisit : ∀ (st : State) (e : Element), st.classes.IsAnswered design →
      (visit c.design st e).state.classes.IsAnswered design := by
    intro st e hst
    change ClassTable.IsAnswered design (resolveClasses c.design st e.attributes).1.classes
    unfold resolveClasses
    split
    · dsimp only
      rw [classes_foldl_note]
      refine hst.registerAll fun entry hentry => ?_
      obtain ⟨change, hchange, hentry⟩ := List.mem_filterMap.1 hentry
      obtain ⟨token, -, rfl⟩ := List.mem_map.1 hchange
      exact TokenChange.exists_request (hdesign ▸ hentry)
    · exact hst
  exact @Document.walk_invariant _ (visit c.design)
    (fun w => w.state.classes.IsAnswered design) hvisit ⟨c.classes, [], []⟩ h d

/-- A built-in pass registers nothing but classes that are asked for. -/
theorem isAnswered_builtin {design : VariableTable} : ∀ p ∈ builtinPasses, ∀ d c,
    c.design = design → c.classes.IsAnswered design →
      (p.run d c).context.classes.IsAnswered design := by
  simp only [builtinPasses, List.forall_mem_cons]
  exact ⟨fun _ _ _ h => h, fun _ _ _ h => h, fun _ _ _ h => h, fun _ _ _ h => h, fun _ _ _ h => h,
    fun d _ => CssVariables.isAnswered_run d, fun _ _ _ h => h, by simp⟩

theorem isAnswered_sweep {design : VariableTable} {table : ClassTable}
    (h : table.IsAnswered design) (code : List Char) :
    (sweep design table code).table.IsAnswered design := by
  unfold sweep
  dsimp only
  split
  · exact h
  · refine h.registerAll fun e he => ?_
    obtain ⟨piece, -, he⟩ := List.mem_flatMap.1 he
    cases piece with
    | other c => exact absurd he List.not_mem_nil
    | classes quote value =>
      obtain ⟨token, -, hentry⟩ := List.mem_filterMap.1 he
      exact ⟨.placeholder (String.ofList token), hentry⟩

/-! ### Runs -/

namespace Pipeline

variable {p : Pipeline} {source name : String}

theorem classes_finish (name : String) (r : PassRun) : (finish name r).context.classes
    = (sweep r.context.design r.context.classes r.document.print).table := by
  unfold finish
  dsimp only
  split <;> rfl

section
variable {settings : Settings} (hp : ofRegistry .builtin settings = .ok p)
include hp

theorem isAnswered_runPasses (d : Document) (c : Context) :
    (runPasses p.continueOnError name p.plan.enabled d c.reset).context.design = c.design ∧
      (runPasses p.continueOnError name p.plan.enabled d c.reset).context.classes.IsAnswered
        c.design := by
  refine @runPasses_invariant name _ (fun c' => c'.design = c.design ∧
    c'.classes.IsAnswered c.design) (fun e he d c' h => ?_) p.continueOnError d c.reset
      ⟨rfl, ClassTable.isAnswered_empty _⟩
  rw [e.contextAfter_eq d c' Context.classes fun _ _ => rfl,
    e.design_contextAfter (isFramed_of_isBuiltin hp e he)]
  rw [plan_ofRegistry hp] at he
  exact ⟨h.1, isAnswered_builtin e.pass (pass_mem_builtinPasses he) d c' h.1 h.2⟩

/-- The classes of a run are the answers to requests, however the run ends. -/
theorem isAnswered_run (c : Context) :
    (p.run c source name).context.classes.IsAnswered c.design := by
  cases hread : Document.read source with
  | error error =>
    rw [run_of_error hread]
    exact ClassTable.isAnswered_empty _
  | ok d =>
    obtain ⟨hdesign, hclasses⟩ := @isAnswered_runPasses p name settings hp d c
    cases hfault : (runPasses p.continueOnError name p.plan.enabled d c.reset).fault? with
    | some cause =>
      rw [run_of_fault hread hfault]
      exact hclasses
    | none =>
      rw [run_of_completed hread hfault]
      dsimp only
      rw [classes_finish, hdesign]
      exact isAnswered_sweep hclasses _

/-- No selector is repeated in the stylesheet for the classes of a run. -/
theorem nodup_selectors_run (c : Context) (fonts : List FontUse) :
    (((Sheet.build c.design (p.run c source name).context.classes fonts).utilities ++
        (Sheet.build c.design (p.run c source name).context.classes fonts).rules).map
      Rule.selector).Nodup := by
  obtain ⟨rs, hrs⟩ := @isAnswered_run p source name settings hp c
  rw [hrs, Sheet.nodup_selectors_iff c.design (ClassRequest.isKeyed_tableFrom ClassTable.isKeyed_empty rs)]
  intro e he
  obtain he | ⟨r, -, hentry⟩ := ClassRequest.exists_request_of_mem_tableFrom he
  · exact absurd he List.not_mem_nil
  · exact ClassRequest.name_ne_tool hentry

end

end Pipeline

end MarkupTidy
