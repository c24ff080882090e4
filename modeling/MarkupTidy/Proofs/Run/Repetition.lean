import MarkupTidy.Proofs.Run.Passes

/-! # Running again

A run over what a run has written need not be the last one: a pass may leave behind what an
earlier pass, or it itself, looks for.  The runs that change nothing are those over settled
components, which are described element by element.

* `RunOutcome.Leaves`: a run that gives a code back, fixes nothing and counts no change.
* `Component.IsSettled`: a component that the built-in passes, the printer and the sweep leave as
  it is.
* `Pipeline.leaves_again_iff_isSettled`: the result of a run is left by the next run exactly if it
  is settled.
* `Pipeline.nested_pairs_not_left`: a run that the next run goes on with. -/

namespace MarkupTidy

/-- A run that completes with a code, has nothing to fix in it, and has no counter but of what it
has seen that is not zero. -/
def RunOutcome.Leaves (o : RunOutcome) (code : String) : Prop :=
  ∃ r, o.result = .ok r ∧ r.code = code ∧ r.fixed = 0 ∧
    ∀ pass key amount, (key, amount) ∈ r.context.stats.forPass pass →
      key ∉ Counters.observational → amount = 0

/-- A component that is left as it is: it can be read, no pass changes the document, and printed
and swept the document is the component again, with nothing fixed in it. -/
structure Component.IsSettled (design : VariableTable) (code : String) (d : Document) : Prop where
  read : Document.read code = .ok d
  document : d.IsSettled design
  swept : (sweep design .empty d.print).code = code.toList
  unfixed : (sweep design .empty d.print).fixed = 0

/-- Whether a component is settled is decided by reading it. -/
instance Component.decidableSettled (design : VariableTable) (code : String) :
    Decidable (∃ d, Component.IsSettled design code d) :=
  match h : Document.read code with
  | .error _ => .isFalse fun ⟨_, hd⟩ => by simp [hd.read] at h
  | .ok d =>
    decidable_of_iff (d.IsSettled design ∧ (sweep design .empty d.print).code = code.toList ∧
        (sweep design .empty d.print).fixed = 0)
      ⟨fun ⟨document, swept, unfixed⟩ => ⟨d, h, document, swept, unfixed⟩, fun ⟨d', hd⟩ => by
        obtain rfl := Except.ok.inj (h.symm.trans hd.read)
        exact ⟨hd.document, hd.swept, hd.unfixed⟩⟩

example : ¬ ∃ d, Component.IsSettled .empty "<p className=\"text-nowrap whitespace-pre\" />" d := by
  decide +kernel

/-! ### Sweeping -/

/-- The classes generated so far have no say in what the sweep writes. -/
theorem code_sweep (design : VariableTable) (table : ClassTable) (code : List Char) :
    (sweep design table code).code = (sweep design .empty code).code := by
  unfold sweep
  dsimp only
  split <;> rfl

theorem fixed_sweep (design : VariableTable) (table : ClassTable) (code : List Char) :
    (sweep design table code).fixed = (sweep design .empty code).fixed := by
  unfold sweep
  dsimp only
  split <;> rfl

/-- What the sweep leaves alone piece by piece it gives back, and has fixed nothing in it. -/
theorem Component.isSettled_of_unswept {design : VariableTable} {code : String} {d : Document}
    (hread : Document.read code = .ok d) (hd : d.IsSettled design)
    (hprint : d.print = code.toList)
    (hpieces : ∀ piece ∈ ClassPiece.split code.toList, piece.resolve design = piece) :
    Component.IsSettled design code d := by
  have hjoin : ClassPiece.join ((ClassPiece.split code.toList).map (·.resolve design))
      = code.toList := by
    rw [List.map_congr_left hpieces, List.map_id', ClassPiece.join_split]
  refine ⟨hread, hd, ?_, ?_⟩
  · rw [hprint]
    unfold sweep
    dsimp only
    split
    · rfl
    · exact hjoin
  · rw [hprint]
    unfold sweep
    dsimp only
    split
    · rfl
    · rw [hjoin]
      exact Int.sub_self _

/-! ### Completed runs -/

/-- What can be imported with further typefaces can be imported without them. -/
theorem unencodableFamily?_of_fontUses {design : VariableTable} {fonts : List FontUse}
    (h : unencodableFamily? (Sheet.fontUses design fonts) = none) :
    unencodableFamily? (Sheet.fontUses design []) = none := by
  unfold unencodableFamily? Sheet.fontUses at h ⊢
  rw [List.find?_eq_none] at h ⊢
  intro family hfamily
  refine h family ?_
  rw [List.map_append]
  exact List.mem_append_right _ hfamily

namespace Pipeline

theorem result_finish_iff {name : String} {r : PassRun} {out : TidyComponent} :
    (finish name r).result = .ok out ↔
      unencodableFamily? (Sheet.fontUses r.context.design r.context.fonts) = none ∧
        out =
          let s := sweep r.context.design r.context.classes r.document.print
          let context := { r.context with classes := s.table }
          ⟨String.ofList s.code, context.stylesheet, context, s.found, s.fixed⟩ := by
  unfold finish
  dsimp only
  cases unencodableFamily? (Sheet.fontUses r.context.design r.context.fonts) with
  | some family => simp
  | none => simp [eq_comm]

theorem result_run_iff {p : Pipeline} {c : Context} {source name : String} {out : TidyComponent} :
    (p.run c source name).result = .ok out ↔ ∃ d, Document.read source = .ok d ∧
      let r := runPasses p.continueOnError name p.plan.enabled d c.reset
      r.fault? = none ∧ (finish name r).result = .ok out := by
  unfold run
  dsimp only
  cases Document.read source with
  | error error => simp
  | ok d =>
    dsimp only
    cases hfault : (runPasses p.continueOnError name p.plan.enabled d c.reset).fault? with
    | some fault => simp [hfault]
    | none => simp [hfault]

/-- A completed run in which no pass has counted a change has begun with a settled document. -/
theorem isSettled_of_leaves {c : Context} (hc : c.assets? = none) {code name : String}
    (h : (usual.run c code name).Leaves code) : ∃ d, Component.IsSettled c.design code d := by
  have hreset : c.reset.assets? = none := hc
  obtain ⟨out, hout, hcode, hfixed, hzero⟩ := h
  obtain ⟨d, hread, hfault, hfinish⟩ := result_run_iff.1 hout
  obtain ⟨-, rfl⟩ := result_finish_iff.1 hfinish
  dsimp only [usual] at hfault hcode hfixed hzero
  have hpositive : (runPasses false name usualPlan.enabled d c.reset).context.stats.ArePositive :=
    arePositive_runPasses_builtin false Stats.arePositive_empty
  have hidle : (runPasses false name usualPlan.enabled d c.reset).IsIdle :=
    ⟨hfault, fun pass => (hpositive pass).isIdle_iff.2 (hzero pass)⟩
  have hdocument := document_runPasses_builtin_of_isIdle hreset hidle
  have hdesign : (runPasses false name usualPlan.enabled d c.reset).context.design = c.design :=
    design_runPasses_builtin false
  rw [hdocument, hdesign] at hcode hfixed
  refine ⟨d, hread, (isIdle_runPasses_builtin_iff hreset rfl Stats.isIdle_empty).1 hidle, ?_, ?_⟩
  · rw [← hcode, String.toList_ofList]
    exact (code_sweep ..).symm
  · rw [← hfixed]
    exact (fixed_sweep ..).symm

/-- A run over a settled component leaves it, if the variables name no family that cannot be
imported. -/
theorem leaves_of_isSettled {c : Context} (hc : c.assets? = none) {code name : String}
    {d : Document} (hd : Component.IsSettled c.design code d)
    (hfonts : unencodableFamily? (Sheet.fontUses c.design []) = none) :
    (usual.run c code name).Leaves code := by
  have hreset : c.reset.assets? = none := hc
  have hidle : (runPasses false name usualPlan.enabled d c.reset).IsIdle :=
    (isIdle_runPasses_builtin_iff hreset rfl Stats.isIdle_empty).2 hd.document
  have hdocument := document_runPasses_builtin_of_isIdle hreset hidle
  have hdesign : (runPasses false name usualPlan.enabled d c.reset).context.design = c.design :=
    design_runPasses_builtin false
  have hseen : (runPasses false name usualPlan.enabled d c.reset).context.fonts = [] :=
    fonts_runPasses_of_isSettled hd.document
  have hpositive : (runPasses false name usualPlan.enabled d c.reset).context.stats.ArePositive :=
    arePositive_runPasses_builtin false Stats.arePositive_empty
  refine ⟨_, result_run_iff.2 ⟨d, hd.read, hidle.1, result_finish_iff.2 ⟨?_, rfl⟩⟩, ?_, ?_, ?_⟩
  · dsimp only [usual]
    rwa [hdesign, hseen]
  · dsimp only [usual]
    rw [hdocument, hdesign, code_sweep, hd.swept, String.ofList_toList]
  · dsimp only [usual]
    rw [hdocument, hdesign, fixed_sweep, hd.unfixed]
  · intro pass
    exact (hpositive pass).isIdle_iff.1 (hidle.2 pass)

/-- What is known of the result of a run that completes. -/
theorem exists_of_map_eq {α : Type} {f : TidyComponent → α} {value : α} {o : RunOutcome}
    (h : o.result.toOption.map f = some value) : ∃ r, o.result = .ok r ∧ f r = value := by
  cases hr : o.result with
  | ok r => exact ⟨r, rfl, by simpa [hr, Except.toOption] using h⟩
  | error fault => simp [hr, Except.toOption] at h

/-- The code of a run that completes. -/
theorem exists_of_code_eq {o : RunOutcome} {code : String}
    (h : o.result.toOption.map TidyComponent.code = some code) :
    ∃ r, o.result = .ok r ∧ r.code = code :=
  exists_of_map_eq h

/-- The result of a run is left by the next run exactly if it is settled. -/
theorem leaves_again_iff_isSettled {p : Pipeline} (hp : ofRegistry .builtin .usual = .ok p)
    {c : Context} (hc : c.assets? = none) {source name : String} {r : TidyComponent}
    (hr : (p.run c source name).result = .ok r) (again : String) :
    (p.run c r.code again).Leaves r.code ↔ ∃ d, Component.IsSettled c.design r.code d := by
  obtain rfl := Except.ok.inj (hp.symm.trans ofRegistry_builtin_usual)
  constructor
  · exact isSettled_of_leaves hc
  · rintro ⟨d, hd⟩
    obtain ⟨d₁, -, -, hfinish⟩ := result_run_iff.1 hr
    obtain ⟨hfonts, -⟩ := result_finish_iff.1 hfinish
    dsimp only [usual] at hfonts
    have hdesign : (runPasses false name usualPlan.enabled d₁ c.reset).context.design = c.design :=
      design_runPasses_builtin false
    rw [hdesign] at hfonts
    exact leaves_of_isSettled hc hd (unencodableFamily?_of_fontUses hfonts)

/-- Where the second run finds nothing left to do. -/
theorem gap_leaves_again_iff :
    ∃ r, (usual.run (.new .empty none) "<p className=\"gap-[4px]\" />" "first").result = .ok r ∧
      (usual.run (.new .empty none) r.code "second").Leaves r.code := by
  have hfirst : (usual.run (.new .empty none) "<p className=\"gap-[4px]\" />"
      "first").result.toOption.map TidyComponent.code = some "<p className=\"gap-1\" />" := by
    decide +kernel
  obtain ⟨r, hr, hcode⟩ := exists_of_code_eq hfirst
  have hagain := leaves_again_iff_isSettled ofRegistry_builtin_usual rfl hr "second"
  refine ⟨r, hr, hagain.2 ?_⟩
  rw [hcode]
  decide +kernel

/-- Taking one pair out of another leaves a pair behind, for the next run to take out. -/
theorem nested_pairs_not_left :
    ofRegistry .builtin .usual = .ok usual ∧
      ∃ r, (usual.run (.new .empty none)
        "<p className=\"text-nowrap text-nowrap whitespace-pre whitespace-pre\" />" "").result = .ok r
          ∧ ¬ (usual.run (.new .empty none) r.code "").Leaves r.code := by
  have hfirst : (usual.run (.new .empty none)
      "<p className=\"text-nowrap text-nowrap whitespace-pre whitespace-pre\" />"
      "").result.toOption.map TidyComponent.code
        = some "<p className=\"text-nowrap whitespace-pre\" />" := by decide +kernel
  have hsecond : (usual.run (.new .empty none) "<p className=\"text-nowrap whitespace-pre\" />"
      "").result.toOption.map TidyComponent.code = some "<p className=\"\" />" := by decide +kernel
  obtain ⟨r, hr, hcode⟩ := exists_of_code_eq hfirst
  obtain ⟨r', hr', hcode'⟩ := exists_of_code_eq hsecond
  refine ⟨ofRegistry_builtin_usual, r, hr, ?_⟩
  rintro ⟨out, hout, hsame, -, -⟩
  rw [hcode] at hout hsame
  rw [Except.ok.inj (hout.symm.trans hr'), hcode'] at hsame
  exact absurd hsame (by decide)

end Pipeline

end MarkupTidy
