import MarkupTidy.Proofs.Pass.Completion
import MarkupTidy.Proofs.Run.Repetition
import MarkupTidy.Proofs.Sheet.FontImport

/-! # Runs that complete

Of the built-in passes only the one for fonts can fail, on an element with a font class whose `style`
is neither an inline style nor an expression.  A run whose passes have completed can still end without
a stylesheet, if a family that it has to import has no encoding.  Nothing else keeps a component that
can be read from being tidied.

* `Pipeline.fault_runPasses_usual_iff`: the documents on which the built-in passes complete.
* `Pipeline.completes_iff`: the components that a run completes on.
* `Pipeline.textStyle_not_completed`: a component that it fails on. -/

namespace MarkupTidy

open MarkupTidy.Text

namespace Pipeline

variable {name : String} {passes : List PlannedPass}

/-! ### Passes in turn -/

/-- Passes that complete on every document complete in turn. -/
theorem fault_runPasses_eq_none (hframed : ∀ p ∈ passes, p.pass.IsFramed)
    (hp : ∀ p ∈ passes, p.pass.Completes) (continueOnError : Bool) (d : Document) {c : Context}
    (hc : c.assets? = none) : (runPasses continueOnError name passes d c).fault? = none := by
  induction passes generalizing d c with
  | nil => rfl
  | cons p rest ih =>
    rw [List.forall_mem_cons] at hframed hp
    obtain ⟨counters, hr⟩ := hp.1 d c hc
    rw [runPasses_cons_of_ok hr]
    exact ih hframed.2 hp.2 _ ((PlannedPass.assets_contextAfter hframed.1 d c).trans hc)

variable {d : Document} {c : Context}

/-- The built-in passes complete in turn if the first of them does. -/
theorem fault_runPasses_usual_of_ok (hc : c.assets? = none) {counters : Counters}
    (h : (FontDetection.pass.run d c).result = .ok counters) :
    (runPasses false name usualPlan.enabled d c).fault? = none := by
  have hframed : ∀ p ∈ usualPlan.enabled, p.pass.IsFramed :=
    forall_enabled_usualPlan isFramed_builtin
  have hcompletes : ∀ p ∈ usualPlan.enabled.tail, p.pass.Completes := fun p hp =>
    completes_builtin p.pass (pass_mem_tail_builtinPasses hp)
  rw [enabled_usualPlan, List.forall_mem_cons] at hframed
  rw [enabled_usualPlan, runPasses_cons_of_ok h]
  exact fault_runPasses_eq_none hframed.2 hcompletes false _
    ((PlannedPass.assets_contextAfter hframed.1 d c).trans hc)

/-- The built-in passes end in turn with the fault of the first of them. -/
theorem fault_runPasses_usual_of_error {fault : PassFault}
    (h : (FontDetection.pass.run d c).result = .error fault) :
    (runPasses false name usualPlan.enabled d c).fault?
      = some (.passFailed "font-detection" fault) := by
  rw [enabled_usualPlan]
  exact fault_runPasses_cons_of_error h

/-- The built-in passes complete in turn exactly if every element can be given its typeface. -/
theorem fault_runPasses_usual_iff (hc : c.assets? = none) :
    (runPasses false name usualPlan.enabled d c).fault? = none ↔
      ∀ e ∈ d.elements, FontDetection.TakesTypeface e := by
  rw [← FontDetection.exists_result_iff d c]
  cases hr : (FontDetection.pass.run d c).result with
  | ok counters => exact iff_of_true (fault_runPasses_usual_of_ok hc hr) ⟨counters, rfl⟩
  | error fault =>
    rw [fault_runPasses_usual_of_error hr]
    simp

/-- There is one fault that the built-in passes end with. -/
theorem eq_of_fault_runPasses_usual (hc : c.assets? = none) {fault : RunFault}
    (h : (runPasses false name usualPlan.enabled d c).fault? = some fault) :
    fault = .passFailed "font-detection" .styleWithoutSource := by
  cases hr : (FontDetection.pass.run d c).result with
  | ok counters =>
    rw [fault_runPasses_usual_of_ok hc hr] at h
    exact absurd h (by simp)
  | error cause =>
    rw [fault_runPasses_usual_of_error hr, FontDetection.eq_of_result_error hr] at h
    exact (Option.some.inj h).symm

/-- The typefaces of a run whose passes have completed are those of the elements. -/
theorem mem_fonts_runPasses_usual_iff (h : ∀ e ∈ d.elements, FontDetection.TakesTypeface e)
    {f : FontUse} : f ∈ (runPasses false name usualPlan.enabled d c).context.fonts ↔
      f ∈ c.fonts ∨ ∃ e ∈ d.elements, FontDetection.typeface? e = some f := by
  obtain ⟨counters, hr⟩ := (FontDetection.exists_result_iff d c).2 h
  rw [fonts_runPasses_builtin hr, FontDetection.mem_fonts_run_iff h]

/-! ### Runs -/

/-- The first event of a run. -/
def started (p : Pipeline) (name : String) : Event :=
  .runStarted name (p.plan.enabled.map PlannedPass.name)

section
variable {p : Pipeline} {source : String}

theorem run_of_error {error : ParseError} (h : Document.read source = .error error) :
    p.run c source name = ⟨c.reset, [p.started name, .runFailed name error.message],
      [.sourceMalformed name error.message], .error (.malformed error)⟩ := by
  unfold run
  rw [h]
  rfl

theorem run_of_fault (hread : Document.read source = .ok d) {cause : RunFault}
    (h : (runPasses p.continueOnError name p.plan.enabled d c.reset).fault? = some cause) :
    p.run c source name =
      let r := runPasses p.continueOnError name p.plan.enabled d c.reset
      ⟨r.context, p.started name :: r.events, r.notices, .error cause⟩ := by
  unfold run
  dsimp only
  rw [hread]
  dsimp only
  rw [h]
  rfl

theorem run_of_completed (hread : Document.read source = .ok d)
    (h : (runPasses p.continueOnError name p.plan.enabled d c.reset).fault? = none) :
    p.run c source name =
      let r := runPasses p.continueOnError name p.plan.enabled d c.reset
      let o := finish name r
      { o with
        events := p.started name :: r.events ++ o.events
        notices := r.notices ++ o.notices } := by
  unfold run
  dsimp only
  rw [hread]
  dsimp only
  rw [h]
  rfl

theorem result_run_of_fault (hread : Document.read source = .ok d) {fault : RunFault}
    (h : (runPasses p.continueOnError name p.plan.enabled d c.reset).fault? = some fault) :
    (p.run c source name).result = .error fault := by
  rw [run_of_fault hread h]

theorem result_run_of_completed (hread : Document.read source = .ok d)
    (h : (runPasses p.continueOnError name p.plan.enabled d c.reset).fault? = none) :
    (p.run c source name).result
      = (finish name (runPasses p.continueOnError name p.plan.enabled d c.reset)).result := by
  rw [run_of_completed hread h]

end

theorem exists_family_of_result_finish {r : PassRun} {fault : RunFault}
    (h : (finish name r).result = .error fault) : ∃ family, fault = .familyNotEncodable family := by
  unfold finish at h
  dsimp only at h
  split at h
  · exact ⟨_, (Except.error.inj h).symm⟩
  · exact absurd h (by simp)

theorem exists_result_finish_iff {r : PassRun} : (∃ out, (finish name r).result = .ok out) ↔
    unencodableFamily? (Sheet.fontUses r.context.design r.context.fonts) = none := by
  simp only [result_finish_iff]
  exact ⟨fun ⟨_, h, _⟩ => h, fun h => ⟨_, h, rfl⟩⟩

/-- A run completes exactly if its passes do, and all families can be imported. -/
theorem exists_result_run_iff {p : Pipeline} {source : String}
    (hread : Document.read source = .ok d) :
    let r := runPasses p.continueOnError name p.plan.enabled d c.reset
    (∃ out, (p.run c source name).result = .ok out) ↔ r.fault? = none ∧
      unencodableFamily? (Sheet.fontUses r.context.design r.context.fonts) = none := by
  dsimp only
  cases hfault : (runPasses p.continueOnError name p.plan.enabled d c.reset).fault? with
  | some fault =>
    rw [result_run_of_fault hread hfault]
    simp
  | none =>
    rw [result_run_of_completed hread hfault, exists_result_finish_iff]
    exact (and_iff_right rfl).symm

/-- A run over a component that can be read completes exactly if every element with a typeface can be
given it, and every family that is to be imported has an encoding; else it ends for one of these two
reasons. -/
theorem completes_iff {p : Pipeline} (hp : ofRegistry .builtin .usual = .ok p)
    (hc : c.assets? = none) {source : String} (hread : Document.read source = .ok d) :
    ((∃ r, (p.run c source name).result = .ok r) ↔
      (∀ e ∈ d.elements, FontDetection.TakesTypeface e) ∧
        (∀ e ∈ d.elements, ∀ f, FontDetection.typeface? e = some f → isWellFormed f.1.toList) ∧
        ∀ f ∈ c.design.fonts, isWellFormed f.family.toList) ∧
    ∀ fault, (p.run c source name).result = .error fault →
      fault = .passFailed "font-detection" .styleWithoutSource ∨
        ∃ family, fault = .familyNotEncodable family := by
  obtain rfl := Except.ok.inj (hp.symm.trans ofRegistry_builtin_usual)
  have hreset : c.reset.assets? = none := hc
  constructor
  · have hdesign : (runPasses false name usualPlan.enabled d c.reset).context.design = c.design :=
      design_runPasses_builtin false
    refine (exists_result_run_iff hread).trans ?_
    dsimp only [usual]
    rw [hdesign, fault_runPasses_usual_iff hreset]
    refine and_congr_right fun htakes => ?_
    have hmem : ∀ f, f ∈ (runPasses false name usualPlan.enabled d c.reset).context.fonts ↔
        ∃ e ∈ d.elements, FontDetection.typeface? e = some f := fun f =>
      (mem_fonts_runPasses_usual_iff htakes).trans (or_iff_right List.not_mem_nil)
    rw [unencodableFamily?_eq_none_iff, Sheet.fontUses, List.forall_mem_append,
      List.forall_mem_map]
    simp only [hmem]
    exact and_congr_left fun _ =>
      ⟨fun h e he f hf => h f ⟨e, he, hf⟩, fun h f ⟨e, he, hf⟩ => h e he f hf⟩
  · intro fault hfault
    cases hpasses : (runPasses false name usualPlan.enabled d c.reset).fault? with
    | some cause =>
      rw [result_run_of_fault hread hpasses] at hfault
      rw [← Except.error.inj hfault]
      exact Or.inl (eq_of_fault_runPasses_usual hreset hpasses)
    | none =>
      rw [result_run_of_completed hread hpasses] at hfault
      exact Or.inr (exists_family_of_result_finish hfault)

end Pipeline

/-- A typeface over an inline style, above one over a style expression. -/
def styledCaption : String :=
  "<div style=\x7b\x7b margin: 0 \x7d\x7d className=\"font-['Inter:Bold']\">" ++
    "<p className=\"font-['Noto_Serif:Italic',serif]\" style=\x7bs\x7d /></div>"

/-- What the component is read as. -/
def styledCaptionModule : Document :=
  ⟨[.markup ⟨"div",
    [⟨"style", .style ⟨[("margin", .int 0)]⟩⟩, ⟨"className", .text "font-['Inter:Bold']"⟩],
    [.element ⟨"p",
      [⟨"className", .text "font-['Noto_Serif:Italic',serif]"⟩, ⟨"style", .expression "s"⟩],
      []⟩]⟩]⟩

set_option maxRecDepth 2000 in
theorem Pipeline.styledCaption_completes : ofRegistry .builtin .usual = .ok usual ∧
    Document.read styledCaption = .ok styledCaptionModule ∧
    (∀ e ∈ styledCaptionModule.elements, (FontDetection.typeface? e).isSome) ∧
    ∃ r, (usual.run (.new .empty none) styledCaption "").result = .ok r := by
  have hread : Document.read styledCaption = .ok styledCaptionModule := by with_unfolding_all rfl
  refine ⟨ofRegistry_builtin_usual, hread, by decide +kernel, ?_⟩
  refine (completes_iff ofRegistry_builtin_usual rfl hread).1.2 ⟨by decide +kernel, ?_, ?_⟩
  · have hfamilies : ∀ e ∈ styledCaptionModule.elements,
        ∀ f ∈ (FontDetection.typeface? e).toList, isWellFormed f.1.toList := by decide +kernel
    exact fun e he f hf => hfamilies e he f (by rw [hf]; exact List.mem_singleton_self f)
  · exact List.forall_mem_nil _

/-- A typeface on an element whose `style` is a quoted text. -/
def textStyle : String :=
  "<p className=\"font-['Inter:Bold']\" style=\"x\" />"

/-- What the component is read as. -/
def textStyleModule : Document :=
  ⟨[.markup ⟨"p",
    [⟨"className", .text "font-['Inter:Bold']"⟩, ⟨"style", .text "x"⟩], []⟩]⟩

/-- The component can be read, but the first pass fails on it, and with it the run. -/
theorem Pipeline.textStyle_not_completed : ofRegistry .builtin .usual = .ok usual ∧
    Document.read textStyle = .ok textStyleModule ∧
    (FontDetection.pass.run textStyleModule (.new .empty none)).result
      = .error .styleWithoutSource ∧
    (usual.run (.new .empty none) textStyle "").result
      = .error (.passFailed "font-detection" .styleWithoutSource) := by
  have hread : Document.read textStyle = .ok textStyleModule := by with_unfolding_all rfl
  have hpass : (FontDetection.pass.run textStyleModule (.new .empty none)).result
      = .error .styleWithoutSource := by with_unfolding_all rfl
  exact ⟨ofRegistry_builtin_usual, hread, hpass,
    result_run_of_fault hread (fault_runPasses_usual_of_error hpass)⟩

end MarkupTidy
