import MarkupTidy.Proofs.Markup.Layout
import MarkupTidy.Proofs.Pass.GeneratedClasses
import MarkupTidy.Proofs.Run.Completion

/-! # Generated classes in the code of a run

A class that is generated for an element is among the classes of that element in the code of the run,
unless optimizing takes its name for one that sets a size: an arbitrary value that has a standard
step, or a side of a square.

* `Pipeline.documentBefore`, `Pipeline.documentAfter`: the document as a pass of a run finds it, and as
  the last one leaves it.
* `Pipeline.CarriesGenerated`: what becomes of generated classes from the pass that writes them to the
  code.
* `Pipeline.carriesGenerated_run`: a run that completes carries them.
* `Pipeline.boundSquare_not_carried`: two that optimizing absorbs. -/

namespace MarkupTidy

namespace Pipeline

/-- The document that a pass of a run begins with. -/
def documentBefore (p : Pipeline) (pass name : String) (d : Document) (c : Context) : Document :=
  (runPasses p.continueOnError name (p.plan.enabled.takeWhile (·.name ≠ pass)) d c.reset).document

/-- The document that the passes of a run leave. -/
def documentAfter (p : Pipeline) (name : String) (d : Document) (c : Context) : Document :=
  (runPasses p.continueOnError name p.plan.enabled d c.reset).document

/-- What becomes of the classes that a run generates for elements. -/
structure CarriesGenerated (p : Pipeline) (c : Context) (name : String) (d : Document)
    (code : String) : Prop where
  /-- Resolving writes the names of generated classes where they are called for. -/
  written : (p.documentBefore "css-vars" name d c).Matches
    (fun as bs => bs.classes = CssVariables.resolvedClasses c.design as)
    (p.documentBefore "tailwind-optimizer" name d c)
  /-- They stay unless they are absorbed. -/
  kept : (p.documentBefore "css-vars" name d c).Matches (KeepsGenerated c.design)
    (p.documentAfter name d c)
  /-- The class texts that hold them are printed as class attributes. -/
  printed : ∀ e ∈ (p.documentAfter name d c).elements, e.tag ≠ "" →
    ∀ value, e.attributes.text? classAttribute = some value →
      ∃ quote, (ClassPiece.classes quote value.toList).text <:+: (p.documentAfter name d c).print
  /-- The class attributes of the code are those of the print, each as it was or swept. -/
  swept : List.Forall₂ (fun piece piece' => piece' = piece ∨ piece' = piece.resolve c.design)
    (ClassPiece.split (p.documentAfter name d c).print) (ClassPiece.split code.toList)

/-! ### The last two passes -/

theorem enabled_before_optimizer :
    usualPlan.enabled.takeWhile (·.name ≠ "tailwind-optimizer")
      = usualPlan.enabled.takeWhile (·.name ≠ "css-vars") ++ [⟨CssVariables.pass, 30, true⟩] :=
  rfl

theorem enabled_eq_append_optimizer :
    usualPlan.enabled = usualPlan.enabled.takeWhile (·.name ≠ "tailwind-optimizer")
      ++ [⟨ClassOptimizer.pass, 40, true⟩] :=
  rfl

section
variable {name : String} {d : Document} {c : Context}

/-- Where passes complete, the last of them works on what the others have left. -/
theorem document_runPasses_concat {first : List PlannedPass} {last : PlannedPass}
    {continueOnError : Bool}
    (h : (runPasses continueOnError name (first ++ [last]) d c).fault? = none) :
    (runPasses continueOnError name first d c).fault? = none ∧
      (runPasses continueOnError name (first ++ [last]) d c).document
        = (last.pass.run (runPasses continueOnError name first d c).document
            (runPasses continueOnError name first d c).context).document := by
  obtain ⟨hfirst, heq⟩ := runPasses_append h
  refine ⟨hfirst, ?_⟩
  rw [heq]
  exact document_runPasses_singleton ..

theorem design_before (pass : String) :
    (runPasses false name (usualPlan.enabled.takeWhile (·.name ≠ pass)) d c).context.design
      = c.design := by
  refine design_runPasses (fun e he => ?_) false d c
  exact forall_enabled_usualPlan isFramed_builtin e ((List.takeWhile_prefix _).subset he)

/-- The last two passes of the usual plan, where it completes. -/
theorem matches_of_completed (h : (runPasses false name usualPlan.enabled d c.reset).fault? = none) :
    (usual.documentBefore "css-vars" name d c).Matches (CssVariables.Resolves c.design)
        (usual.documentBefore "tailwind-optimizer" name d c) ∧
      (usual.documentBefore "tailwind-optimizer" name d c).Matches ClassOptimizer.Optimizes
        (usual.documentAfter name d c) := by
  unfold documentBefore documentAfter
  dsimp only [usual]
  rw [enabled_eq_append_optimizer] at h
  obtain ⟨hresolving, hoptimized⟩ := document_runPasses_concat h
  rw [← enabled_eq_append_optimizer] at hoptimized
  rw [enabled_before_optimizer] at hresolving
  obtain ⟨-, hresolved⟩ := document_runPasses_concat hresolving
  rw [← enabled_before_optimizer] at hresolved
  rw [hoptimized]
  refine ⟨?_, ClassOptimizer.optimizes_run _ _⟩
  rw [hresolved]
  have hdesign : (runPasses false name (usualPlan.enabled.takeWhile (·.name ≠ "css-vars")) d
      c.reset).context.design = c.design := design_before "css-vars"
  rw [← hdesign]
  exact CssVariables.resolves_run _ _

/-- A run of the usual passes that completes carries generated classes from the pass that writes them
to its code. -/
theorem carriesGenerated_run {p : Pipeline} (hp : ofRegistry .builtin .usual = .ok p)
    {source : String} (hread : Document.read source = .ok d) {r : TidyComponent}
    (hr : (p.run c source name).result = .ok r) : p.CarriesGenerated c name d r.code := by
  obtain rfl := Except.ok.inj (hp.symm.trans ofRegistry_builtin_usual)
  obtain ⟨d', hread', hcompleted, hfinish⟩ := result_run_iff.1 hr
  obtain rfl := Except.ok.inj (hread.symm.trans hread')
  obtain ⟨-, rfl⟩ := result_finish_iff.1 hfinish
  obtain ⟨hresolves, hoptimizes⟩ := matches_of_completed hcompleted
  refine ⟨hresolves.mono fun _ _ h => h.classes, (hresolves.comp hoptimizes).mono fun _ _ =>
    keepsGenerated_of_comp, fun e he htag value => Document.classes_isInfix_print he htag, ?_⟩
  have hdesign : (runPasses false name usualPlan.enabled d c.reset).context.design = c.design :=
    design_runPasses_builtin false
  dsimp only [documentAfter, usual]
  rw [String.toList_ofList, hdesign]
  exact ClassPiece.split_sweep ..

end

end Pipeline

/-- A spacing that is bound to a variable. -/
def boundSpacing : String :=
  "<p className=\"p-[var(--margin/r,32px)] flex\" />"

/-- What the component is read as. -/
def boundSpacingModule : Document :=
  ⟨[.markup ⟨"p", [⟨"className", .text "p-[var(--margin/r,32px)] flex"⟩], []⟩]⟩

/-- The class that is generated is among those of the element in the code. -/
theorem Pipeline.boundSpacing_carried : ofRegistry .builtin .usual = .ok usual ∧
    Document.read boundSpacing = .ok boundSpacingModule ∧
    ∃ r, (usual.run (.new .empty none) boundSpacing "").result = .ok r ∧
      r.code = "<p className=\"p-margin-r flex\" />" ∧
      usual.CarriesGenerated (.new .empty none) "" boundSpacingModule r.code := by
  have hread : Document.read boundSpacing = .ok boundSpacingModule := by with_unfolding_all rfl
  have hrun : (usual.run (.new .empty none) boundSpacing "").result.toOption.map TidyComponent.code
      = some "<p className=\"p-margin-r flex\" />" := by decide +kernel
  obtain ⟨r, hr, hcode⟩ := exists_of_code_eq hrun
  exact ⟨ofRegistry_builtin_usual, hread, r, hr, hcode,
    carriesGenerated_run ofRegistry_builtin_usual hread hr⟩

/-- Width and height that are bound to a variable of which the name is a step of the scale. -/
def boundSquare : String :=
  "<p className=\"w-[var(--6)] h-[var(--6)]\" />"

/-- What the component is read as. -/
def boundSquareModule : Document :=
  ⟨[.markup ⟨"p", [⟨"className", .text "w-[var(--6)] h-[var(--6)]"⟩], []⟩]⟩

/-- The run generates two classes, and writes their names onto the element.  They read like a width
and a height of the scale, so they become a size: the code refers to neither of them. -/
theorem Pipeline.boundSquare_not_carried : ofRegistry .builtin .usual = .ok usual ∧
    Document.read boundSquare = .ok boundSquareModule ∧
    (usual.documentBefore "css-vars" "" boundSquareModule (.new .empty none)).elements.map
        (fun e => e.attributes.classes.filterMap fun t =>
          (CssVariables.TokenChange.entry? (.of .empty t)).map ClassEntry.name)
      = [["w-6", "h-6"]] ∧
    (usual.documentBefore "tailwind-optimizer" "" boundSquareModule (.new .empty none)).elements.map
        (fun e => e.attributes.classes) = [["w-6", "h-6"]] ∧
    (usual.documentAfter "" boundSquareModule (.new .empty none)).elements.map
        (fun e => e.attributes.classes) = [["size-6"]] ∧
    ∃ r, (usual.run (.new .empty none) boundSquare "").result = .ok r ∧
      r.context.classes.entries.map ClassEntry.name = ["w-6", "h-6"] ∧
      r.code = "<p className=\"size-6\" />" := by
  have hread : Document.read boundSquare = .ok boundSquareModule := by with_unfolding_all rfl
  have hrun : (usual.run (.new .empty none) boundSquare "").result.toOption.map
      (fun r => (r.context.classes.entries.map ClassEntry.name, r.code))
        = some (["w-6", "h-6"], "<p className=\"size-6\" />") := by decide +kernel
  obtain ⟨r, hr, heq⟩ := exists_of_map_eq hrun
  obtain ⟨hclasses, hcode⟩ := Prod.mk.inj heq
  exact ⟨ofRegistry_builtin_usual, hread, by decide +kernel, by decide +kernel, by decide +kernel, r, hr,
    hclasses, hcode⟩

end MarkupTidy
