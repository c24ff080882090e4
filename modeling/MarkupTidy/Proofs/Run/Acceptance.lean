import MarkupTidy.Proofs.Pass.Soundness
import MarkupTidy.Proofs.Run.Repetition

/-! # The code that a run writes can be read

* `Document.IsSafe.areSound`: a component that is read, with safe parts, is sound.
* `Pipeline.run_accepted`: the code of a run over it is accepted.
* `Pipeline.commentStyle_not_accepted`: a comment that goes on over the end of its expression. -/

namespace MarkupTidy

open MarkupTidy.Markup MarkupTidy.Text

/-! ### Safe components -/

theorem Attribute.IsWritten.isNamed {a : Attribute} (h : a.IsWritten) : a.IsNamed := by
  obtain ⟨name, value⟩ := a
  cases value with
  | flag => exact h
  | text value => exact h
  | expression source => exact h.imp_right And.left
  | style s => exact trivial

section
variable {design : VariableTable}

theorem Element.IsWritten.isSound {e : Element} (h : e.IsWritten) (hsafe : e.IsSafe design) :
    e.IsSound design where
  tag := h.tag.imp_left And.left
  attributes a ha := ⟨(h.attributes a ha).isNamed, hsafe.attributes a ha⟩
  texts := h.texts
  children := hsafe.children

/-- Segments that a source can hold are sound if their parts are safe. -/
theorem Segment.AreWritten.areSound {segments : List Segment} (h : Segment.AreWritten segments)
    (hsafe : Document.IsSafe design ⟨segments⟩) : Segment.AreSound design segments := by
  induction segments with
  | nil => trivial
  | cons s rest ih =>
    obtain ⟨hs, hapart, hrest⟩ := h
    obtain ⟨hcode, helements⟩ := hsafe
    cases s with
    | code source =>
      obtain ⟨hsource, hcode⟩ := List.forall_mem_cons.1 hcode
      exact ⟨hsource, hapart, ih hrest ⟨hcode, helements⟩⟩
    | markup root =>
      rw [Document.elements_markup, List.forall_mem_append] at helements
      exact ⟨⟨fun x hx => (hs.1 x hx).isSound (helements.1 x hx), hs.2⟩, hapart,
        ih hrest ⟨hcode, helements.2⟩⟩

/-- A component that is read is sound if its parts are safe. -/
theorem Document.IsSafe.areSound {d : Document} (h : d.IsSafe design) {source : String}
    (hread : read source = .ok d) : Segment.AreSound design d.segments :=
  (areWritten_of_read hread).areSound h

end

/-! ### Runs -/

theorem passes_builtin : Registry.builtin.passes = builtinPasses.map fun p => (p.name, p) := rfl

/-- Whatever the settings say, only built-in passes are planned. -/
theorem pass_mem_builtinPasses {settings : Settings} {p : PlannedPass}
    (h : p ∈ (Registry.builtin.plan settings).enabled) : p.pass ∈ builtinPasses := by
  have hentry := (Plan.entries_plan_perm .builtin settings).mem_iff.1 (List.mem_filter.1 h).1
  rw [passes_builtin, List.map_map] at hentry
  obtain ⟨pass, hpass, rfl⟩ := List.mem_map.1 hentry
  exact hpass

namespace Pipeline

theorem plan_ofRegistry {registry : Registry} {settings : Settings} {p : Pipeline}
    (h : ofRegistry registry settings = .ok p) : p.plan = registry.plan settings := by
  unfold ofRegistry at h
  dsimp only at h
  split at h
  · exact Except.ok.inj h ▸ rfl
  · exact absurd h (by simp)

/-- What a run has made of a sound module is sound. -/
theorem areSound_runPasses {passes : List PlannedPass} (hp : ∀ p ∈ passes, p.pass ∈ builtinPasses)
    (continueOnError : Bool) (name : String) {d : Document} {c : Context} (hc : c.assets? = none)
    (hd : Segment.AreSound c.design d.segments) :
    let r := runPasses continueOnError name passes d c
    r.context.design = c.design ∧ Segment.AreSound c.design r.document.segments := by
  have hkeeps : ∀ p ∈ passes, ∀ d c', c'.assets? = none ∧ c'.design = c.design ∧
      Segment.AreSound c.design d.segments → (p.contextAfter d c').assets? = none ∧
        (p.contextAfter d c').design = c.design ∧
        Segment.AreSound c.design (p.pass.run d c').document.segments := by
    rintro p hmem d c' ⟨hassets, hdesign, hsound⟩
    have hframed := isFramed_builtin p.pass (hp p hmem)
    rw [PlannedPass.assets_contextAfter hframed, PlannedPass.design_contextAfter hframed]
    refine ⟨hassets, hdesign, ?_⟩
    rw [← hdesign] at hsound ⊢
    exact keepsSound_builtin p.pass (hp p hmem) d c' hassets hsound
  exact (runPasses_keeps hkeeps continueOnError ⟨hc, rfl, hd⟩).2

/-- The code of a run over a component with safe parts is accepted, whichever of the built-in passes
run in whatever order. -/
theorem run_accepted {settings : Settings} {p : Pipeline} (hp : ofRegistry .builtin settings = .ok p)
    {c : Context} (hc : c.assets? = none) {source name : String} {d : Document}
    (hd : Document.read source = .ok d) (hsafe : d.IsSafe c.design) {r : TidyComponent}
    (hr : (p.run c source name).result = .ok r) : ∃ d', Document.read r.code = .ok d' := by
  obtain ⟨d₁, hread, -, hfinish⟩ := result_run_iff.1 hr
  obtain rfl := Except.ok.inj (hd.symm.trans hread)
  obtain ⟨-, rfl⟩ := result_finish_iff.1 hfinish
  have hpasses : ∀ q ∈ p.plan.enabled, q.pass ∈ builtinPasses := by
    rw [plan_ofRegistry hp]
    exact fun q => pass_mem_builtinPasses
  obtain ⟨hdesign, hsound⟩ :=
    areSound_runPasses hpasses p.continueOnError name (c := c.reset) hc (hsafe.areSound hd)
  obtain ⟨hprinted, hswept⟩ := Document.exists_read_of_areSound hsound
  dsimp only
  rw [hdesign]
  obtain hcode | hcode := code_sweep_eq c.reset.design
    (runPasses p.continueOnError name p.plan.enabled d c.reset).context.classes
    (runPasses p.continueOnError name p.plan.enabled d c.reset).document.print
  · rw [hcode]
    exact hprinted
  · rw [hcode]
    exact hswept

end Pipeline

/-- A component with a placeholder, a typeface under a style expression, and an image in a wrapper. -/
def badge : String :=
  "a = (\n<b style=\x7bs\x7d className=\"font-['Inter:Bold'] gap-[var(--x,4px)]\">Hi \x7bn\x7d" ++
    "<div className=\"absolute\"><img src=\x7bx\x7d /></div></b>\n);\n"

/-- What the component is read as. -/
def badgeModule : Document :=
  ⟨[.code "a = (\n",
    .markup ⟨"b",
      [⟨"style", .expression "s"⟩,
        ⟨"className", .text "font-['Inter:Bold'] gap-[var(--x,4px)]"⟩],
      [.text "Hi ", .expression "n",
        .element ⟨"div", [⟨"className", .text "absolute"⟩],
          [.element ⟨"img", [⟨"src", .expression "x"⟩], []⟩]⟩]⟩,
    .code "\n);\n"]⟩

theorem isSafe_badgeModule (design : VariableTable) : badgeModule.IsSafe design := by
  have hcode : ∀ source ∈ badgeModule.code, IsSafeCode design source.toList := by
    simp only [Document.code, badgeModule, List.filterMap_cons, List.filterMap_nil,
      List.forall_mem_cons]
    exact ⟨.of_holdsNoClasses (by decide) (isCodeText_of_plain (by decide) (by decide)),
      .of_holdsNoClasses (by decide) (isCodeText_of_plain (by decide) (by decide)), by simp⟩
  have hsource : ∀ {c : Char}, IsPlainChar c ∧ c ≠ '=' → IsSweepable design [c] := fun hc =>
    .of_plain (List.forall_mem_singleton.2 hc)
  have hstyle : Attribute.IsSafe design ⟨"style", .expression "s"⟩ :=
    ⟨hsource (by decide), fun _ => hsource (by decide)⟩
  have himage : Attribute.IsSafe design ⟨"src", .expression "x"⟩ :=
    ⟨hsource (by decide), fun h => absurd h (by decide)⟩
  have hclasses : ∀ value ∈ ["font-['Inter:Bold'] gap-[var(--x,4px)]", "absolute"],
      Attribute.IsSafe design ⟨"className", .text value⟩ := by
    have hboth : ∀ value ∈ ["font-['Inter:Bold'] gap-[var(--x,4px)]", "absolute"],
        HoldsNoClasses value.toList ∧ '"' ∉ value.toList := by decide +kernel
    exact fun value hvalue => ⟨(hboth value hvalue).1, fun _ => (hboth value hvalue).2⟩
  have htext : HoldsNoClasses "Hi ".toList := by decide
  refine ⟨hcode, ?_⟩
  simp only [badgeModule, Document.elements, Document.roots, List.filterMap_cons, List.filterMap_nil,
    List.flatMap_cons, List.flatMap_nil, Element.preorder, Node.preorderAll, List.append_nil,
    List.forall_mem_cons]
  refine ⟨⟨?_, ?_⟩, ⟨?_, ?_⟩, ⟨?_, ?_⟩, List.forall_mem_nil _⟩ <;> simp only [List.forall_mem_cons]
  · exact ⟨hstyle, hclasses _ (by simp), List.forall_mem_nil _⟩
  · exact ⟨htext, hsource (by decide), trivial, List.forall_mem_nil _⟩
  · exact ⟨hclasses _ (by simp), List.forall_mem_nil _⟩
  · exact ⟨trivial, List.forall_mem_nil _⟩
  · exact ⟨himage, List.forall_mem_nil _⟩
  · exact List.forall_mem_nil _

namespace Pipeline

set_option maxRecDepth 2000 in
theorem badge_run_accepted : ofRegistry .builtin .usual = .ok usual ∧
    Document.read badge = .ok badgeModule ∧ badgeModule.IsSafe .empty ∧
    ∃ r, (usual.run (.new .empty none) badge "").result = .ok r ∧
      ∃ d', Document.read r.code = .ok d' := by
  have hread : Document.read badge = .ok badgeModule := by with_unfolding_all rfl
  have hrun : (usual.run (.new .empty none) badge "").result.toOption.map TidyComponent.code =
      some ("a = (\n<b style=\x7b\x7b fontFamily: \"Inter, sans-serif\", fontWeight: 700, ...s \x7d\x7d" ++
        " className=\"gap-x\">Hi \x7bn\x7d<img src=\x7bx\x7d className=\"absolute\" /></b>\n);\n") := by
    decide +kernel
  obtain ⟨r, hr, -⟩ := exists_of_code_eq hrun
  exact ⟨ofRegistry_builtin_usual, hread, isSafe_badgeModule .empty, r, hr,
    run_accepted ofRegistry_builtin_usual rfl hread (isSafe_badgeModule .empty) hr⟩

end Pipeline

/-- A style expression that ends in a comment, above a font class. -/
def commentStyle : String :=
  "<p style=\x7bx // c\n\x7d className=\"font-['Inter:Bold']\" />"

/-- What the component is read as. -/
def commentStyleModule : Document :=
  ⟨[.markup ⟨"p",
    [⟨"style", .expression "x // c\n"⟩, ⟨"className", .text "font-['Inter:Bold']"⟩], []⟩]⟩

/-- The component can be read and its print too, but the run takes the line feed from the comment, which
then goes on over the closing braces. -/
theorem Pipeline.commentStyle_not_accepted : ofRegistry .builtin .usual = .ok usual ∧
    Document.read commentStyle = .ok commentStyleModule ∧
    Document.read (String.ofList commentStyleModule.print) = .ok commentStyleModule ∧
    ∃ r, (usual.run (.new .empty none) commentStyle "").result = .ok r ∧
      Document.read r.code = .error (.malformed .unterminatedExpression ⟨1, 10⟩) := by
  have hread : Document.read commentStyle = .ok commentStyleModule := by with_unfolding_all rfl
  have hprint : Document.read (String.ofList commentStyleModule.print) = .ok commentStyleModule := by
    with_unfolding_all rfl
  have hrun : (usual.run (.new .empty none) commentStyle "").result.toOption.map TidyComponent.code =
      some ("<p style=\x7b\x7b fontFamily: \"Inter, sans-serif\", fontWeight: 700, ...x // c \x7d\x7d" ++
        " className=\"\" />") := by
    decide +kernel
  obtain ⟨r, hr, hcode⟩ := exists_of_code_eq hrun
  refine ⟨ofRegistry_builtin_usual, hread, hprint, r, hr, ?_⟩
  rw [hcode]
  with_unfolding_all rfl

end MarkupTidy
