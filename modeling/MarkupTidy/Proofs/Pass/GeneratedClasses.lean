import MarkupTidy.Proofs.Pass.Frame
import MarkupTidy.Proofs.Utility.Absorbed
import MarkupTidy.Proofs.Utility.GeneratedNames

/-! # Generated classes from one pass to the next

What resolving variables and optimizing classes do to the class tokens of an element, and what the
two come to for the classes that have been generated.

* `CssVariables.Resolves`, `CssVariables.resolves_run`: the tokens are resolved.
* `ClassOptimizer.Optimizes`, `ClassOptimizer.optimizes_run`: the tokens are optimized.
* `KeepsGenerated`, `keepsGenerated_of_comp`: a generated class stays unless its name is absorbed. -/

namespace MarkupTidy

/-! ### Resolving -/

namespace CssVariables

/-- The class tokens of an element are resolved, and its class text is joined if they change. -/
structure Resolves (design : VariableTable) (as bs : Attributes) : Prop where
  classes : bs.classes = resolvedClasses design as
  isJoined : resolvedClasses design as ≠ as.classes → bs.IsJoined

variable {design : VariableTable}

theorem resolves_resolveClasses (st : State) (as : Attributes) :
    Resolves design as (resolveClasses design st as).2 where
  classes := classes_resolveClasses_eq st as
  isJoined := by
    intro hne
    have hstatic : as.hasStaticClasses = true := by
      rw [← Bool.not_eq_false]
      intro hstatic
      rw [resolvedClasses, Attributes.classes_of_not_static hstatic] at hne
      exact hne rfl
    unfold resolveClasses
    rw [if_pos hstatic]
    dsimp only
    split
    · rename_i hsame
      exact absurd hsame hne
    · exact Attributes.isJoined_setClasses _ (List.forall_mem_map.2 fun t ht =>
        isToken_tokenChange (Attributes.isToken_of_mem_classes ht))

theorem text?_cleanStyle (counters : Counters) (as : Attributes) :
    (cleanStyle counters as).2.text? classAttribute = as.text? classAttribute := by
  unfold cleanStyle
  split
  · rfl
  · split
    · rfl
    · exact Attributes.text?_set_of_ne _ _ (by decide)

/-- The visits of the pass resolve the tokens of every element. -/
theorem resolves_visit (design : VariableTable) : ChangesEach (Resolves design) (visit design) where
  attributes := by
    intro st e
    have hvisit : (visit design st e).attributes =
        (cleanStyle (resolveClasses design st e.attributes).1.counters
          (resolveClasses design st e.attributes).2).2 := rfl
    have htext := text?_cleanStyle (resolveClasses design st e.attributes).1.counters
      (resolveClasses design st e.attributes).2
    have hclasses := classes_cleanStyle (resolveClasses design st e.attributes).1.counters
      (resolveClasses design st e.attributes).2
    obtain ⟨hresolved, hjoined⟩ := @resolves_resolveClasses design st e.attributes
    rw [hvisit]
    refine ⟨hclasses.trans hresolved, fun hne => ?_⟩
    rw [Attributes.IsJoined, htext, hclasses]
    exact hjoined hne
  forChildren _ _ := rfl
  noFault _ _ := rfl

theorem resolves_run (d : Document) (c : Context) :
    d.Matches (Resolves c.design) (pass.run d c).document :=
  isWalk.changesEach d (resolves_visit c.design)

end CssVariables

/-! ### Optimizing -/

namespace ClassOptimizer

/-- The class tokens of an element are optimized and stand there once, and its class text stays
joined. -/
structure Optimizes (as bs : Attributes) : Prop where
  classes : bs.classes = dedupe (optimize as.classes)
  isJoined : as.IsJoined → bs.IsJoined

theorem isToken_of_mem_dedupe_optimize {tokens : List String} (h : ∀ t ∈ tokens, IsToken t) :
    ∀ t ∈ dedupe (optimize tokens), IsToken t := by
  intro t ht
  refine isToken_mergeSquare (List.forall_mem_map.2 fun u hu => ?_) t (mem_dedupe.1 ht)
  exact isToken_optimizeToken (h u hu)

/-- The visits of the pass optimize the tokens of every element. -/
theorem optimizes_visit : ChangesEach Optimizes visit where
  attributes := by
    intro st e
    cases hstatic : e.attributes.hasStaticClasses with
    | false =>
      rw [visit_of_not_static hstatic]
      exact ⟨by rw [Visit.keep, Visit.change, Attributes.classes_of_not_static hstatic]; rfl, id⟩
    | true =>
      rw [visit_of_static hstatic, Visit.change]
      dsimp only
      split
      · rename_i hsame
        exact ⟨hsame.symm, id⟩
      · have htokens := @isToken_of_mem_dedupe_optimize e.attributes.classes
          fun t ht => Attributes.isToken_of_mem_classes ht
        exact ⟨Attributes.classes_setClasses htokens, fun _ => Attributes.isJoined_setClasses _ htokens⟩
  forChildren st e := by
    cases hstatic : e.attributes.hasStaticClasses with
    | false => rw [visit_of_not_static hstatic]; rfl
    | true => rw [visit_of_static hstatic]; rfl
  noFault st e := by
    cases hstatic : e.attributes.hasStaticClasses with
    | false => rw [visit_of_not_static hstatic]; rfl
    | true => rw [visit_of_static hstatic]; rfl

theorem optimizes_run (d : Document) (c : Context) :
    d.Matches Optimizes (pass.run d c).document :=
  isWalk.changesEach d optimizes_visit

end ClassOptimizer

/-! ### One after the other -/

/-- Every class that is generated for the element is among its classes in the end exactly if its name
is not absorbed, and then it is among them also when the class text is swept. -/
def KeepsGenerated (design : VariableTable) (as bs : Attributes) : Prop :=
  ∀ entry, CssVariables.WritesClass design as entry →
    (entry.name ∈ bs.classes ↔
        ¬ ClassOptimizer.IsAbsorbed (CssVariables.resolvedClasses design as) entry.name) ∧
      (entry.name ∈ bs.classes → entry.name ∈ bs.sweptClasses design)

theorem keepsGenerated_of_comp {design : VariableTable} {as bs : Attributes}
    (h : Relation.Comp (CssVariables.Resolves design) ClassOptimizer.Optimizes as bs) :
    KeepsGenerated design as bs := by
  obtain ⟨between, hresolves, hoptimizes⟩ := h
  intro entry hwrites
  have hclasses : bs.classes
      = dedupe (ClassOptimizer.optimize (CssVariables.resolvedClasses design as)) := by
    rw [hoptimizes.classes, hresolves.classes]
  have hjoined : bs.IsJoined := hoptimizes.isJoined (hresolves.isJoined hwrites.resolvedClasses_ne)
  constructor
  · rw [hclasses, mem_dedupe]
    exact ClassOptimizer.mem_optimize_iff hwrites.mem_resolvedClasses
  · exact fun hmem => Attributes.mem_sweptClasses hjoined hmem hwrites.read?_eq_none

end MarkupTidy
