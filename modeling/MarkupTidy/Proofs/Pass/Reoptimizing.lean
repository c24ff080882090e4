import MarkupTidy.Proofs.Pass.Completion
import MarkupTidy.Proofs.Pass.GeneratedClasses
import MarkupTidy.Proofs.Pass.Telling
import MarkupTidy.Proofs.Utility.Absorbed

/-! # Classes that are optimized again

A square takes one width and one height with it, and only then repetitions are dropped.  A width and a
height that are left over stand there once, and make the same square when the classes are optimized
again; after that there is none to spare.

* `ClassOptimizer.areOptimal_optimized_iff`: when optimized tokens are optimal.
* `ClassOptimizer.document_eq_iff`, `ClassOptimizer.result_eq_nil_iff`: the documents that the pass leaves
  as they are, and on which it counts nothing.
* `ClassOptimizer.optimized_iff_no_spare`: when one run of the pass leaves nothing for the next; two runs
  always do. -/

namespace MarkupTidy

namespace ClassOptimizer

/-! ### Tokens -/

section
variable {tokens : List String}

theorem optimizeToken_of_mem_optimized {token : String} (h : token ∈ dedupe (optimize tokens)) :
    optimizeToken token = token := by
  by_contra hne
  exact not_mem_optimize_of_stepped hne (mem_dedupe.1 h)

/-- Optimized tokens are optimal unless a square was to spare. -/
theorem areOptimal_optimized_iff :
    AreOptimal (dedupe (optimize tokens)) ↔ ¬ HasSpareSquare tokens := by
  rw [← isSquare_dedupe_optimize_iff, not_exists]
  refine ⟨AreOptimal.noSquare, fun hsquare => ?_⟩
  exact ⟨fun _ => optimizeToken_of_mem_optimized, hsquare, nodup_dedupe _⟩

/-- Among optimized tokens no square is to spare. -/
theorem not_hasSpareSquare_optimized : ¬ HasSpareSquare (dedupe (optimize tokens)) := by
  have hstepped : (dedupe (optimize tokens)).map optimizeToken = dedupe (optimize tokens) := by
    rw [List.map_congr_left fun _ => optimizeToken_of_mem_optimized, List.map_id']
  rintro ⟨step, -, hwidth, -⟩
  rw [hstepped] at hwidth
  have honce := List.nodup_iff_count_le_one.1 (nodup_dedupe (optimize tokens)) ("w-" ++ step)
  omega

end

/-! ### Documents -/

theorem state_visit_of_settled {counters : Counters} {e : Element} (h : IsSettled e) :
    (visit counters e).state = counters := by
  cases hstatic : e.attributes.hasStaticClasses with
  | false => rw [visit_of_not_static hstatic]; rfl
  | true =>
    obtain ⟨hoptimal, hdistinct⟩ := areOptimal_iff.1 h
    rw [visit_of_static hstatic]
    dsimp only [Visit.change]
    rw [counted, hoptimal, if_pos rfl, dedupe_eq_self_iff.2 hdistinct, if_pos rfl]

theorem document_eq_iff (d : Document) (c : Context) :
    (pass.run d c).document = d ↔ ∀ e ∈ d.elements, IsSettled e := by
  have hfault : (d.walk visit []).2.fault? = none :=
    @Document.walk_invariant _ visit (fun w => w.fault? = none) (fun st e _ => fault_visit st e) _ rfl d
  rw [isWalk.document_eq]
  refine ⟨fun h => areSettled_iff_forall.1 (Document.areSettled_of_walk_eq isTelling hfault h),
    fun h => ?_⟩
  rw [Document.walk_of_areSettled steady [] Counters.isIdle_nil (areSettled_iff_forall.2 h)]

theorem result_eq_nil_iff (d : Document) (c : Context) :
    (pass.run d c).result = .ok [] ↔ ∀ e ∈ d.elements, IsSettled e := by
  refine ⟨fun h => (isIdleOn_iff d c).1 ⟨[], h, Counters.isIdle_nil⟩, fun h => ?_⟩
  rw [isWalk.result_eq,
    Document.walk_of_areSettled steady [] Counters.isIdle_nil (areSettled_iff_forall.2 h),
    endState_eq_self fun e he => state_visit_of_settled (h e he)]
  rfl

theorem settled_run_iff (d : Document) (c : Context) :
    (∀ e ∈ (pass.run d c).document.elements, IsSettled e) ↔
      ∀ e ∈ d.elements, ¬ HasSpareSquare e.attributes.classes := by
  refine ((optimizes_run d c).forall_elements_iff (p := fun as => ¬ HasSpareSquare as.classes)
    (q := fun bs => AreOptimal bs.classes) fun as bs h => ?_).symm
  rw [h.classes]
  exact areOptimal_optimized_iff.symm

/-- After one run no element has a square to spare. -/
theorem no_spare_run (d : Document) (c : Context) :
    ∀ e ∈ (pass.run d c).document.elements, ¬ HasSpareSquare e.attributes.classes := by
  refine ((optimizes_run d c).forall_elements_iff (p := fun _ => True)
    (q := fun bs => ¬ HasSpareSquare bs.classes) fun as bs h => ?_).1 fun _ _ => trivial
  rw [h.classes]
  exact iff_of_true trivial not_hasSpareSquare_optimized

/-- A second run changes nothing, and counts nothing, exactly if no element had a square to spare.  A
third run never does. -/
theorem optimized_iff_no_spare (d : Document) (c : Context) :
    let once := (pass.run d c).document
    let twice := (pass.run once c).document
    ((pass.run once c).result = .ok [] ↔ ∀ e ∈ d.elements, ¬ HasSpareSquare e.attributes.classes) ∧
      (twice = once ↔ ∀ e ∈ d.elements, ¬ HasSpareSquare e.attributes.classes) ∧
      (pass.run twice c).result = .ok [] ∧ (pass.run twice c).document = twice := by
  intro once twice
  have hafter := settled_run_iff d c
  have htwice : ∀ e ∈ twice.elements, IsSettled e := (settled_run_iff once c).2 (no_spare_run d c)
  exact ⟨(result_eq_nil_iff once c).trans hafter, (document_eq_iff once c).trans hafter,
    (result_eq_nil_iff twice c).2 htwice, (document_eq_iff twice c).2 htwice⟩

/-- A square that is written twice. -/
def doubleSquare : Document :=
  ⟨[.markup ⟨"p", [⟨"className", .text "w-6 w-6 h-6 h-6"⟩], []⟩]⟩

/-- The first run leaves a width and a height, which the second run merges. -/
theorem doubleSquare_not_optimized :
    let once := (pass.run doubleSquare (.new .empty none)).document
    (pass.run once (.new .empty none)).result ≠ .ok [] ∧
      (pass.run once (.new .empty none)).document ≠ once := by
  intro once
  rw [Ne, Ne, result_eq_nil_iff, document_eq_iff, and_self]
  have hclasses : ¬ AreOptimal ["w-6", "size-6", "h-6"] := by decide
  exact fun h => hclasses (h _ List.mem_cons_self)

end ClassOptimizer

end MarkupTidy
