import MarkupTidy.Markup.Scan
import MarkupTidy.Proofs.Markup.Tag

/-! # The steps of a scan

What one step of a scan can do, said once.

* `Progress.ContentStep`: the steps inside an element, a case each; `Progress.stepContent_iff`.
* `Progress.step_root`, `Progress.step_code`: the two steps outside all elements.
* `Scan.readFrom_of_step`, `Scan.readFrom_cases`: a scan is a step and a scan, or has ended. -/

namespace MarkupTidy

open MarkupTidy.Markup MarkupTidy.Text

namespace Progress

/-- The progress with a child added to the innermost element. -/
def pushed (p : Progress) (inner : Frame) (outer : List Frame) (n : Node) : Progress :=
  { p with frames := inner.push n :: outer }

/-- The progress after the end of the innermost element, with the closing tags that were read. -/
def ended (p : Progress) (inner : Frame) (outer : List Frame) (tags : List ClosedTag) : Progress :=
  { p with frames := outer, closed := tags ++ p.closed }.attach inner.close

/-- The steps among the children of an element: from which text, to which progress, and which
text is left. -/
inductive ContentStep (p : Progress) (inner : Frame) (outer : List Frame) :
    List Char → Progress → List Char → Prop where
  | fragmentEnd {after : List Char} (htag : inner.tag = "") :
      ContentStep p inner outer ('<' :: '/' :: '>' :: after) (p.ended inner outer []) after
  | elementEnd {rest after : List Char} {closing : ClosingName} (htag : inner.tag ≠ "")
      (hread : readClosing rest = .ok (closing, after)) :
      ContentStep p inner outer ('<' :: '/' :: rest)
        (p.ended inner outer [⟨inner.tag, closing⟩]) after
  | opening {rest after : List Char} {opening : Opening} (hslash : rest.head? ≠ some '/')
      (hread : readOpening rest = .ok (opening, after)) :
      ContentStep p inner outer ('<' :: rest) (p.opened opening) after
  | expression {rest source after : List Char}
      (hread : readExpression? rest = some (source, after)) :
      ContentStep p inner outer ('\x7b' :: rest)
        (p.pushed inner outer (.expression (String.ofList source))) after
  | text {value after : List Char} (hne : value ≠ []) (hall : ∀ c ∈ value, isTextChar c = true)
      (hstop : Stops isTextChar after) :
      ContentStep p inner outer (value ++ after)
        (p.pushed inner outer (.text (String.ofList value))) after

section
variable {p q : Progress} {inner : Frame} {outer : List Frame} {cs after : List Char}

theorem stepOpening_eq_ok_iff {rest : List Char} :
    p.stepOpening rest = .ok (q, after) ↔
      ∃ opening, readOpening rest = .ok (opening, after) ∧ q = p.opened opening := by
  unfold stepOpening
  cases readOpening rest with
  | error fault => simp
  | ok found =>
    obtain ⟨opening, after'⟩ := found
    simp only [Except.ok.injEq, Prod.mk.injEq]
    constructor
    · rintro ⟨rfl, rfl⟩
      exact ⟨opening, ⟨rfl, rfl⟩, rfl⟩
    · rintro ⟨_, ⟨rfl, rfl⟩, rfl⟩
      exact ⟨rfl, rfl⟩

namespace ContentStep

theorem of_stepClosing {rest : List Char} (h : p.stepClosing inner outer rest = .ok (q, after)) :
    p.ContentStep inner outer ('<' :: '/' :: rest) q after := by
  unfold stepClosing at h
  split at h
  · rename_i htag
    split at h
    · simp only [Except.ok.injEq, Prod.mk.injEq] at h
      obtain ⟨rfl, rfl⟩ := h
      exact .fragmentEnd htag
    · simp at h
  · rename_i htag
    split at h
    · simp at h
    · rename_i hread
      simp only [Except.ok.injEq, Prod.mk.injEq] at h
      obtain ⟨rfl, rfl⟩ := h
      exact .elementEnd htag hread

theorem of_textChar {c : Char} (hc : isTextChar c = true) (rest : List Char) :
    p.ContentStep inner outer (c :: rest)
      (p.pushed inner outer (.text (String.ofList (c :: rest.takeWhile isTextChar))))
      (rest.dropWhile isTextChar) := by
  have hcs : c :: rest = c :: rest.takeWhile isTextChar ++ rest.dropWhile isTextChar := by
    rw [List.cons_append, List.takeWhile_append_dropWhile]
  have hall : ∀ d ∈ c :: rest.takeWhile isTextChar, isTextChar d = true :=
    List.forall_mem_cons.2 ⟨hc, forall_mem_takeWhile rest⟩
  have hstep : p.ContentStep inner outer (c :: rest.takeWhile isTextChar ++ rest.dropWhile isTextChar)
      _ _ := .text (List.cons_ne_nil _ _) hall (stops_dropWhile rest)
  rwa [← hcs] at hstep

theorem of_stepContent (h : p.stepContent inner outer cs = .ok (q, after)) :
    p.ContentStep inner outer cs q after := by
  unfold stepContent at h
  split at h
  · simp at h
  · exact .of_stepClosing h
  · rename_i rest hslash
    obtain ⟨opening, hread, rfl⟩ := stepOpening_eq_ok_iff.1 h
    refine .opening (fun hhead => ?_) hread
    obtain ⟨tail, rfl⟩ := List.head?_eq_some_iff.1 hhead
    exact hslash tail rfl
  · split at h
    · simp at h
    · rename_i hread
      simp only [Except.ok.injEq, Prod.mk.injEq] at h
      obtain ⟨rfl, rfl⟩ := h
      exact .expression hread
  · simp at h
  · rename_i c rest _ hopen hbrace hclose
    simp only [Except.ok.injEq, Prod.mk.injEq] at h
    obtain ⟨rfl, rfl⟩ := h
    refine .of_textChar ?_ rest
    simp only [isTextChar, Bool.and_eq_true, bne_iff_ne]
    exact ⟨⟨hopen, hbrace⟩, hclose⟩

theorem stepContent (h : p.ContentStep inner outer cs q after) :
    p.stepContent inner outer cs = .ok (q, after) := by
  cases h with
  | fragmentEnd htag => simp only [Progress.stepContent, stepClosing, if_pos htag]; rfl
  | elementEnd htag hread =>
    simp only [Progress.stepContent, stepClosing, if_neg htag, hread]
    rfl
  | @opening rest _ opening hslash hread =>
    have hstep : p.stepOpening rest = .ok (p.opened opening, after) :=
      stepOpening_eq_ok_iff.2 ⟨opening, hread, rfl⟩
    cases rest with
    | nil => exact hstep
    | cons c rest =>
      have hc : c ≠ '/' := by simpa using hslash
      rw [Progress.stepContent]
      · exact hstep
      · rintro _ ⟨⟩
        exact hc rfl
  | expression hread => simp only [Progress.stepContent, hread]; rfl
  | @text value _ hne hall hstop =>
    cases value with
    | nil => exact absurd rfl hne
    | cons c value =>
      have hc := hall c List.mem_cons_self
      have htail : ∀ d ∈ value, isTextChar d = true := fun d hd => hall d (List.mem_cons_of_mem c hd)
      simp only [isTextChar, Bool.and_eq_true, bne_iff_ne] at hc
      rw [List.cons_append, Progress.stepContent]
      · rw [takeWhile_append_of_stops htail hstop, dropWhile_append_of_stops htail hstop]
        rfl
      · intro _ he _
        exact hc.1.1 he
      · exact hc.1.1
      · exact hc.1.2
      · exact hc.2

end ContentStep

/-- A step among children is one of the listed ones, and each of them is a step. -/
theorem stepContent_iff : p.stepContent inner outer cs = .ok (q, after) ↔
    p.ContentStep inner outer cs q after :=
  ⟨ContentStep.of_stepContent, ContentStep.stepContent⟩

/-- Outside all elements, an opening tag is read where markup opens. -/
theorem step_root {rest : List Char} {opening : Opening} (hframes : p.frames = [])
    (hopen : opensMarkup none ('<' :: rest) = true)
    (hread : readOpening rest = .ok (opening, after)) :
    p.step ('<' :: rest) = .ok (p.opened opening, after) := by
  simp only [step, hframes, stepCode, if_pos hopen, List.tail_cons]
  exact stepOpening_eq_ok_iff.2 ⟨opening, hread, rfl⟩

/-- Outside all elements, code is read where no markup opens. -/
theorem step_code (hframes : p.frames = []) (hopen : opensMarkup none cs = false) :
    p.step cs = .ok ({ p with segments := .code (String.ofList (readCode none cs).1) :: p.segments },
      (readCode none cs).2) := by
  simp only [step, hframes, stepCode, hopen, if_neg Bool.false_ne_true]

theorem exists_of_opensMarkup {before : Option Char} (h : opensMarkup before cs = true) :
    ∃ c rest, cs = '<' :: c :: rest ∧ (c.isAlpha || c == '>') = true := by
  unfold opensMarkup at h
  split at h
  · rename_i c rest
    exact ⟨c, rest, rfl, (Bool.and_eq_true_iff.1 h).1⟩
  · simp at h

/-- Outside all elements, a step reads an opening tag or code. -/
theorem step_cases_of_root (hframes : p.frames = []) (h : p.step cs = .ok (q, after)) :
    (∃ rest opening, cs = '<' :: rest ∧ opensMarkup none cs = true ∧
      readOpening rest = .ok (opening, after) ∧ q = p.opened opening) ∨
    (opensMarkup none cs = false ∧ readCode none cs = ((readCode none cs).1, after) ∧
      q = { p with segments := .code (String.ofList (readCode none cs).1) :: p.segments }) := by
  cases hopen : opensMarkup none cs with
  | true =>
    obtain ⟨c, rest, rfl, _⟩ := exists_of_opensMarkup hopen
    simp only [step, hframes, stepCode, if_pos hopen, List.tail_cons] at h
    obtain ⟨opening, hread, rfl⟩ := stepOpening_eq_ok_iff.1 h
    exact Or.inl ⟨c :: rest, opening, rfl, rfl, hread, rfl⟩
  | false =>
    rw [step_code hframes hopen, Except.ok.injEq, Prod.mk.injEq] at h
    obtain ⟨rfl, rfl⟩ := h
    exact Or.inr ⟨rfl, rfl, rfl⟩

theorem step_of_frames {rest : List Char} (hframes : p.frames = inner :: outer) :
    p.step rest = p.stepContent inner outer rest := by
  simp only [step, hframes]

end

end Progress

namespace Scan

theorem readFrom_of_step {p q : Progress} {cs after : List Char} (hne : cs ≠ [])
    (h : p.step cs = .ok (q, after)) : readFrom p cs = readFrom q after := by
  cases cs with
  | nil => exact absurd rfl hne
  | cons c rest =>
    rw [readFrom.eq_def]
    dsimp only
    split
    · rename_i hstep
      rw [h] at hstep
      simp at hstep
    · rename_i q' after' hstep
      rw [h, Except.ok.injEq, Prod.mk.injEq] at hstep
      rw [hstep.1, hstep.2]

/-- A scan that succeeds is at its end or goes on after a step. -/
theorem readFrom_cases {p : Progress} {cs : List Char} {scan : Scan}
    (h : readFrom p cs = .ok scan) :
    (cs = [] ∧ p.frames = [] ∧ scan = ofProgress p) ∨
    (cs ≠ [] ∧ ∃ q after, p.step cs = .ok (q, after) ∧ readFrom q after = .ok scan) := by
  cases cs with
  | nil =>
    rw [readFrom.eq_def] at h
    dsimp only at h
    split at h
    · rename_i hframes
      exact Or.inl ⟨rfl, List.isEmpty_iff.1 hframes, (Except.ok.inj h).symm⟩
    · simp at h
  | cons c rest =>
    refine Or.inr ⟨List.cons_ne_nil c rest, ?_⟩
    rw [readFrom.eq_def] at h
    dsimp only at h
    split at h
    · simp at h
    · rename_i q after hstep
      exact ⟨q, after, hstep, h⟩

theorem readFrom_nil {p : Progress} (h : p.frames = []) : readFrom p [] = .ok (ofProgress p) := by
  rw [readFrom.eq_def]
  simp [h]

/-- Inside an element, a scan that succeeds goes on after a step. -/
theorem exists_contentStep {p : Progress} {inner : Frame} {outer : List Frame} {cs : List Char}
    {scan : Scan} (hframes : p.frames = inner :: outer) (h : readFrom p cs = .ok scan) :
    ∃ q after, p.ContentStep inner outer cs q after ∧ after.length < cs.length ∧
      readFrom q after = .ok scan := by
  obtain ⟨_, hnil, _⟩ | ⟨hne, q, after, hstep, hread⟩ := readFrom_cases h
  · rw [hframes] at hnil
    simp at hnil
  · refine ⟨q, after, ?_, Progress.length_lt_of_step hne hstep, hread⟩
    rw [Progress.step_of_frames hframes] at hstep
    exact Progress.ContentStep.of_stepContent hstep

theorem readFrom_of_contentStep {p q : Progress} {inner : Frame} {outer : List Frame}
    {cs after : List Char} (hframes : p.frames = inner :: outer)
    (h : p.ContentStep inner outer cs q after) : readFrom p cs = readFrom q after := by
  have hne : cs ≠ [] := by
    rintro rfl
    have hstep := h.stepContent
    simp [Progress.stepContent] at hstep
  refine readFrom_of_step hne ?_
  rw [Progress.step_of_frames hframes]
  exact h.stepContent

end Scan

end MarkupTidy
