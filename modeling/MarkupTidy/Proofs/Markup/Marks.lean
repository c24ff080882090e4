import MarkupTidy.Proofs.Markup.Reading

/-! # What a scan has found

A scan finds code, tags, texts and expressions one after the other, and never takes back what it
has found.  So two documents that agree but for texts that display nothing were found alike, from
the first mark on.

* `Mark`, `Document.marks`, `Progress.marks`: what was found, in order, texts that display nothing
  left out.
* `Scan.marks_prefix`: a scan only adds to what was found.
* `Progress.Expects`: a scan goes on from here and finds the given marks. -/

namespace MarkupTidy

open MarkupTidy.Markup MarkupTidy.Text

/-- Something found in a source. -/
inductive Mark where
  | code (source : String)
  | opened (tag : String) (attributes : Attributes)
  | text (value : String)
  | expression (source : String)
  | closed

/-- Whether a mark is that of a text. -/
def Mark.isText : Mark → Bool
  | .text _ => true
  | _ => false

mutual
/-- What is found in an element. -/
def Element.marks : Element → List Mark
  | ⟨tag, attributes, children⟩ => .opened tag attributes :: (Node.marksAll children ++ [.closed])

/-- What is found in nodes. -/
def Node.marksAll : List Node → List Mark
  | [] => []
  | .text value :: rest =>
    if isBlankText value then Node.marksAll rest else .text value :: Node.marksAll rest
  | .expression source :: rest => .expression source :: Node.marksAll rest
  | .element e :: rest => e.marks ++ Node.marksAll rest
end

/-- What is found in a segment. -/
def Segment.marks : Segment → List Mark
  | .code source => [.code source]
  | .markup root => root.marks

/-- What is found in a document. -/
def Document.marks (d : Document) : List Mark :=
  d.segments.flatMap Segment.marks

/-- What has been found in an open element. -/
def Frame.marks (f : Frame) : List Mark :=
  .opened f.tag f.attributes :: Node.marksAll f.content.reverse

/-- What a scan has found so far. -/
def Progress.marks (p : Progress) : List Mark :=
  p.segments.reverse.flatMap Segment.marks ++ p.frames.reverse.flatMap Frame.marks

/-! ### Texts that display nothing -/

mutual
theorem Element.marks_dropBlank : (e : Element) → e.dropBlank.marks = e.marks
  | ⟨tag, attributes, children⟩ => by
    rw [Element.dropBlank, Element.marks, Element.marks, Node.marksAll_dropBlankAll children]

theorem Node.marksAll_dropBlankAll : (ns : List Node) →
    Node.marksAll (Node.dropBlankAll ns) = Node.marksAll ns
  | [] => rfl
  | .text value :: rest => by
    rw [Node.dropBlankAll, Node.marksAll]
    split
    · exact Node.marksAll_dropBlankAll rest
    · rename_i hblank
      rw [Node.marksAll, if_neg hblank, Node.marksAll_dropBlankAll rest]
  | .expression source :: rest => by
    rw [Node.dropBlankAll, Node.marksAll, Node.marksAll, Node.marksAll_dropBlankAll rest]
  | .element e :: rest => by
    rw [Node.dropBlankAll, Node.marksAll, Node.marksAll, Element.marks_dropBlank e,
      Node.marksAll_dropBlankAll rest]
end

theorem Element.marks_eq_of_dropBlank {e e' : Element} (h : e'.dropBlank = e.dropBlank) :
    e'.marks = e.marks := by
  rw [← e'.marks_dropBlank, h, e.marks_dropBlank]

theorem Node.marksAll_eq_of_dropBlankAll {ns ms : List Node}
    (h : Node.dropBlankAll ms = Node.dropBlankAll ns) : Node.marksAll ms = Node.marksAll ns := by
  rw [← Node.marksAll_dropBlankAll ms, h, Node.marksAll_dropBlankAll]

/-- Documents that agree but for texts that display nothing have the same marks. -/
theorem Document.marks_eq_of_dropBlank {d d' : Document} (h : d'.dropBlank = d.dropBlank) :
    d'.marks = d.marks := by
  have hdrop : ∀ segments : List Segment,
      (segments.map Segment.dropBlank).flatMap Segment.marks = segments.flatMap Segment.marks := by
    intro segments
    rw [List.flatMap_map]
    congr 1
    funext s
    cases s with
    | code source => rfl
    | markup root => exact root.marks_dropBlank
  rw [marks, marks, ← hdrop, ← hdrop d.segments]
  simp only [dropBlank, Document.mk.injEq] at h
  rw [h]

/-! ### Steps add marks -/

theorem Node.marksAll_append (ns ms : List Node) :
    Node.marksAll (ns ++ ms) = Node.marksAll ns ++ Node.marksAll ms := by
  induction ns with
  | nil => rfl
  | cons n ns ih =>
    cases n with
    | text value =>
      simp only [List.cons_append, Node.marksAll, ih]
      split <;> rfl
    | expression source => simp only [List.cons_append, Node.marksAll, ih]
    | element e => simp only [List.cons_append, Node.marksAll, ih, List.append_assoc]

namespace Progress

section
variable (p : Progress) (f : Frame)

theorem marks_inside : (p.inside f).marks = p.marks ++ f.marks := by
  simp [marks, inside]

theorem marks_inside_pushAll (ns : List Node) :
    (p.inside (f.pushAll ns)).marks = (p.inside f).marks ++ Node.marksAll ns := by
  rw [marks_inside, marks_inside, Frame.marks, Frame.marks, Frame.pushAll, List.reverse_append,
    List.reverse_reverse, Node.marksAll_append]
  simp

theorem marks_inside_push (n : Node) :
    (p.inside (f.push n)).marks = (p.inside f).marks ++ Node.marksAll [n] :=
  marks_inside_pushAll p f [n]

theorem marks_attach (e : Element) : (p.attach e).marks = p.marks ++ e.marks := by
  obtain ⟨_ | ⟨f, outer⟩, segments, closed⟩ := p
  · simp [marks, attach, Segment.marks]
  · have h := marks_inside_push ⟨outer, segments, closed⟩ f (.element e)
    rw [Node.marksAll, Node.marksAll, List.append_nil] at h
    exact h

theorem marks_attach_close : (p.attach f.close).marks = (p.inside f).marks ++ [.closed] := by
  rw [marks_attach, marks_inside, Frame.close, Element.marks, Frame.marks]
  simp

/-- An opening tag is found first of all that its element holds. -/
theorem marks_opened (opening : Opening) : ∃ more,
    (p.opened opening).marks = p.marks ++ .opened opening.tag opening.attributes :: more := by
  unfold opened
  split
  · exact ⟨_, marks_attach p _⟩
  · exact ⟨_, marks_inside p ⟨opening.tag, opening.attributes, []⟩⟩

end

theorem marks_prefix_of_step {p q : Progress} {cs after : List Char}
    (h : p.step cs = .ok (q, after)) : p.marks <+: q.marks := by
  obtain ⟨_ | ⟨inner, outer⟩, segments, closed⟩ := p
  · obtain ⟨rest, opening, _, _, _, rfl⟩ | ⟨_, _, rfl⟩ := step_cases_of_root rfl h
    · obtain ⟨more, hmore⟩ := marks_opened ⟨[], segments, closed⟩ opening
      exact ⟨_, hmore.symm⟩
    · exact ⟨[.code (String.ofList (readCode none cs).1)], by simp [marks, Segment.marks]⟩
  · rw [step_of_frames rfl, stepContent_iff] at h
    cases h with
    | fragmentEnd htag => exact ⟨_, (marks_attach_close ⟨outer, segments, closed⟩ inner).symm⟩
    | elementEnd htag hread =>
      exact ⟨_, (marks_attach_close ⟨outer, segments, _ :: closed⟩ inner).symm⟩
    | @opening _ _ opening hslash hread =>
      obtain ⟨more, hmore⟩ := marks_opened ⟨inner :: outer, segments, closed⟩ opening
      exact ⟨_, hmore.symm⟩
    | expression hread => exact ⟨_, (marks_inside_push ⟨outer, segments, closed⟩ inner _).symm⟩
    | text hne hall hstop =>
      exact ⟨_, (marks_inside_push ⟨outer, segments, closed⟩ inner _).symm⟩

end Progress

/-- A scan only adds to what was found. -/
theorem Scan.marks_prefix {p : Progress} {cs : List Char} {scan : Scan}
    (h : readFrom p cs = .ok scan) : p.marks <+: scan.document.marks := by
  fun_induction readFrom p cs with
  | case1 p hframes =>
    rw [← Except.ok.inj h]
    rw [List.isEmpty_iff] at hframes
    simp [Progress.marks, hframes, ofProgress, Document.marks]
  | case2 => simp at h
  | case3 => simp at h
  | case4 p c rest q after hstep _ ih => exact (Progress.marks_prefix_of_step hstep).trans (ih h)

namespace Progress

/-- From here on a scan succeeds and finds the given marks. -/
def Expects (p : Progress) (cs : List Char) (ms : List Mark) : Prop :=
  ∃ closed scan, Scan.readFrom { p with closed } cs = .ok scan ∧
    scan.document.marks = p.marks ++ ms

section
variable {p q : Progress} {cs rest : List Char} {ms more : List Mark}

/-- What was expected is still expected behind what has been read. -/
theorem Expects.of_reads (h : p.Expects cs (ms ++ more)) (hread : p.Reads cs q rest)
    (hmarks : q.marks = p.marks ++ ms) : q.Expects rest more := by
  obtain ⟨closed, scan, hscan, hfound⟩ := h
  obtain ⟨tags, _, hread⟩ := hread closed
  refine ⟨tags ++ closed, scan, hread.symm.trans hscan, ?_⟩
  rw [hfound, hmarks, List.append_assoc]

end

end Progress

end MarkupTidy
