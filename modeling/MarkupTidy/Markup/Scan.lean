import MarkupTidy.Markup.Tag

/-! # Scanning a component module

One walk over the source with a stack of the elements that are still open.  Outside all elements
the source is code; inside one it is text, expressions and tags.

* `Progress`: what has been read so far; `Progress.step` reads one more piece.
* `Scan.read`: the segments of a source, and the closing tags of its elements in the order in
  which the elements end.  Whether opening and closing names agree is not decided here. -/

namespace MarkupTidy

open MarkupTidy.Markup MarkupTidy.Text

/-- An element that is still open: its children come last first. -/
structure Frame where
  tag : String
  attributes : Attributes
  content : List Node

/-- The element that a frame becomes when it is closed. -/
def Frame.close (f : Frame) : Element :=
  ⟨f.tag, f.attributes, f.content.reverse⟩

/-- The frame with one more child. -/
def Frame.push (f : Frame) (n : Node) : Frame :=
  { f with content := n :: f.content }

/-- The two names of an element with a closing tag. -/
structure ClosedTag where
  opening : String
  closing : ClosingName
deriving DecidableEq, Repr

/-- Whether the two names agree. -/
def ClosedTag.agrees (t : ClosedTag) : Bool :=
  t.opening = t.closing.name

/-- What has been read of a source: the open elements, innermost first, and the finished segments
and closing tags, last first. -/
structure Progress where
  frames : List Frame
  segments : List Segment
  closed : List ClosedTag

namespace Progress

/-- Nothing has been read. -/
def start : Progress := ⟨[], [], []⟩

/-- Adds a finished element where it belongs. -/
def attach (p : Progress) (e : Element) : Progress :=
  match p.frames with
  | [] => { p with segments := .markup e :: p.segments }
  | f :: outer => { p with frames := f.push (.element e) :: outer }

/-- Adds an opening tag. -/
def opened (p : Progress) (opening : Opening) : Progress :=
  if opening.closed then p.attach ⟨opening.tag, opening.attributes, []⟩
  else { p with frames := ⟨opening.tag, opening.attributes, []⟩ :: p.frames }

/-- Reads an opening tag after its angle bracket. -/
def stepOpening (p : Progress) (rest : List Char) : Except ScanFault (Progress × List Char) :=
  match readOpening rest with
  | .error fault => .error fault
  | .ok (opening, after) => .ok (p.opened opening, after)

/-- Reads code, or the opening tag of a root element. -/
def stepCode (p : Progress) (cs : List Char) : Except ScanFault (Progress × List Char) :=
  if opensMarkup none cs then p.stepOpening cs.tail
  else
    let (code, rest) := readCode none cs
    .ok ({ p with segments := .code (String.ofList code) :: p.segments }, rest)

/-- Reads the closing tag of the innermost element after its slash; a fragment has no name. -/
def stepClosing (p : Progress) (inner : Frame) (outer : List Frame) (rest : List Char) :
    Except ScanFault (Progress × List Char) :=
  if inner.tag = "" then
    match rest with
    | '>' :: after => .ok ({ p with frames := outer }.attach inner.close, after)
    | _ => .error ⟨.fragmentNotClosed, rest.length + 2⟩
  else
    match readClosing rest with
    | .error fault => .error fault
    | .ok (closing, after) =>
      let closed := ⟨inner.tag, closing⟩ :: p.closed
      .ok ({ p with frames := outer, closed }.attach inner.close, after)

/-- A character of a text child. -/
def isTextChar (c : Char) : Bool :=
  c != '<' && c != '\x7b' && c != '\x7d'

/-- Reads one child of the innermost element, or its closing tag. -/
def stepContent (p : Progress) (inner : Frame) (outer : List Frame) (cs : List Char) :
    Except ScanFault (Progress × List Char) :=
  match cs with
  | [] => .error ⟨.unexpectedEnd, 0⟩
  | '<' :: '/' :: rest => p.stepClosing inner outer rest
  | '<' :: rest => p.stepOpening rest
  | '\x7b' :: rest =>
    match readExpression? rest with
    | none => .error ⟨.unterminatedExpression, rest.length + 1⟩
    | some (source, after) =>
      .ok ({ p with frames := inner.push (.expression (String.ofList source)) :: outer }, after)
  | '\x7d' :: rest => .error ⟨.strayBrace, rest.length + 1⟩
  | c :: rest =>
    .ok ({ p with
        frames := inner.push (.text (String.ofList (c :: rest.takeWhile isTextChar))) :: outer },
      rest.dropWhile isTextChar)

/-- Reads one more piece of the source. -/
def step (p : Progress) (cs : List Char) : Except ScanFault (Progress × List Char) :=
  match p.frames with
  | [] => p.stepCode cs
  | inner :: outer => p.stepContent inner outer cs

theorem length_lt_of_stepOpening {p q : Progress} {cs rest : List Char}
    (h : p.stepOpening cs = .ok (q, rest)) : rest.length < cs.length := by
  unfold stepOpening at h
  split at h
  · simp at h
  · rename_i ho
    simp only [Except.ok.injEq, Prod.mk.injEq] at h
    rw [← h.2]
    exact length_lt_of_readOpening ho

theorem length_lt_of_stepClosing {p q : Progress} {inner : Frame} {outer : List Frame}
    {cs rest : List Char} (h : p.stepClosing inner outer cs = .ok (q, rest)) :
    rest.length < cs.length := by
  unfold stepClosing at h
  split at h
  · split at h
    · simp only [Except.ok.injEq, Prod.mk.injEq] at h
      simp [← h.2]
    · simp at h
  · split at h
    · simp at h
    · rename_i hc
      simp only [Except.ok.injEq, Prod.mk.injEq] at h
      rw [← h.2]
      exact length_lt_of_readClosing hc

theorem length_lt_of_stepContent {p q : Progress} {inner : Frame} {outer : List Frame}
    {cs rest : List Char} (h : p.stepContent inner outer cs = .ok (q, rest)) :
    rest.length < cs.length := by
  unfold stepContent at h
  split at h
  · simp at h
  · have := length_lt_of_stepClosing h
    simp only [List.length_cons]
    omega
  · have := length_lt_of_stepOpening h
    simp only [List.length_cons]
    omega
  · split at h
    · simp at h
    · rename_i hx
      have := readExpression?_length_lt hx
      simp only [Except.ok.injEq, Prod.mk.injEq] at h
      rw [← h.2]
      simp only [List.length_cons]
      omega
  · simp at h
  · rename_i c tail _ _ _ _
    have := (List.dropWhile_suffix isTextChar (l := tail)).length_le
    simp only [Except.ok.injEq, Prod.mk.injEq] at h
    rw [← h.2]
    simp only [List.length_cons]
    omega

/-- Each step leaves less than it was given. -/
theorem length_lt_of_step {p q : Progress} {cs rest : List Char} (hne : cs ≠ [])
    (h : p.step cs = .ok (q, rest)) : rest.length < cs.length := by
  unfold step at h
  split at h
  · unfold stepCode at h
    split at h
    · have := length_lt_of_stepOpening h
      simp only [List.length_tail] at this
      omega
    · rename_i hopen
      simp only [Except.ok.injEq, Prod.mk.injEq] at h
      rw [← h.2]
      exact readCode_length_lt hne (by simpa using hopen)
  · exact length_lt_of_stepContent h

end Progress

/-- The segments of a source and the closing tags of its elements, in the order in which the
elements end. -/
structure Scan where
  document : Document
  closed : List ClosedTag

namespace Scan

/-- What a finished walk has read. -/
def ofProgress (p : Progress) : Scan :=
  ⟨⟨p.segments.reverse⟩, p.closed.reverse⟩

/-- Goes on with a walk to the end of the source, where no element may be open. -/
def readFrom (p : Progress) (cs : List Char) : Except ScanFault Scan :=
  match cs with
  | [] => if p.frames.isEmpty then .ok (ofProgress p) else .error ⟨.unexpectedEnd, 0⟩
  | c :: rest =>
    match h : p.step (c :: rest) with
    | .error fault => .error fault
    | .ok (q, after) =>
      have := Progress.length_lt_of_step (by simp) h
      readFrom q after
termination_by cs.length
decreasing_by all_goals (simp only [List.length_cons] at *; omega)

/-- Scans a whole source. -/
def read (cs : List Char) : Except ScanFault Scan :=
  readFrom Progress.start cs

end Scan

end MarkupTidy
