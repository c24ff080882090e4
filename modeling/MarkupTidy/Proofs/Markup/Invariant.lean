import MarkupTidy.Proofs.Markup.Reading
import MarkupTidy.Proofs.Markup.Tiling

/-! # What is read can be written

Every step of a scan keeps the finished and the open elements such that they can be written, texts
and code apart from each other.

* `isWritten_of_readAttributes`, `isWritten_of_readOpening`: what stands in a tag.
* `Progress.IsWritten`: the invariant; `Progress.IsWritten.step`, `Scan.isWritten_of_readFrom`.
* `Document.areWritten_of_read`: the segments of a source that is read. -/

namespace MarkupTidy

open MarkupTidy.Markup MarkupTidy.Text

namespace Markup

theorem not_mem_of_readQuotedValue? {cs value after : List Char}
    (h : readQuotedValue? cs = some (value, after)) : '"' ∉ value ∨ '\'' ∉ value := by
  cases cs with
  | nil => simp [readQuotedValue?] at h
  | cons q tail =>
    rw [readQuotedValue?] at h
    split at h
    · rename_i hquote
      split at h
      · simp at h
      · simp only [Option.some.injEq, Prod.mk.injEq] at h
        have hmem : q ∉ value := by
          intro hmem
          rw [← h.1] at hmem
          have := forall_mem_takeWhile (p := fun c => decide (c ≠ q)) tail q hmem
          simp at this
        simp only [Bool.or_eq_true, decide_eq_true_eq] at hquote
        obtain rfl | rfl := hquote
        · exact Or.inl hmem
        · exact Or.inr hmem
    · simp at h

theorem isWritten_of_readValue {name : String} {cs after : List Char} {value : AttributeValue}
    (hname : IsName name) (h : readValue name cs = .ok (value, after)) :
    Attribute.IsWritten ⟨name, value⟩ := by
  obtain ⟨_, rfl, _⟩ | ⟨_, _, source, _, _, _, rfl⟩ | ⟨_, inside, _, hread, rfl⟩ := readValue_cases h
  · exact hname
  · unfold expressionValue
    split
    · cases hstyle : Style.read? source with
      | some s => exact trivial
      | none =>
        refine Or.inr ⟨hname, fun _ => ?_⟩
        rw [String.toList_ofList]
        exact hstyle
    · rename_i hne
      exact Or.inr ⟨hname, fun heq => absurd heq hne⟩
  · refine ⟨hname, ?_⟩
    rw [String.toList_ofList]
    exact not_mem_of_readQuotedValue? hread

theorem isWritten_of_readAttributes {cs rest : List Char} {attributes : Attributes} {closed : Bool}
    (h : readAttributes cs = .ok (attributes, closed, rest)) : ∀ a ∈ attributes, a.IsWritten := by
  refine readAttributes_induction (motive := fun _ attributes => ∀ a ∈ attributes, a.IsWritten)
    ?selfEnd ?ending ?spread ?named h
  case selfEnd | ending => exact fun _ _ _ => List.forall_mem_nil _
  case spread => exact fun _ _ _ _ _ _ _ ih => List.forall_mem_cons.2 ⟨Or.inl rfl, ih⟩
  case named =>
    exact fun _ _ _ _ _ _ hname hvalue ih =>
      List.forall_mem_cons.2 ⟨isWritten_of_readValue (isName_of_read? hname) hvalue, ih⟩

/-- The element that an opening tag alone stands for can be written. -/
theorem isWritten_of_readOpening {cs rest : List Char} {opening : Opening}
    (h : readOpening cs = .ok (opening, rest)) :
    Element.IsWritten ⟨opening.tag, opening.attributes, []⟩ := by
  obtain ⟨_, rfl⟩ | ⟨name, afterName, attributes, closed, hname, hread, rfl⟩ := readOpening_cases h
  · exact ⟨Or.inl ⟨rfl, rfl⟩, List.forall_mem_nil _, trivial⟩
  · exact ⟨Or.inr (isName_of_read? hname), isWritten_of_readAttributes hread, trivial⟩

/-- What opens markup opens a root. -/
theorem opensRoot_of_readOpening {cs rest : List Char} {opening : Opening}
    (hopen : opensMarkup none ('<' :: cs) = true) (h : readOpening cs = .ok (opening, rest)) :
    OpensRoot opening.tag := by
  obtain ⟨_, rfl⟩ | ⟨name, afterName, attributes, closed, hname, hread, rfl⟩ := readOpening_cases h
  · rfl
  · obtain ⟨c, tail, hcs, hc⟩ := Progress.exists_of_opensMarkup hopen
    rw [List.cons.injEq] at hcs
    rw [hcs.2] at hname
    simp only [Bool.or_eq_true, beq_iff_eq] at hc
    obtain halpha | rfl := hc
    · have hstart : isNameStart c = true := by simp [isNameStart, halpha]
      rw [trimLeft_of_stops (stops_cons (isBlank_of_isNameStart hstart)), Name.read?,
        if_pos hstart, Option.some.injEq, Prod.mk.injEq] at hname
      rw [OpensRoot, String.toList_ofList, ← hname.1]
      simp [halpha]
    · rw [trimLeft_of_stops (stops_cons (by decide)), nameRead?_eq_none (by decide)] at hname
      simp at hname

theorem opensMarkup_of_append {before : Option Char} {cs : List Char} (rest : List Char)
    (h : opensMarkup before (cs ++ rest) = false) : opensMarkup before cs = false := by
  unfold opensMarkup at h ⊢
  split
  · simpa using h
  · rfl

end Markup

/-! ### Children -/

theorem Node.textsWritten_concat {ns : List Node} {n : Node} (hns : Node.TextsWritten ns)
    (hn : Node.TextsWritten [n]) (hapart : n.isText = true → ns.getLast?.any Node.isText = false) :
    Node.TextsWritten (ns ++ [n]) := by
  induction ns with
  | nil => exact hn
  | cons m ns ih =>
    have hlast : n.isText = true → ns.getLast?.any Node.isText = false := by
      intro htext
      have h := hapart htext
      cases ns with
      | nil => rfl
      | cons m' ns => exact h
    cases m with
    | text value =>
      obtain ⟨hne, hall, hhead, htail⟩ := hns
      refine ⟨hne, hall, ?_, ih htail hlast⟩
      cases ns with
      | nil =>
        cases htext : n.isText with
        | false => simpa using htext
        | true =>
          have h := hapart htext
          simp [Node.isText] at h
      | cons m' ns => exact hhead
    | expression source => exact ih hns hlast
    | element e => exact ih hns hlast

theorem Node.preorderAll_append (ns ms : List Node) :
    Node.preorderAll (ns ++ ms) = Node.preorderAll ns ++ Node.preorderAll ms := by
  induction ns with
  | nil => rfl
  | cons n ns ih =>
    cases n with
    | text value => exact ih
    | expression source => exact ih
    | element e => simp only [List.cons_append, Node.preorderAll, ih, List.append_assoc]

/-- The open element, were it closed here, could be written. -/
def Frame.IsWritten (f : Frame) : Prop :=
  ∀ x ∈ f.close.preorder, x.IsWritten

/-- The last child of the open element is a text. -/
def Frame.EndsInText (f : Frame) : Prop :=
  f.content.head?.any Node.isText = true

theorem Frame.IsWritten.push {f : Frame} (hf : f.IsWritten) {n : Node}
    (htexts : Node.TextsWritten [n]) (hbelow : ∀ x ∈ Node.preorderAll [n], x.IsWritten)
    (hapart : n.isText = true → ¬f.EndsInText) : (f.push n).IsWritten := by
  rw [IsWritten, close, Element.preorder, List.forall_mem_cons] at hf
  rw [IsWritten, close, Element.preorder, List.forall_mem_cons, Frame.push, List.reverse_cons,
    Node.preorderAll_append, List.forall_mem_append]
  obtain ⟨hhere, hchildren⟩ := hf
  refine ⟨⟨hhere.tag, hhere.attributes, ?_⟩, hchildren, hbelow⟩
  refine Node.textsWritten_concat hhere.texts htexts fun htext => ?_
  rw [List.getLast?_reverse]
  exact Bool.eq_false_iff.2 (hapart htext)

/-! ### Segments -/

/-- A segment that a source can hold. -/
def Segment.IsWritten : Segment → Prop
  | .code source => source ≠ "" ∧ opensMarkup none source.toList = false
  | .markup root => (∀ x ∈ root.preorder, x.IsWritten) ∧ OpensRoot root.tag

/-- Whether a segment is code. -/
def Segment.isCode : Segment → Bool
  | .code _ => true
  | .markup _ => false

/-- Segments that a source can hold; no code is next to other code. -/
def Segment.AreWritten : List Segment → Prop
  | [] => True
  | s :: rest =>
    s.IsWritten ∧ (s.isCode = true → rest.head?.any Segment.isCode = false) ∧ AreWritten rest

/-! ### Steps -/

/-- What has been read so far can be written. -/
structure Progress.IsWritten (p : Progress) : Prop where
  segments : ∀ s ∈ p.segments, s.IsWritten
  frames : ∀ f ∈ p.frames, f.IsWritten
  root : ∀ f, p.frames.getLast? = some f → OpensRoot f.tag

/-- What is left to read goes on with no text where the last child was one. -/
def Progress.StopsText (p : Progress) (cs : List Char) : Prop :=
  ∀ f, p.frames.head? = some f → f.EndsInText → Stops Progress.isTextChar cs

namespace Progress

theorem stopsText_inside {p : Progress} {f : Frame} {cs : List Char}
    (h : f.EndsInText → Stops isTextChar cs) : (p.inside f).StopsText cs := by
  intro g hg htext
  rw [inside, List.head?_cons, Option.some.injEq] at hg
  rw [← hg] at htext
  exact h htext

theorem stopsText_attach (p : Progress) (e : Element) (cs : List Char) :
    (p.attach e).StopsText cs := by
  obtain ⟨_ | ⟨f, outer⟩, segments, closed⟩ := p
  · intro g hg
    simp [attach] at hg
  · refine stopsText_inside (p := ⟨outer, segments, closed⟩) fun htext => ?_
    simp [Frame.EndsInText, Frame.push, Node.isText] at htext

namespace IsWritten

section
variable {p : Progress} {f : Frame}

theorem inside (h : p.IsWritten) (hf : f.IsWritten) (hroot : p.frames = [] → OpensRoot f.tag) :
    (p.inside f).IsWritten := by
  refine ⟨h.segments, List.forall_mem_cons.2 ⟨hf, h.frames⟩, fun g hg => ?_⟩
  cases hframes : p.frames with
  | nil =>
    rw [Progress.inside, hframes, List.getLast?_singleton, Option.some.injEq] at hg
    rw [← hg]
    exact hroot hframes
  | cons g' outer =>
    refine h.root g ?_
    rw [Progress.inside, hframes, List.getLast?_cons_cons] at hg
    rw [hframes]
    exact hg

/-- What an open element stands in can be written, and the element itself. -/
theorem of_inside (h : (p.inside f).IsWritten) :
    p.IsWritten ∧ f.IsWritten ∧ (p.frames = [] → OpensRoot f.tag) := by
  obtain ⟨hf, houter⟩ := List.forall_mem_cons.1 h.frames
  refine ⟨⟨h.segments, houter, fun g hg => h.root g ?_⟩, hf, fun hframes => h.root f ?_⟩
  · rw [Progress.inside, List.getLast?_cons, hg]
    rfl
  · rw [Progress.inside, hframes]
    rfl

theorem attach (h : p.IsWritten) {e : Element} (he : ∀ x ∈ e.preorder, x.IsWritten)
    (hroot : p.frames = [] → OpensRoot e.tag) : (p.attach e).IsWritten := by
  obtain ⟨_ | ⟨f, outer⟩, segments, closed⟩ := p
  · exact ⟨List.forall_mem_cons.2 ⟨⟨he, hroot rfl⟩, h.segments⟩, h.frames, h.root⟩
  · obtain ⟨hp, hf, htag⟩ := of_inside (p := ⟨outer, segments, closed⟩) h
    have hbelow : ∀ x ∈ Node.preorderAll [.element e], x.IsWritten := by
      simpa [Node.preorderAll] using he
    exact hp.inside (hf.push (n := .element e) trivial hbelow
      (fun htext => absurd htext Bool.false_ne_true)) htag

theorem opened (h : p.IsWritten) {opening : Opening} {rest after : List Char}
    (hread : readOpening rest = .ok (opening, after))
    (hroot : p.frames = [] → OpensRoot opening.tag) : (p.opened opening).IsWritten := by
  have hw : ∀ x ∈ Element.preorder ⟨opening.tag, opening.attributes, []⟩, x.IsWritten := by
    intro x hx
    rw [List.mem_singleton.1 hx]
    exact isWritten_of_readOpening hread
  unfold Progress.opened
  split
  · exact h.attach hw hroot
  · exact h.inside (f := ⟨opening.tag, opening.attributes, []⟩) hw hroot

end

end IsWritten

theorem stopsText_opened (p : Progress) (opening : Opening) (cs : List Char) :
    (p.opened opening).StopsText cs := by
  unfold opened
  split
  · exact stopsText_attach p _ cs
  · refine stopsText_inside fun htext => ?_
    simp [Frame.EndsInText] at htext

/-- A step among children keeps what has been read such that it can be written. -/
theorem IsWritten.contentStep {p q : Progress} {inner : Frame} {cs after : List Char}
    (hp : (p.inside inner).IsWritten) (hstop : (p.inside inner).StopsText cs)
    (h : (p.inside inner).ContentStep inner p.frames cs q after) :
    q.IsWritten ∧ q.StopsText after := by
  obtain ⟨houter, hinner, hroot⟩ := hp.of_inside
  cases h with
  | fragmentEnd htag => exact ⟨houter.attach hinner hroot, stopsText_attach p _ _⟩
  | @elementEnd _ _ closing htag hread =>
    have houter' : IsWritten ⟨p.frames, p.segments, ⟨inner.tag, closing⟩ :: p.closed⟩ :=
      ⟨houter.segments, houter.frames, houter.root⟩
    exact ⟨houter'.attach hinner hroot, stopsText_attach _ _ _⟩
  | opening hslash hread =>
    exact ⟨hp.opened hread fun hnil => absurd hnil (List.cons_ne_nil _ _), stopsText_opened _ _ _⟩
  | expression hread =>
    refine ⟨houter.inside (hinner.push (n := .expression _) trivial (List.forall_mem_nil _)
      fun htext => absurd htext Bool.false_ne_true) hroot, stopsText_inside fun htext => ?_⟩
    simp [Frame.EndsInText, Frame.push, Node.isText] at htext
  | @text value _ hne hall hstop' =>
    have hvalue : Node.TextsWritten [.text (String.ofList value)] := by
      refine ⟨fun hempty => hne ?_, ?_, rfl, trivial⟩
      · rw [← String.toList_ofList (l := value), hempty]
        rfl
      · rw [String.toList_ofList]
        exact hall
    -- A text does not follow a text, since the first one took all it could.
    have hapart : ¬inner.EndsInText := by
      intro htext
      obtain ⟨c, tail, rfl⟩ := List.exists_cons_of_ne_nil hne
      have hc := hstop inner rfl htext c rfl
      rw [hall c List.mem_cons_self] at hc
      simp at hc
    exact ⟨houter.inside (hinner.push (n := .text _) hvalue (List.forall_mem_nil _)
      fun _ => hapart) hroot, stopsText_inside fun _ => hstop'⟩

/-- Each step keeps what has been read such that it can be written. -/
theorem IsWritten.step {p q : Progress} {cs after : List Char} (hp : p.IsWritten)
    (hstop : p.StopsText cs) (hne : cs ≠ []) (h : p.step cs = .ok (q, after)) :
    q.IsWritten ∧ q.StopsText after := by
  obtain ⟨_ | ⟨inner, outer⟩, segments, closed⟩ := p
  · obtain ⟨rest, opening, rfl, hopen, hread, rfl⟩ | ⟨hopen, hcode, rfl⟩ :=
      step_cases_of_root rfl h
    · exact ⟨hp.opened hread fun _ => opensRoot_of_readOpening hopen hread,
        stopsText_opened _ _ _⟩
    · have happ := readCode_append none cs
      have hlt := readCode_length_lt hne hopen
      have hsource : (readCode none cs).1 ≠ [] := by
        intro hnil
        rw [hnil, List.nil_append] at happ
        rw [happ] at hlt
        exact absurd hlt (Nat.lt_irrefl _)
      have hsegment : Segment.IsWritten (.code (String.ofList (readCode none cs).1)) := by
        refine ⟨fun hempty => hsource ?_, ?_⟩
        · rw [← String.toList_ofList (l := (readCode none cs).1), hempty]
          rfl
        · have hopen' : opensMarkup none ((readCode none cs).1 ++ (readCode none cs).2) = false := by
            rw [happ]
            exact hopen
          rw [String.toList_ofList]
          exact opensMarkup_of_append _ hopen'
      refine ⟨⟨List.forall_mem_cons.2 ⟨hsegment, hp.segments⟩, hp.frames, hp.root⟩, fun f hf => ?_⟩
      simp at hf
  · rw [step_of_frames rfl, stepContent_iff] at h
    exact IsWritten.contentStep (p := ⟨outer, segments, closed⟩) hp hstop h

end Progress

theorem Scan.isWritten_of_readFrom {p : Progress} {cs : List Char} {scan : Scan}
    (hp : p.IsWritten) (hstop : p.StopsText cs) (h : readFrom p cs = .ok scan) :
    ∀ s ∈ scan.document.segments, s.IsWritten := by
  fun_induction readFrom p cs with
  | case1 p =>
    rw [← Except.ok.inj h]
    intro s hs
    exact hp.segments s (List.mem_reverse.1 hs)
  | case2 => simp at h
  | case3 => simp at h
  | case4 p c rest q after hstep _ ih =>
    obtain ⟨hq, hstop'⟩ := hp.step hstop (List.cons_ne_nil c rest) hstep
    exact ih hq hstop' h

theorem Tiles.areWritten {segments : List Segment} {cs : List Char} (h : Tiles segments cs)
    (hw : ∀ s ∈ segments, s.IsWritten) : Segment.AreWritten segments := by
  induction h with
  | nil => trivial
  | @code span cs rest hne hapart _ ih =>
    obtain ⟨hcode, hrest⟩ := List.forall_mem_cons.1 hw
    refine ⟨hcode, fun _ => ?_, ih hrest⟩
    cases rest with
    | nil => rfl
    | cons s more =>
      cases s with
      | code source => exact absurd rfl (hapart source more)
      | markup root => rfl
  | markup _ _ ih =>
    obtain ⟨hroot, hrest⟩ := List.forall_mem_cons.1 hw
    exact ⟨hroot, fun hcode => absurd hcode Bool.false_ne_true, ih hrest⟩

/-- The segments of a source that is read can be written. -/
theorem Document.areWritten_of_read {source : String} {d : Document} (h : read source = .ok d) :
    Segment.AreWritten d.segments := by
  obtain ⟨scan, hscan, hagree, rfl⟩ := exists_of_read_ok h
  obtain ⟨segments, _, hsegments, _, htiles, _⟩ := Scan.addsTiles rfl hagree hscan
  have hw := Scan.isWritten_of_readFrom (p := .start)
    ⟨List.forall_mem_nil _, List.forall_mem_nil _, fun f hf => by simp [Progress.start] at hf⟩
    (fun f hf => by simp [Progress.start] at hf) hscan
  rw [show scan.document.segments = segments from hsegments] at hw ⊢
  exact htiles.areWritten hw

end MarkupTidy
