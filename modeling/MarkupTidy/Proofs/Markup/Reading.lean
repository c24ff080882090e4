import MarkupTidy.Proofs.Markup.Fault
import MarkupTidy.Proofs.Markup.Layout
import MarkupTidy.Proofs.Markup.Written

/-! # Reading printed markup

A legible printed element is read back as the element with its layout, wherever it stands.

* `Progress.Reads`: a scan gets from one place to another and finds names that agree.
* `Element.IsPrintable`: a whole tree can be written.
* `Element.reads`: the reading of a printed element, with `Node.readsInline` and
  `Node.readsLines` for its children. -/

namespace MarkupTidy

open MarkupTidy.Markup MarkupTidy.Text

namespace Progress

/-- A scan gets from one progress to another by reading a text up to the given rest; the closing
tags on the way agree with their opening tags. -/
def Reads (p : Progress) (cs : List Char) (q : Progress) (rest : List Char) : Prop :=
  ∀ closed, ∃ tags, (∀ t ∈ tags, ClosedTag.agrees t = true) ∧
    Scan.readFrom { p with closed } cs = Scan.readFrom { q with closed := tags ++ closed } rest

/-- The progress inside one more element. -/
def inside (p : Progress) (f : Frame) : Progress :=
  { p with frames := f :: p.frames }

section
variable {p q r : Progress} {f : Frame} {cs rest last : List Char}

theorem Reads.refl (p : Progress) (cs : List Char) : p.Reads cs p cs :=
  fun _ => ⟨[], List.forall_mem_nil _, rfl⟩

theorem Reads.trans (h : p.Reads cs q rest) (h' : q.Reads rest r last) : p.Reads cs r last := by
  intro closed
  obtain ⟨tags, htags, hread⟩ := h closed
  obtain ⟨tags', htags', hread'⟩ := h' (tags ++ closed)
  refine ⟨tags' ++ tags, List.forall_mem_append.2 ⟨htags', htags⟩, ?_⟩
  rw [hread, hread', List.append_assoc]

theorem Reads.of_eq (h : ∀ closed,
    Scan.readFrom { p with closed } cs = Scan.readFrom { q with closed } rest) :
    p.Reads cs q rest :=
  fun closed => ⟨[], List.forall_mem_nil _, h closed⟩

theorem reads_expression {source : String}
    (hread : readExpression? (source.toList ++ '\x7d' :: rest) = some (source.toList, rest)) :
    (p.inside f).Reads (braced source.toList ++ rest) (p.inside (f.push (.expression source)))
      rest := by
  refine Reads.of_eq fun closed => ?_
  have hstep : ContentStep ⟨f :: p.frames, p.segments, closed⟩ f p.frames
      ('\x7b' :: (source.toList ++ '\x7d' :: rest)) _ rest := .expression hread
  rw [String.ofList_toList] at hstep
  rw [braced, List.cons_append, List.append_assoc, List.singleton_append]
  exact Scan.readFrom_of_contentStep rfl hstep

theorem reads_text (value : List Char) (hne : value ≠ [])
    (hall : ∀ c ∈ value, isTextChar c = true) (hstop : Stops isTextChar rest) :
    (p.inside f).Reads (value ++ rest) (p.inside (f.push (.text (String.ofList value)))) rest :=
  Reads.of_eq fun _ => Scan.readFrom_of_contentStep rfl (.text hne hall hstop)

theorem reads_textNode {value : String} (hne : value ≠ "")
    (hall : ∀ c ∈ value.toList, isTextChar c = true) (hstop : Stops isTextChar rest) :
    (p.inside f).Reads (value.toList ++ rest) (p.inside (f.push (.text value))) rest := by
  have hread := reads_text (p := p) (f := f) value.toList
    (fun hnil => hne (String.toList_eq_nil_iff.1 hnil)) hall hstop
  rwa [String.ofList_toList] at hread

/-- The closing tag of the innermost element. -/
theorem reads_closeTag (htag : f.tag = "" ∨ IsName f.tag) (rest : List Char) :
    (p.inside f).Reads (closeTag f.tag ++ rest) (p.attach f.close) rest := by
  intro closed
  have hattach : ∀ tags, { p.attach f.close with closed := tags } =
      Progress.attach ⟨p.frames, p.segments, tags⟩ f.close := by
    intro tags
    obtain ⟨_ | ⟨g, outer⟩, segments, _⟩ := p <;> rfl
  by_cases hfragment : f.tag = ""
  · refine ⟨[], List.forall_mem_nil _, ?_⟩
    rw [closeTag, if_pos hfragment, hattach]
    exact Scan.readFrom_of_contentStep rfl (.fragmentEnd hfragment)
  · obtain ⟨tail, remaining, hcs, hread⟩ :=
      readClosing_closeTag (htag.resolve_left hfragment) rest
    refine ⟨[⟨f.tag, f.tag, remaining⟩], ?_, ?_⟩
    · intro t ht
      rw [List.mem_singleton.1 ht, ClosedTag.agrees, decide_eq_true_eq]
    · rw [hcs, hattach]
      exact Scan.readFrom_of_contentStep rfl (.elementEnd hfragment hread)

end

end Progress

/-- The tag may open a root element: it is empty or begins with a letter. -/
def OpensRoot (tag : String) : Prop :=
  tag.toList.head?.all Char.isAlpha = true

instance (tag : String) : Decidable (OpensRoot tag) :=
  inferInstanceAs (Decidable (_ = _))

/-- Markup opens at a tag that may open a root element. -/
theorem opensMarkup_of_opensRoot {tag : String} (hroot : OpensRoot tag) {c : Char}
    (hhead : tag.toList.head? = some c) (tail : List Char) :
    opensMarkup none ('<' :: c :: tail) = true := by
  rw [OpensRoot, hhead, Option.all_some] at hroot
  simp [opensMarkup, forbidsMarkup, hroot]

namespace Progress

/-- An opening tag, outside all elements or inside one. -/
theorem reads_opening {p : Progress} {opening : Opening} {c : Char} {tail rest : List Char}
    (hslash : c ≠ '/') (hroot : p.frames = [] → opensMarkup none ('<' :: c :: tail) = true)
    (hread : readOpening (c :: tail) = .ok (opening, rest)) :
    p.Reads ('<' :: c :: tail) (p.opened opening) rest := by
  refine Reads.of_eq fun closed => ?_
  have hopened : { p.opened opening with closed } =
      Progress.opened ⟨p.frames, p.segments, closed⟩ opening := by
    obtain ⟨tag, as, selfClosing⟩ := opening
    obtain ⟨_ | ⟨g, outer⟩, segments, _⟩ := p <;> cases selfClosing <;> rfl
  rw [hopened]
  cases hframes : p.frames with
  | nil => exact Scan.readFrom_of_step (List.cons_ne_nil _ _) (step_root rfl (hroot hframes) hread)
  | cons g outer =>
    refine Scan.readFrom_of_contentStep rfl (.opening ?_ hread)
    rwa [List.head?_cons, ne_eq, Option.some.injEq]

theorem reads_openTag {p : Progress} {tag : String} {as : Attributes} {selfClosing : Bool}
    (hroot : p.frames = [] → OpensRoot tag)
    (htag : tag = "" ∧ as = [] ∧ selfClosing = false ∨ IsName tag) (hw : ∀ a ∈ as, a.IsWritten)
    (hplain : ∀ a ∈ as, a.HoldsNoStyle) {rest : List Char}
    (h : Legible (openPassages tag as selfClosing) rest) :
    p.Reads (openTag tag as selfClosing ++ rest) (p.opened ⟨tag, as, selfClosing⟩) rest := by
  obtain ⟨c, tail, hcs, hc, hread⟩ := readOpening_passages htag hw hplain h
  rw [hcs]
  refine reads_opening ?_ (fun hframes => ?_) hread
  · obtain ⟨_, rfl⟩ | ⟨_, hstart⟩ := hc
    · decide
    · exact ne_of_isNameStart hstart (by decide)
  · obtain ⟨_, rfl⟩ | ⟨hhead, _⟩ := hc
    · rfl
    · exact opensMarkup_of_opensRoot (hroot hframes) hhead tail

end Progress

/-! ### Elements -/

/-- The tree can be written: all its elements can, and hold no inline style. -/
def Element.IsPrintable (e : Element) : Prop :=
  ∀ x ∈ e.preorder, x.IsWritten ∧ x.HoldsNoStyle

/-- The trees below nodes can be written. -/
def Node.ArePrintable (ns : List Node) : Prop :=
  ∀ x ∈ Node.preorderAll ns, x.IsWritten ∧ x.HoldsNoStyle

theorem Element.isPrintable_iff {tag : String} {attributes : Attributes} {children : List Node} :
    (Element.mk tag attributes children).IsPrintable ↔
      ((Element.mk tag attributes children).IsWritten ∧
        (Element.mk tag attributes children).HoldsNoStyle) ∧ Node.ArePrintable children := by
  rw [IsPrintable, preorder, List.forall_mem_cons]
  rfl

theorem Node.arePrintable_element {e : Element} {rest : List Node} :
    Node.ArePrintable (.element e :: rest) ↔ e.IsPrintable ∧ Node.ArePrintable rest := by
  rw [ArePrintable, preorderAll, List.forall_mem_append]
  rfl

namespace Frame

/-- The open element with more children. -/
def pushAll (f : Frame) (ns : List Node) : Frame :=
  { f with content := ns.reverse ++ f.content }

theorem pushAll_cons (f : Frame) (n : Node) (ns : List Node) :
    f.pushAll (n :: ns) = (f.push n).pushAll ns := by
  simp [pushAll, push]

theorem pushAll_append (f : Frame) (ns : List Node) (n : Node) :
    f.pushAll (ns ++ [n]) = (f.pushAll ns).push n := by
  simp [pushAll, push]

theorem close_pushAll (tag : String) (attributes : Attributes) (ns : List Node) :
    (Frame.pushAll ⟨tag, attributes, []⟩ ns).close = ⟨tag, attributes, ns⟩ := by
  simp [pushAll, close]

end Frame

theorem isBlank_of_mem_indentAfter {value indent : List Char}
    (h : ∀ c ∈ indent, isBlank c = true) : ∀ c ∈ indentAfter value indent, isBlank c = true := by
  unfold indentAfter
  dsimp only
  split
  · exact h
  · exact forall_mem_takeWhile _

/-- What holds of a space and of the characters of an indentation holds one step further in. -/
theorem forall_mem_indentStep {p : Char → Bool} (hp : p ' ' = true) {indent : List Char}
    (h : ∀ c ∈ indent, p c = true) : ∀ c ∈ indent ++ indentStep, p c = true := by
  refine List.forall_mem_append.2 ⟨h, fun c hc => ?_⟩
  have hspace : c = ' ' := by simpa [indentStep] using hc
  rw [hspace]
  exact hp

theorem exists_openTag (tag : String) (as : Attributes) (selfClosing : Bool) :
    ∃ tail, openTag tag as selfClosing = '<' :: tail := by
  unfold openTag
  split
  · exact ⟨_, rfl⟩
  · exact ⟨_, rfl⟩

theorem Element.exists_print (e : Element) (indent : List Char) :
    ∃ tail, e.print indent = '<' :: tail := by
  obtain ⟨tag, attributes, children⟩ := e
  obtain ⟨tail, htail⟩ := exists_openTag tag attributes false
  rw [Element.print.eq_def]
  dsimp only
  split
  · exact exists_openTag tag attributes true
  · split
    · exact ⟨_, by rw [htail]; rfl⟩
    · split
      · exact ⟨_, by rw [htail]; rfl⟩
      · exact ⟨_, by rw [htail]; rfl⟩

theorem stops_print (e : Element) (indent rest : List Char) :
    Stops Progress.isTextChar (e.print indent ++ rest) := by
  obtain ⟨tail, htail⟩ := e.exists_print indent
  rw [htail]
  exact stops_cons (by decide)

theorem stops_closeTag (tag : String) (rest : List Char) :
    Stops Progress.isTextChar (closeTag tag ++ rest) := by
  unfold closeTag
  split
  · exact stops_cons (by decide)
  · exact stops_cons (by decide)

theorem Node.stops_printInline {ns : List Node} (h : ns.head?.any Node.isText = false)
    (indent : List Char) {rest : List Char} (hstop : Stops Progress.isTextChar rest) :
    Stops Progress.isTextChar (Node.printInline ns indent ++ rest) := by
  cases ns with
  | nil => exact hstop
  | cons n ns =>
    cases n with
    | text value => simp [Node.isText] at h
    | expression source => exact stops_cons (by decide)
    | element e =>
      rw [Node.printInline, List.append_assoc]
      exact stops_print e indent _

/-- The line break in front of a child or a closing tag. -/
theorem Progress.reads_lineBreak {p : Progress} {f : Frame} {indent rest : List Char}
    (hindent : ∀ c ∈ indent, isBlank c = true) (hstop : Stops isTextChar rest) :
    (p.inside f).Reads ('\n' :: (indent ++ rest)) (p.inside (f.push (lineBreak indent))) rest := by
  refine reads_text ('\n' :: indent) (List.cons_ne_nil _ _) (fun c hc => ?_) hstop
  obtain rfl | hc := List.mem_cons.1 hc
  · decide
  · exact isTextChar_of_isBlank (hindent c hc)

namespace Progress

section
variable {p : Progress} {tag : String} {attributes : Attributes} {rest : List Char}

/-- An element is read if its children are read between its two tags. -/
theorem reads_of_children {children printed : List Node} {body : List Char}
    (hroot : p.frames = [] → OpensRoot tag)
    (hw : (Element.mk tag attributes children).IsWritten)
    (hplain : (Element.mk tag attributes children).HoldsNoStyle)
    (hopen : Legible (openPassages tag attributes false) (body ++ (closeTag tag ++ rest)))
    (hbody : (p.inside ⟨tag, attributes, []⟩).Reads (body ++ (closeTag tag ++ rest))
      (p.inside (Frame.pushAll ⟨tag, attributes, []⟩ printed)) (closeTag tag ++ rest)) :
    p.Reads (openTag tag attributes false ++ (body ++ (closeTag tag ++ rest)))
      (p.attach ⟨tag, attributes, printed⟩) rest := by
  have htag : tag = "" ∧ attributes = [] ∧ false = false ∨ IsName tag := by
    obtain ⟨htag, hattributes⟩ | hname := hw.tag
    · exact Or.inl ⟨htag, hattributes, rfl⟩
    · exact Or.inr hname
  have htag' : tag = "" ∨ IsName tag := by
    obtain ⟨htag, _⟩ | hname := hw.tag
    · exact Or.inl htag
    · exact Or.inr hname
  have hopened := reads_openTag hroot htag hw.attributes hplain hopen
  have hclosed := reads_closeTag (p := p) (f := Frame.pushAll ⟨tag, attributes, []⟩ printed)
    htag' rest
  rw [Frame.close_pushAll] at hclosed
  exact (hopened.trans hbody).trans hclosed

end

end Progress

mutual
/-- A legible printed element is read back as the element with its layout. -/
theorem Element.reads : (e : Element) → {indent rest : List Char} → {p : Progress} →
    (p.frames = [] → OpensRoot e.tag) → (∀ c ∈ indent, isBlank c = true) → e.IsPrintable →
    Legible (e.passages indent) rest →
    p.Reads (e.print indent ++ rest) (p.attach (e.laidOut indent)) rest
  | ⟨tag, attributes, children⟩, indent, rest, p, hroot, hindent, hprintable, h => by
    obtain ⟨⟨hw, hplain⟩, hchildren⟩ := Element.isPrintable_iff.1 hprintable
    have hend : Passage.join [.plain (closeTag tag)] ++ rest = closeTag tag ++ rest := by
      rw [Passage.join_cons, Passage.join_nil, List.append_nil, Passage.text]
    obtain ⟨rfl, htag⟩ | htext | ⟨source, rfl⟩ | hlines := Element.layout_cases tag children
    · rw [Element.passages_closed htag] at h
      rw [Element.print_closed htag, Element.laidOut_closed htag]
      have hname := hw.tag.resolve_left fun hfragment => htag hfragment.1
      exact Progress.reads_openTag hroot (Or.inr hname) hw.attributes hplain h
    · rw [Element.passages_inline htext, legible_append, legible_append, Passage.join_append,
        Node.join_inlinePassages, List.append_assoc, hend] at h
      rw [Element.print_inline htext, Element.laidOut_inline htext, List.append_assoc,
        List.append_assoc]
      exact Progress.reads_of_children hroot hw hplain h.1
        (Node.readsInline children hindent hchildren hw.texts (stops_closeTag tag rest) h.2.1)
    · rw [Element.passages_single, legible_append, legible_cons, Passage.join_cons,
        List.append_assoc, hend] at h
      rw [Element.print_single, Element.laidOut_single, List.append_assoc, List.append_assoc]
      exact Progress.reads_of_children hroot hw hplain h.1 (Progress.reads_expression h.2.1)
    · rw [Element.passages_lines hlines, legible_append, legible_append, Passage.join_append,
        Node.join_linePassages, Passage.join_cons, List.append_assoc, List.append_assoc, hend] at h
      rw [Element.print_lines hlines, Element.laidOut_lines hlines]
      have hread := Node.readsLines children (p := p) (f := ⟨tag, attributes, []⟩)
        (forall_mem_indentStep rfl hindent) hchildren hlines.noText h.2.1
      have hbreak := Progress.reads_lineBreak (p := p)
        (f := Frame.pushAll ⟨tag, attributes, []⟩
          (Node.laidLines children (indent ++ indentStep)))
        hindent (stops_closeTag tag rest)
      rw [← Frame.pushAll_append] at hbreak
      have happ : ∀ following, Node.printLines children (indent ++ indentStep) ++
          ('\n' :: (indent ++ following)) =
          (Node.printLines children (indent ++ indentStep) ++ '\n' :: indent) ++ following := by
        simp
      have hbody := hread.trans hbreak
      rw [Passage.text, List.cons_append, happ] at hbody h
      rw [happ, List.append_assoc, List.append_assoc]
      exact Progress.reads_of_children hroot hw hplain h.1 hbody

/-- Children that are written as they were laid out are read back. -/
theorem Node.readsInline : (ns : List Node) → {indent rest : List Char} → {p : Progress} →
    {f : Frame} → (∀ c ∈ indent, isBlank c = true) → Node.ArePrintable ns →
    Node.TextsWritten ns → Stops Progress.isTextChar rest →
    Legible (Node.inlinePassages ns indent) rest →
    (p.inside f).Reads (Node.printInline ns indent ++ rest)
      (p.inside (f.pushAll (Node.laidInline ns indent))) rest
  | [], _, _, _, _, _, _, _, _, _ => Progress.Reads.refl _ _
  | .text value :: ns, indent, rest, p, f, hindent, hprintable, htexts, hstop, h => by
    rw [Node.inlinePassages, legible_plain] at h
    obtain ⟨hne, hall, hhead, htexts⟩ := htexts
    rw [Node.printInline, Node.laidInline, Frame.pushAll_cons, List.append_assoc]
    have hread := Progress.reads_textNode (p := p) (f := f) hne hall
      (Node.stops_printInline hhead (indentAfter value.toList indent) hstop)
    exact hread.trans (Node.readsInline ns (isBlank_of_mem_indentAfter hindent) hprintable htexts
      hstop h)
  | .expression source :: ns, indent, rest, p, f, hindent, hprintable, htexts, hstop, h => by
    rw [Node.inlinePassages, legible_cons, Node.join_inlinePassages] at h
    rw [Node.printInline, Node.laidInline, Frame.pushAll_cons, List.append_assoc]
    exact (Progress.reads_expression h.1).trans
      (Node.readsInline ns hindent hprintable htexts hstop h.2)
  | .element e :: ns, indent, rest, p, f, hindent, hprintable, htexts, hstop, h => by
    rw [Node.inlinePassages, legible_append, Node.join_inlinePassages] at h
    obtain ⟨hprintable, hprintables⟩ := Node.arePrintable_element.1 hprintable
    rw [Node.printInline, Node.laidInline, Frame.pushAll_cons, List.append_assoc]
    have hread := Element.reads e (p := p.inside f) (fun hnil => absurd hnil (List.cons_ne_nil _ _))
      hindent hprintable h.1
    exact hread.trans (Node.readsInline ns hindent hprintables htexts hstop h.2)

/-- Children that are written on a line each are read back with the line breaks before them. -/
theorem Node.readsLines : (ns : List Node) → {indent rest : List Char} → {p : Progress} →
    {f : Frame} → (∀ c ∈ indent, isBlank c = true) → Node.ArePrintable ns →
    ns.any Node.isText = false →
    Legible (Node.linePassages ns indent) rest →
    (p.inside f).Reads (Node.printLines ns indent ++ rest)
      (p.inside (f.pushAll (Node.laidLines ns indent))) rest
  | [], _, _, _, _, _, _, _, _ => Progress.Reads.refl _ _
  | .text value :: ns, _, _, _, _, _, _, htext, _ => by simp [Node.isText] at htext
  | .expression source :: ns, indent, rest, p, f, hindent, hprintable, htext, h => by
    rw [Node.linePassages, legible_cons, legible_cons, Node.join_linePassages] at h
    rw [Node.printLines, Node.laidLines, Frame.pushAll_cons, Frame.pushAll_cons]
    have hstop : Stops Progress.isTextChar
        (braced source.toList ++ (Node.printLines ns indent ++ rest)) := stops_cons (by decide)
    have hbreak := Progress.reads_lineBreak (p := p) (f := f) hindent hstop
    have hread := Progress.reads_expression (p := p) (f := f.push (lineBreak indent)) h.2.1
    have hrest := hread.trans (Node.readsLines ns hindent hprintable
      (by simpa [Node.isText] using htext) h.2.2)
    simpa using hbreak.trans hrest
  | .element e :: ns, indent, rest, p, f, hindent, hprintable, htext, h => by
    rw [Node.linePassages, legible_cons, legible_append, Node.join_linePassages] at h
    obtain ⟨hprintable, hprintables⟩ := Node.arePrintable_element.1 hprintable
    rw [Node.printLines, Node.laidLines, Frame.pushAll_cons, Frame.pushAll_cons]
    have hbreak := Progress.reads_lineBreak (p := p) (f := f) hindent
      (stops_print e indent (Node.printLines ns indent ++ rest))
    have hread := Element.reads e (p := p.inside (f.push (lineBreak indent)))
      (fun hnil => absurd hnil (List.cons_ne_nil _ _)) hindent hprintable h.2.1
    have hrest := hread.trans (Node.readsLines ns hindent hprintables
      (by simpa [Node.isText] using htext) h.2.2)
    simpa using hbreak.trans hrest
end

/-! ### Modules -/

theorem isBlank_of_mem_trailingIndent (code : List Char) :
    ∀ c ∈ trailingIndent code, isBlank c = true := by
  unfold trailingIndent
  dsimp only
  split
  · rename_i hall
    exact List.all_eq_true.1 hall
  · exact List.forall_mem_nil _

theorem Progress.attach_of_root {p : Progress} (hframes : p.frames = []) (e : Element) :
    p.attach e = { p with segments := .markup e :: p.segments } := by
  rw [Progress.attach, hframes]

/-- Legible code is read back. -/
theorem Progress.reads_code {p : Progress} {source : String} {rest : List Char}
    (hframes : p.frames = []) (hne : source.toList ≠ [])
    (hopen : opensMarkup none (source.toList ++ rest) = false)
    (h : (Passage.code source.toList).Legible rest) :
    p.Reads (source.toList ++ rest) { p with segments := .code source :: p.segments } rest := by
  refine Progress.Reads.of_eq fun closed => ?_
  have hstep := Progress.step_code (p := { p with closed }) hframes hopen
  rw [show readCode none (source.toList ++ rest) = (source.toList, rest) from h,
    String.ofList_toList] at hstep
  refine Scan.readFrom_of_step (fun hnil => hne ?_) hstep
  exact (List.append_eq_nil_iff.1 hnil).1

/-- A scan that gets to the end of a source outside all elements reads a document. -/
theorem Document.read_of_reads {cs : List Char} {q : Progress} (h : Progress.start.Reads cs q [])
    (hframes : q.frames = []) :
    Document.read (String.ofList cs) = .ok ⟨q.segments.reverse⟩ := by
  obtain ⟨tags, htags, hread⟩ := h []
  have hscan : Scan.read cs = .ok (Scan.ofProgress { q with closed := tags ++ [] }) := by
    exact hread.trans (Scan.readFrom_nil hframes)
  refine Document.read_of_scan hscan fun t ht => htags t ?_
  rw [Scan.ofProgress, List.append_nil, List.mem_reverse] at ht
  exact ht

end MarkupTidy
