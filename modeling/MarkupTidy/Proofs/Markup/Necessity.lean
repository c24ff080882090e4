import MarkupTidy.Proofs.Markup.Marks

/-! # What is found was legible

Where a scan of printed markup finds what was printed, every passage was legible: an expression
that ends elsewhere is another expression, and a line break that displays something is one text
too many.

* `legible_of_readAttributes`: the attributes of a tag.
* `Element.legible_of_expects`: an element, with `Node.legibleInline_of_expects` and
  `Node.legibleLines_of_expects` for its children. -/

namespace MarkupTidy

open MarkupTidy.Markup MarkupTidy.Text

open Passage (join)

namespace Markup

/-! ### Tags -/

/-- An expression that is read as the one that was printed ends where that one ended. -/
theorem readExpression?_eq_of_eq {source after rest : List Char} {found : List Char}
    (h : readExpression? (source ++ '\x7d' :: rest) = some (found, after)) (heq : found = source) :
    readExpression? (source ++ '\x7d' :: rest) = some (source, rest) := by
  subst heq
  have happ := readExpression?_append h
  rw [List.append_cancel_left_eq, List.cons.injEq] at happ
  rw [h, happ.2]

theorem expressionValue_eq_expression {name source : String} {found : List Char}
    (h : expressionValue name found = .expression source) : found = source.toList := by
  unfold expressionValue at h
  split at h
  · split at h
    · simp at h
    · rw [AttributeValue.expression.injEq] at h
      rw [← h, String.toList_ofList]
  · rw [AttributeValue.expression.injEq] at h
    rw [← h, String.toList_ofList]

/-- An attribute that is read back was legible. -/
theorem legible_of_readAttributes_print {a : Attribute} (hw : a.IsWritten)
    (hplain : a.HoldsNoStyle) {tail rest : List Char} {as : Attributes} {closed : Bool}
    (h : readAttributes (' ' :: (a.print ++ tail)) = .ok (a :: as, closed, rest)) :
    Legible a.passages tail := by
  obtain ⟨name, value⟩ := a
  cases value with
  | flag => exact legible_plain.2 trivial
  | text value => exact legible_plain.2 trivial
  | style s => exact absurd rfl (hplain s)
  | expression source =>
    refine legible_expression_iff.2 ?_
    by_cases hspread : name = ""
    · subst hspread
      have hbrace : trimLeft (' ' :: ((Attribute.mk "" (.expression source)).print ++ tail)) =
          '\x7b' :: (source.toList ++ '\x7d' :: tail) := by
        simp only [Attribute.print, if_true, braced, List.cons_append, List.append_assoc]
        rfl
      obtain ⟨found, after, more, hread, heq⟩ := readAttributes_cases_of_brace hbrace h
      simp only [List.cons.injEq, Attribute.mk.injEq, AttributeValue.expression.injEq] at heq
      exact readExpression?_eq_of_eq hread (by rw [heq.1.2, String.toList_ofList])
    · obtain ⟨hname, _⟩ := hw.resolve_left hspread
      have hprint : (Attribute.mk name (.expression source)).print ++ tail =
          name.toList ++ '=' :: '\x7b' :: (source.toList ++ '\x7d' :: tail) := by
        simp [Attribute.print, hspread, braced]
      have hread : Name.read? (trimLeft (' ' :: (name.toList ++
          '=' :: '\x7b' :: (source.toList ++ '\x7d' :: tail)))) =
          some (name.toList, '=' :: '\x7b' :: (source.toList ++ '\x7d' :: tail)) := by
        rw [trimLeft_space]
        exact nameRead?_append hname (stops_cons (by decide))
      rw [hprint] at h
      obtain ⟨value, after, more, hvalue, heq⟩ := readAttributes_cases_of_name hread h
      obtain ⟨found, hexpression, hfound⟩ := readValue_cases_of_brace rfl rfl hvalue
      simp only [List.cons.injEq, Attribute.mk.injEq] at heq
      exact readExpression?_eq_of_eq hexpression
        (expressionValue_eq_expression (hfound.symm.trans heq.1.2.symm))

/-- Attributes that are read back were legible. -/
theorem legible_of_readAttributes {as : Attributes} (hw : ∀ a ∈ as, a.IsWritten)
    (hplain : ∀ a ∈ as, a.HoldsNoStyle) {selfClosing closed : Bool} {following rest : List Char}
    (h : readAttributes (join (as.passages selfClosing) ++ following) = .ok (as, closed, rest)) :
    Legible (as.passages selfClosing) following := by
  induction as generalizing closed rest with
  | nil =>
    rw [Attributes.passages, legible_plain]
    trivial
  | cons a as ih =>
    obtain ⟨hwa, hw⟩ := List.forall_mem_cons.1 hw
    obtain ⟨hplaina, hplain⟩ := List.forall_mem_cons.1 hplain
    rw [Attributes.passages, Passage.join_cons, Passage.join_append, Attribute.join_passages,
      Passage.text, List.singleton_append, List.cons_append, List.append_assoc] at h
    have ha := legible_of_readAttributes_print hwa hplaina h
    have hbehind := Attributes.isBehind_passages hw hplain selfClosing following
    rw [readAttributes_print hwa hplaina hbehind ha] at h
    rw [Attributes.passages, legible_plain, legible_append]
    refine ⟨ha, ?_⟩
    cases hread : readAttributes (join (Attributes.passages as selfClosing) ++ following) with
    | error fault =>
      rw [hread] at h
      simp [Except.map] at h
    | ok read =>
      obtain ⟨as', closed', rest'⟩ := read
      rw [hread] at h
      simp only [Except.map, consAttribute, Except.ok.injEq, Prod.mk.injEq, List.cons.injEq,
        true_and] at h
      rw [h.1] at hread
      exact ih hw hplain hread

end Markup

/-! ### Steps -/

namespace Scan

/-- Where a scan succeeds, an angle bracket in front of no slash opens a tag. -/
theorem exists_opened_of_readFrom {p : Progress} {c : Char} {rest : List Char} {scan : Scan}
    (hslash : c ≠ '/') (hroot : p.frames = [] → opensMarkup none ('<' :: c :: rest) = true)
    (h : readFrom p ('<' :: c :: rest) = .ok scan) :
    ∃ opening after, readOpening (c :: rest) = .ok (opening, after) ∧
      readFrom (p.opened opening) after = .ok scan := by
  obtain ⟨hnil, _⟩ | ⟨_, q, after, hstep, hread⟩ := readFrom_cases h
  · simp at hnil
  cases hframes : p.frames with
  | nil =>
    obtain ⟨rest', opening, heq, _, hopening, rfl⟩ | ⟨hcode, _⟩ :=
      Progress.step_cases_of_root hframes hstep
    · rw [List.cons.injEq] at heq
      rw [← heq.2] at hopening
      exact ⟨opening, after, hopening, hread⟩
    · rw [hroot hframes] at hcode
      simp at hcode
  | cons inner outer =>
    rw [Progress.step_of_frames hframes, Progress.stepContent_iff] at hstep
    generalize hcs : '<' :: c :: rest = cs at hstep
    cases hstep with
    | fragmentEnd htag =>
      simp only [List.cons.injEq] at hcs
      exact absurd hcs.2.1 hslash
    | elementEnd htag hclosing =>
      simp only [List.cons.injEq] at hcs
      exact absurd hcs.2.1 hslash
    | @opening _ _ opening _ hopening =>
      rw [List.cons.injEq] at hcs
      rw [← hcs.2] at hopening
      exact ⟨opening, after, hopening, hread⟩
    | expression hexpression =>
      rw [List.cons.injEq] at hcs
      exact absurd hcs.1 (by decide)
    | @text value _ hne hall hstop =>
      obtain ⟨d, tail, rfl⟩ := List.exists_cons_of_ne_nil hne
      rw [List.cons_append, List.cons.injEq] at hcs
      have hd := hall d List.mem_cons_self
      rw [← hcs.1] at hd
      exact absurd hd (by decide)

/-- Where a scan succeeds, a brace among children opens an expression. -/
theorem exists_expression_of_readFrom {p : Progress} {f : Frame} {rest : List Char} {scan : Scan}
    (h : readFrom (p.inside f) ('\x7b' :: rest) = .ok scan) :
    ∃ source after, readExpression? rest = some (source, after) ∧
      readFrom (p.inside (f.push (.expression (String.ofList source)))) after = .ok scan := by
  obtain ⟨q, after, hstep, _, hread⟩ := exists_contentStep rfl h
  generalize hcs : '\x7b' :: rest = cs at hstep
  cases hstep with
  | fragmentEnd htag => simp at hcs
  | elementEnd htag hclosing => simp at hcs
  | opening hslash hopening => simp at hcs
  | expression hexpression =>
    rw [List.cons.injEq] at hcs
    rw [← hcs.2] at hexpression
    exact ⟨_, after, hexpression, hread⟩
  | @text value _ hne hall hstop =>
    obtain ⟨d, tail, rfl⟩ := List.exists_cons_of_ne_nil hne
    rw [List.cons_append, List.cons.injEq] at hcs
    have hd := hall d List.mem_cons_self
    rw [← hcs.1] at hd
    exact absurd hd (by decide)

end Scan

namespace Progress

section
variable {p : Progress} {f : Frame} {rest : List Char} {ms : List Mark}

/-- An opening tag that is found was legible. -/
theorem legible_openPassages_of_expects {tag : String} {as : Attributes} {selfClosing : Bool}
    (hroot : p.frames = [] → OpensRoot tag)
    (htag : tag = "" ∧ as = [] ∧ selfClosing = false ∨ IsName tag) (hw : ∀ a ∈ as, a.IsWritten)
    (hplain : ∀ a ∈ as, a.HoldsNoStyle)
    (h : p.Expects (openTag tag as selfClosing ++ rest) (.opened tag as :: ms)) :
    Legible (openPassages tag as selfClosing) rest := by
  obtain ⟨rfl, rfl, rfl⟩ | hname := htag
  · exact legible_plain.2 trivial
  have hne := ne_empty_of_isName hname
  obtain ⟨c, tail, htoList, hstart, _⟩ := exists_of_isName hname
  have happ : openTag tag as selfClosing ++ rest =
      '<' :: c :: (tail ++ (join (as.passages selfClosing) ++ rest)) := by
    rw [← join_openPassages, openPassages, if_neg hne, Passage.join_cons, Passage.text, htoList]
    simp
  have hopen : p.frames = [] →
      opensMarkup none ('<' :: c :: (tail ++ (join (as.passages selfClosing) ++ rest))) = true := by
    intro hframes
    have halpha := hroot hframes
    rw [OpensRoot, htoList, List.head?_cons, Option.all_some] at halpha
    simp [opensMarkup, forbidsMarkup, halpha]
  obtain ⟨closed, scan, hscan, hfound⟩ := h
  rw [happ] at hscan
  obtain ⟨opening, after, hopening, hread⟩ := Scan.exists_opened_of_readFrom
    (p := { p with closed }) (ne_of_isNameStart hstart (by decide)) hopen hscan
  obtain ⟨more, hmore⟩ := marks_opened { p with closed } opening
  have hprefix := Scan.marks_prefix hread
  rw [hmore, hfound] at hprefix
  have hmark := (List.cons_prefix_cons.1 ((List.prefix_append_right_inj _).1 hprefix)).1
  rw [Mark.opened.injEq] at hmark
  have hbehind := Attributes.isBehind_passages hw hplain selfClosing rest
  have hnameRead := nameRead?_append hname hbehind.stops
  rw [htoList, List.cons_append] at hnameRead
  rw [openPassages, if_neg hne, legible_plain]
  obtain ⟨hfragment, _⟩ | ⟨name, afterName, attributes, closed', hname', hattributes, rfl⟩ :=
    readOpening_cases hopening
  · rw [List.cons.injEq] at hfragment
    exact absurd hfragment.1 (ne_of_isNameStart hstart (by decide))
  · rw [hnameRead, Option.some.injEq, Prod.mk.injEq] at hname'
    have has : attributes = as := hmark.2
    rw [← hname'.2, has] at hattributes
    exact legible_of_readAttributes hw hplain hattributes

/-- An expression that is found was legible. -/
theorem legible_expression_of_expects {source : String}
    (h : (p.inside f).Expects (braced source.toList ++ rest) (.expression source :: ms)) :
    (Passage.expression source.toList).Legible rest := by
  obtain ⟨closed, scan, hscan, hfound⟩ := h
  have happ : braced source.toList ++ rest = '\x7b' :: (source.toList ++ '\x7d' :: rest) := by
    simp [braced]
  rw [happ] at hscan
  obtain ⟨found, after, hexpression, hread⟩ :=
    Scan.exists_expression_of_readFrom (p := { p with closed }) hscan
  have hprefix := Scan.marks_prefix hread
  rw [marks_inside_push, hfound] at hprefix
  have hmark := (List.cons_prefix_cons.1 ((List.prefix_append_right_inj _).1 hprefix)).1
  rw [Mark.expression.injEq] at hmark
  exact readExpression?_eq_of_eq hexpression (by rw [← hmark, String.toList_ofList])

/-- Behind a line break that is followed by no text, what was expected is still expected: the line
break displays nothing. -/
theorem expects_lineBreak {indent : List Char} {m : Mark} (hindent : ∀ c ∈ indent, isBlank c = true)
    (hstop : Stops isTextChar rest) (hm : m.isText = false)
    (h : (p.inside f).Expects ('\n' :: (indent ++ rest)) (m :: ms)) :
    isBlankText (String.ofList ('\n' :: indent)) = true ∧
      (p.inside (f.push (lineBreak indent))).Expects rest (m :: ms) := by
  have hread := reads_lineBreak (p := p) (f := f) hindent hstop
  have hmarks := marks_inside_push p f (lineBreak indent)
  cases hblank : isBlankText (String.ofList ('\n' :: indent)) with
  | true =>
    have h' : (p.inside f).Expects ('\n' :: (indent ++ rest)) ([] ++ m :: ms) := h
    refine ⟨rfl, h'.of_reads hread ?_⟩
    rw [hmarks, lineBreak, Node.marksAll, if_pos hblank]
    rfl
  | false =>
    obtain ⟨closed, scan, hscan, hfound⟩ := h
    obtain ⟨tags, _, hread⟩ := hread closed
    have hprefix := Scan.marks_prefix (hread.symm.trans hscan)
    have hmarks' : (Progress.mk (f.push (lineBreak indent) :: p.frames) p.segments
        (tags ++ closed)).marks =
        (p.inside f).marks ++ [.text (String.ofList ('\n' :: indent))] := by
      have hall : Node.marksAll [lineBreak indent] =
          [.text (String.ofList ('\n' :: indent))] := by
        rw [lineBreak, Node.marksAll, hblank]
        rfl
      rw [← hall, ← hmarks]
      rfl
    have hprefix' : (p.inside f).marks ++ [.text (String.ofList ('\n' :: indent))] <+:
        (p.inside f).marks ++ m :: ms := by
      rw [← hmarks', ← hfound]
      exact hprefix
    have hmark := (List.cons_prefix_cons.1 ((List.prefix_append_right_inj _).1 hprefix')).1
    rw [← hmark, Mark.isText] at hm
    exact absurd hm.symm Bool.false_ne_true

/-- Behind an opening tag that is found, what is found in its element is expected. -/
theorem expects_openTag {tag : String} {as : Attributes} {children : List Node}
    (hroot : p.frames = [] → OpensRoot tag)
    (hw : (Element.mk tag as children).IsWritten)
    (hplain : (Element.mk tag as children).HoldsNoStyle)
    (h : p.Expects (openTag tag as false ++ rest) (.opened tag as :: ms)) :
    Legible (openPassages tag as false) rest ∧ (p.inside ⟨tag, as, []⟩).Expects rest ms := by
  have htag : tag = "" ∧ as = [] ∧ false = false ∨ IsName tag := by
    obtain ⟨htag, has⟩ | hname := hw.tag
    · exact Or.inl ⟨htag, has, rfl⟩
    · exact Or.inr hname
  have hlegible := legible_openPassages_of_expects hroot htag hw.attributes hplain h
  have hread := reads_openTag hroot htag hw.attributes hplain hlegible
  have h' : p.Expects (openTag tag as false ++ rest) ([.opened tag as] ++ ms) := h
  exact ⟨hlegible, h'.of_reads hread (marks_inside p ⟨tag, as, []⟩)⟩

end

end Progress

/-! ### Elements -/

theorem Node.marksAll_cons (n : Node) (ns : List Node) :
    Node.marksAll (n :: ns) = Node.marksAll [n] ++ Node.marksAll ns :=
  Node.marksAll_append [n] ns

theorem Element.exists_marks (e : Element) :
    ∃ more, e.marks = .opened e.tag e.attributes :: more := by
  obtain ⟨tag, attributes, children⟩ := e
  exact ⟨_, Element.marks.eq_def _⟩

theorem Element.marks_laidOut {e : Element} {indent following : List Char}
    (h : Legible (e.passages indent) following) : (e.laidOut indent).marks = e.marks :=
  Element.marks_eq_of_dropBlank (Element.dropBlank_laidOut e indent following h)

mutual
/-- An element that is found where it was printed was legible. -/
theorem Element.legible_of_expects : (e : Element) → {indent rest : List Char} → {p : Progress} →
    {ms : List Mark} → (p.frames = [] → OpensRoot e.tag) → (∀ c ∈ indent, isBlank c = true) →
    e.IsPrintable → p.Expects (e.print indent ++ rest) (e.marks ++ ms) →
    Legible (e.passages indent) rest
  | ⟨tag, attributes, children⟩, indent, rest, p, ms, hroot, hindent, hprintable, h => by
    obtain ⟨⟨hw, hplain⟩, hchildren⟩ := Element.isPrintable_iff.1 hprintable
    have hend : join [.plain (closeTag tag)] ++ rest = closeTag tag ++ rest := by
      rw [Passage.join_cons, Passage.join_nil, List.append_nil, Passage.text]
    rw [Element.marks, List.cons_append, List.append_assoc] at h
    obtain ⟨rfl, htag⟩ | htext | ⟨source, rfl⟩ | hlines := Element.layout_cases tag children
    · rw [Element.print_closed htag] at h
      rw [Element.passages_closed htag]
      have hname := hw.tag.resolve_left fun hfragment => htag hfragment.1
      exact Progress.legible_openPassages_of_expects hroot (Or.inr hname) hw.attributes hplain h
    · rw [Element.print_inline htext, List.append_assoc, List.append_assoc] at h
      obtain ⟨hopen, hexpects⟩ := Progress.expects_openTag hroot hw hplain h
      rw [Element.passages_inline htext, legible_append, legible_append, Passage.join_append,
        Node.join_inlinePassages, List.append_assoc, hend]
      exact ⟨hopen, Node.legibleInline_of_expects children hindent hchildren hw.texts
        (stops_closeTag tag rest) hexpects, legible_plain.2 trivial⟩
    · rw [Element.print_single, List.append_assoc, List.append_assoc] at h
      obtain ⟨hopen, hexpects⟩ := Progress.expects_openTag hroot hw hplain h
      rw [Element.passages_single, legible_append, legible_cons, Passage.join_cons,
        List.append_assoc, hend]
      exact ⟨hopen, Progress.legible_expression_of_expects hexpects, legible_plain.2 trivial⟩
    · rw [Element.print_lines hlines, List.append_assoc, List.append_assoc, List.cons_append,
        List.append_assoc] at h
      obtain ⟨hopen, hexpects⟩ := Progress.expects_openTag hroot hw hplain h
      have hindent' := forall_mem_indentStep rfl hindent
      have hbody := Node.legibleLines_of_expects children hindent' hchildren hlines.noText hexpects
      have hread := Node.readsLines children (p := p) (f := ⟨tag, attributes, []⟩) hindent'
        hchildren hlines.noText hbody
      have hmarks := Node.marksAll_eq_of_dropBlankAll
        (Node.dropBlankAll_laidLines children _ _ hbody)
      have hlast := Progress.Expects.of_reads hexpects hread (by
        rw [Progress.marks_inside_pushAll, hmarks])
      have hblank := (Progress.expects_lineBreak hindent (stops_closeTag tag rest) rfl hlast).1
      rw [Element.passages_lines hlines, legible_append, legible_append, legible_cons,
        Passage.join_append, Node.join_linePassages, Passage.join_cons, List.append_assoc,
        List.append_assoc, hend]
      exact ⟨hopen, hbody, hblank, legible_plain.2 trivial⟩

theorem Node.legibleInline_of_expects : (ns : List Node) → {indent rest : List Char} →
    {p : Progress} → {f : Frame} → {ms : List Mark} → (∀ c ∈ indent, isBlank c = true) →
    Node.ArePrintable ns → Node.TextsWritten ns → Stops Progress.isTextChar rest →
    (p.inside f).Expects (Node.printInline ns indent ++ rest) (Node.marksAll ns ++ ms) →
    Legible (Node.inlinePassages ns indent) rest
  | [], _, _, _, _, _, _, _, _, _, _ => trivial
  | .text value :: ns, indent, rest, p, f, ms, hindent, hprintable, htexts, hstop, h => by
    obtain ⟨hne, hall, hhead, htexts⟩ := htexts
    have hread := Progress.reads_textNode (p := p) (f := f) hne hall
      (Node.stops_printInline hhead (indentAfter value.toList indent) hstop)
    rw [Node.printInline, Node.marksAll_cons, List.append_assoc, List.append_assoc] at h
    rw [Node.inlinePassages, legible_plain]
    exact Node.legibleInline_of_expects ns (isBlank_of_mem_indentAfter hindent) hprintable htexts
      hstop (h.of_reads hread (Progress.marks_inside_push p f _))
  | .expression source :: ns, indent, rest, p, f, ms, hindent, hprintable, htexts, hstop, h => by
    rw [Node.printInline, List.append_assoc] at h
    have hlegible := Progress.legible_expression_of_expects h
    have hread := Progress.reads_expression (p := p) (f := f) hlegible
    rw [Node.marksAll_cons, List.append_assoc] at h
    rw [Node.inlinePassages, legible_cons, Node.join_inlinePassages]
    exact ⟨hlegible, Node.legibleInline_of_expects ns hindent hprintable htexts hstop
      (h.of_reads hread (Progress.marks_inside_push p f _))⟩
  | .element e :: ns, indent, rest, p, f, ms, hindent, hprintable, htexts, hstop, h => by
    obtain ⟨hprintable, hprintables⟩ := Node.arePrintable_element.1 hprintable
    have hroot : (p.inside f).frames = [] → OpensRoot e.tag :=
      fun hnil => absurd hnil (List.cons_ne_nil _ _)
    rw [Node.printInline, Node.marksAll, List.append_assoc, List.append_assoc] at h
    have hlegible := Element.legible_of_expects e hroot hindent hprintable h
    have hread := Element.reads e hroot hindent hprintable hlegible
    have hmarks := Progress.marks_attach (p.inside f) (e.laidOut indent)
    rw [Element.marks_laidOut hlegible] at hmarks
    rw [Node.inlinePassages, legible_append, Node.join_inlinePassages]
    exact ⟨hlegible, Node.legibleInline_of_expects ns (p := p) (f := f.push _) hindent hprintables
      htexts hstop (h.of_reads hread hmarks)⟩

theorem Node.legibleLines_of_expects : (ns : List Node) → {indent rest : List Char} →
    {p : Progress} → {f : Frame} → {ms : List Mark} → (∀ c ∈ indent, isBlank c = true) →
    Node.ArePrintable ns → ns.any Node.isText = false →
    (p.inside f).Expects (Node.printLines ns indent ++ rest) (Node.marksAll ns ++ ms) →
    Legible (Node.linePassages ns indent) rest
  | [], _, _, _, _, _, _, _, _, _ => trivial
  | .text value :: ns, _, _, _, _, _, _, _, htext, _ => by simp [Node.isText] at htext
  | .expression source :: ns, indent, rest, p, f, ms, hindent, hprintable, htext, h => by
    have htext' : ns.any Node.isText = false := by simpa [Node.isText] using htext
    rw [Node.printLines, List.cons_append, List.cons_append, List.append_assoc, List.append_assoc,
      Node.marksAll, List.cons_append] at h
    obtain ⟨hblank, hexpects⟩ := Progress.expects_lineBreak hindent (stops_cons (by decide)) rfl h
    have hlegible := Progress.legible_expression_of_expects hexpects
    have hread := Progress.reads_expression (p := p) (f := f.push (lineBreak indent)) hlegible
    rw [Node.linePassages, legible_cons, legible_cons, Node.join_linePassages]
    rw [← List.singleton_append] at hexpects
    exact ⟨hblank, hlegible, Node.legibleLines_of_expects ns hindent hprintable htext'
      (hexpects.of_reads hread (Progress.marks_inside_push p _ _))⟩
  | .element e :: ns, indent, rest, p, f, ms, hindent, hprintable, htext, h => by
    have htext' : ns.any Node.isText = false := by simpa [Node.isText] using htext
    obtain ⟨hprintable, hprintables⟩ := Node.arePrintable_element.1 hprintable
    have hroot : (p.inside (f.push (lineBreak indent))).frames = [] → OpensRoot e.tag :=
      fun hnil => absurd hnil (List.cons_ne_nil _ _)
    rw [Node.printLines, List.cons_append, List.cons_append, List.append_assoc, List.append_assoc,
      Node.marksAll, List.append_assoc] at h
    obtain ⟨more, hmore⟩ := e.exists_marks
    rw [hmore, List.cons_append] at h
    obtain ⟨hblank, hexpects⟩ := Progress.expects_lineBreak hindent (stops_print e indent _) rfl h
    rw [← List.cons_append, ← hmore] at hexpects
    have hlegible := Element.legible_of_expects e hroot hindent hprintable hexpects
    have hread := Element.reads e hroot hindent hprintable hlegible
    have hmarks := Progress.marks_attach (p.inside (f.push (lineBreak indent))) (e.laidOut indent)
    rw [Element.marks_laidOut hlegible] at hmarks
    rw [Node.linePassages, legible_cons, legible_append, Node.join_linePassages]
    exact ⟨hblank, hlegible, Node.legibleLines_of_expects ns (p := p)
      (f := (f.push (lineBreak indent)).push _) hindent hprintables htext'
      (hexpects.of_reads hread hmarks)⟩
end

end MarkupTidy
