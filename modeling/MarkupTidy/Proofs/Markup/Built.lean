import MarkupTidy.Proofs.Markup.Reading

/-! # Trees built by hand

A tree whose expressions hold no quote, slash or brace, and whose texts hold no blank but spaces,
tabs and line breaks, is legible wherever it is printed.

* `Element.IsBuilt`: these conditions at one element.
* `Element.legible_of_isBuilt`: every passage of such a tree is legible in front of any text.
* `Element.read_print`: printed and read, the tree comes back. -/

namespace MarkupTidy

open MarkupTidy.Markup MarkupTidy.Text

/-- The source of an expression holds nothing that a reader passes over or counts. -/
def IsSimpleSource (source : String) : Prop :=
  ∀ c ∈ source.toList, c ≠ '"' ∧ c ≠ '\'' ∧ c ≠ '\x60' ∧ c ≠ '/' ∧ c ≠ '\x7b' ∧ c ≠ '\x7d'

instance (source : String) : Decidable (IsSimpleSource source) :=
  List.decidableBAll _ _

/-- An attribute is built: it holds no inline style, and no expression but a simple one. -/
def Attribute.IsBuilt (a : Attribute) : Prop :=
  match a.value with
  | .flag => True
  | .text _ => True
  | .expression source => IsSimpleSource source
  | .style _ => False

instance : (a : Attribute) → Decidable a.IsBuilt
  | ⟨_, .flag⟩ => inferInstanceAs (Decidable True)
  | ⟨_, .text _⟩ => inferInstanceAs (Decidable True)
  | ⟨_, .expression source⟩ => inferInstanceAs (Decidable (IsSimpleSource source))
  | ⟨_, .style _⟩ => inferInstanceAs (Decidable False)

/-- A child is built: an expression is simple, and the blanks of a text are spaces, tabs and line
breaks. -/
def Node.IsBuilt : Node → Prop
  | .text value => ∀ c ∈ value.toList, Text.isBlank c = true → c ∈ [' ', '\t', '\r', '\n']
  | .expression source => IsSimpleSource source
  | .element _ => True

instance : (n : Node) → Decidable n.IsBuilt
  | .text value => List.decidableBAll
      (fun c => Text.isBlank c = true → c ∈ [' ', '\t', '\r', '\n']) value.toList
  | .expression source => inferInstanceAs (Decidable (IsSimpleSource source))
  | .element _ => inferInstanceAs (Decidable True)

/-- The conditions on an element and its own children under which they are built as markup. -/
structure Element.IsBuilt (e : Element) : Prop where
  written : e.IsWritten
  attributes : ∀ a ∈ e.attributes, a.IsBuilt
  children : ∀ n ∈ e.children, n.IsBuilt

instance (e : Element) : Decidable e.IsBuilt :=
  decidable_of_iff
    (e.IsWritten ∧ (∀ a ∈ e.attributes, a.IsBuilt) ∧ ∀ n ∈ e.children, n.IsBuilt)
    ⟨fun ⟨written, attributes, children⟩ => ⟨written, attributes, children⟩,
      fun ⟨written, attributes, children⟩ => ⟨written, attributes, children⟩⟩

theorem Element.IsBuilt.holdsNoStyle {e : Element} (h : e.IsBuilt) : e.HoldsNoStyle := by
  rintro ⟨name, value⟩ ha s rfl
  exact h.attributes _ ha

/-! ### Expressions -/

theorem readExpressionFrom_simple {source : List Char} (h : ∀ c ∈ source, c ≠ '"' ∧ c ≠ '\'' ∧
      c ≠ '\x60' ∧ c ≠ '/' ∧ c ≠ '\x7b' ∧ c ≠ '\x7d') (before : Option Char)
    (following : List Char) :
    readExpressionFrom 0 before (source ++ '\x7d' :: following) = some (source, following) := by
  induction source generalizing before with
  | nil =>
    have hnone : Verbatim.read? before ('\x7d' :: following) = none :=
      Verbatim.read?_eq_none (by decide) (by decide)
    rw [List.nil_append, readExpressionFrom_plain hnone, if_pos rfl]
  | cons c tail ih =>
    obtain ⟨⟨hdouble, hsingle, htick, hslash, hopen, hclose⟩, htail⟩ := List.forall_mem_cons.1 h
    have hquote : Style.isQuote c = false := by simp [Style.isQuote, hdouble, hsingle, htick]
    rw [List.cons_append, readExpressionFrom_plain (Verbatim.read?_eq_none hslash hquote),
      if_neg hclose, if_neg hopen, ih htail]
    rfl

theorem legible_of_isSimpleSource {source : String} (h : IsSimpleSource source)
    (following : List Char) : (Passage.expression source.toList).Legible following :=
  readExpressionFrom_simple h _ following

/-! ### Line breaks -/

theorem breakLines_of_forall {cs : List Char} (h : ∀ c ∈ cs, c ≠ '\r' ∧ c ≠ '\n') :
    breakLines cs = [cs] := by
  fun_induction breakLines cs with
  | case1 => rfl
  | case2 rest => exact absurd rfl (h '\r' List.mem_cons_self).1
  | case3 c rest _ hc =>
    obtain ⟨hr, hn⟩ := h c List.mem_cons_self
    simp [hr, hn] at hc
  | case4 c rest _ _ hnil ih =>
    rw [ih (List.forall_mem_cons.1 h).2] at hnil
    simp at hnil
  | case5 c rest _ _ line lines hlines ih =>
    rw [ih (List.forall_mem_cons.1 h).2, List.cons.injEq] at hlines
    rw [← hlines.1, ← hlines.2]

theorem mem_of_mem_breakLines {cs line : List Char} (hline : line ∈ breakLines cs) :
    ∀ c ∈ line, c ∈ cs ∧ c ≠ '\r' ∧ c ≠ '\n' := by
  fun_induction breakLines cs generalizing line with
  | case1 => simp_all
  | case2 rest ih =>
    obtain rfl | hline := List.mem_cons.1 hline
    · exact List.forall_mem_nil _
    · intro c hc
      obtain ⟨hmem, hne⟩ := ih hline c hc
      exact ⟨by simp [hmem], hne⟩
  | case3 d rest _ hd ih =>
    obtain rfl | hline := List.mem_cons.1 hline
    · exact List.forall_mem_nil _
    · intro c hc
      obtain ⟨hmem, hne⟩ := ih hline c hc
      exact ⟨by simp [hmem], hne⟩
  | case4 d rest _ hd hnil ih =>
    simp only [Bool.or_eq_true, decide_eq_true_eq, not_or] at hd
    intro c hc
    rw [List.mem_singleton] at hline
    rw [hline, List.mem_singleton] at hc
    rw [hc]
    exact ⟨List.mem_cons_self, hd⟩
  | case5 d rest _ hd first lines hlines ih =>
    simp only [Bool.or_eq_true, decide_eq_true_eq, not_or] at hd
    intro c hc
    obtain rfl | hline := List.mem_cons.1 hline
    · obtain rfl | hc := List.mem_cons.1 hc
      · exact ⟨List.mem_cons_self, hd⟩
      · obtain ⟨hmem, hne⟩ := ih (by rw [hlines]; exact List.mem_cons_self) c hc
        exact ⟨by simp [hmem], hne⟩
    · obtain ⟨hmem, hne⟩ := ih (by rw [hlines]; exact List.mem_cons_of_mem _ hline) c hc
      exact ⟨by simp [hmem], hne⟩

theorem ne_break_of_isLayout {c : Char} (h : isLayout c = true) : c ≠ '\r' ∧ c ≠ '\n' := by
  refine ⟨?_, ?_⟩ <;> (rintro rfl; simp [isLayout] at h)

/-- A line break and spaces or tabs display nothing. -/
theorem isBlankText_lineBreak {indent : List Char} (h : ∀ c ∈ indent, isLayout c = true) :
    isBlankText (String.ofList ('\n' :: indent)) = true := by
  have hlines : breakLines ('\n' :: indent) = [[], indent] := by
    rw [breakLines, breakLines_of_forall fun c hc => ne_break_of_isLayout (h c hc)]
    · rfl
    · simp
  have hdrop := dropWhile_append_of_stops h stops_nil
  rw [List.append_nil] at hdrop
  rw [isBlankText, String.toList_ofList, renderedText, hlines]
  simp only [trimLines, trimLaterLines, hdrop]
  rfl

/-- The indentation after a text whose blanks are spaces, tabs and line breaks. -/
theorem isLayout_of_mem_indentAfter {value indent : List Char}
    (hvalue : ∀ c ∈ value, isBlank c = true → c ∈ [' ', '\t', '\r', '\n'])
    (h : ∀ c ∈ indent, isLayout c = true) : ∀ c ∈ indentAfter value indent, isLayout c = true := by
  unfold indentAfter
  dsimp only
  split
  · exact h
  · intro c hc
    cases hlast : (breakLines value).getLast? with
    | none => simp [hlast] at hc
    | some line =>
      rw [hlast, Option.getD_some] at hc
      obtain ⟨hmem, hr, hn⟩ := mem_of_mem_breakLines (List.mem_of_getLast? hlast) c
        (List.takeWhile_subset _ hc)
      have hblank := forall_mem_takeWhile line c hc
      have hmem' := hvalue c hmem hblank
      simp only [List.mem_cons, List.not_mem_nil, or_false] at hmem'
      obtain rfl | rfl | rfl | rfl := hmem'
      · rfl
      · rfl
      · exact absurd rfl hr
      · exact absurd rfl hn

/-! ### Built trees are legible -/

theorem Attributes.legible_passages {as : Attributes} (h : ∀ a ∈ as, a.IsBuilt)
    (selfClosing : Bool) (following : List Char) : Legible (as.passages selfClosing) following := by
  induction as with
  | nil =>
    rw [Attributes.passages, legible_plain]
    trivial
  | cons a rest ih =>
    obtain ⟨ha, hrest⟩ := List.forall_mem_cons.1 h
    rw [Attributes.passages, legible_plain, legible_append]
    refine ⟨?_, ih hrest⟩
    obtain ⟨name, value⟩ := a
    cases value with
    | flag => exact legible_plain.2 trivial
    | text value => exact legible_plain.2 trivial
    | style s => exact ha.elim
    | expression source => exact legible_expression_iff.2 (legible_of_isSimpleSource ha _)

theorem Element.IsBuilt.legible_openPassages {e : Element} (h : e.IsBuilt) (selfClosing : Bool)
    (following : List Char) :
    Legible (openPassages e.tag e.attributes selfClosing) following := by
  unfold openPassages
  split
  · exact legible_plain.2 trivial
  · exact legible_plain.2 (Attributes.legible_passages h.attributes selfClosing following)

mutual
/-- Every passage of a built tree is legible in front of any text. -/
theorem Element.legible_of_isBuilt : (e : Element) → {indent : List Char} →
    (∀ c ∈ indent, isLayout c = true) → (∀ x ∈ e.preorder, x.IsBuilt) →
    ∀ following, Legible (e.passages indent) following
  | ⟨tag, attributes, children⟩, indent, hindent, h, following => by
    rw [Element.preorder, List.forall_mem_cons] at h
    obtain ⟨hhere, hbelow⟩ := h
    have hopen := hhere.legible_openPassages
    have hbuilt := hhere.children
    obtain ⟨rfl, htag⟩ | htext | ⟨source, rfl⟩ | hlines := Element.layout_cases tag children
    · rw [Element.passages_closed htag]
      exact hopen true following
    · rw [Element.passages_inline htext, legible_append, legible_append]
      exact ⟨hopen false _, Node.legible_inlinePassages children hindent hbuilt hbelow _,
        legible_plain.2 trivial⟩
    · rw [Element.passages_single, legible_append, legible_cons]
      exact ⟨hopen false _, legible_of_isSimpleSource (hbuilt _ List.mem_cons_self) _,
        legible_plain.2 trivial⟩
    · rw [Element.passages_lines hlines, legible_append, legible_append, legible_cons]
      exact ⟨hopen false _, Node.legible_linePassages children (forall_mem_indentStep rfl hindent)
        hbuilt hbelow _, isBlankText_lineBreak hindent, legible_plain.2 trivial⟩

theorem Node.legible_inlinePassages : (ns : List Node) → {indent : List Char} →
    (∀ c ∈ indent, isLayout c = true) → (∀ n ∈ ns, n.IsBuilt) →
    (∀ x ∈ Node.preorderAll ns, x.IsBuilt) →
    ∀ following, Legible (Node.inlinePassages ns indent) following
  | [], _, _, _, _, _ => trivial
  | .text value :: ns, indent, hindent, hbuilt, hbelow, following => by
    rw [Node.inlinePassages, legible_plain]
    have hindent' := isLayout_of_mem_indentAfter (hbuilt _ List.mem_cons_self) hindent
    exact Node.legible_inlinePassages ns hindent' (List.forall_mem_cons.1 hbuilt).2 hbelow following
  | .expression source :: ns, indent, hindent, hbuilt, hbelow, following => by
    rw [Node.inlinePassages, legible_cons]
    exact ⟨legible_of_isSimpleSource (hbuilt _ List.mem_cons_self) _,
      Node.legible_inlinePassages ns hindent (List.forall_mem_cons.1 hbuilt).2 hbelow following⟩
  | .element e :: ns, indent, hindent, hbuilt, hbelow, following => by
    rw [Node.preorderAll, List.forall_mem_append] at hbelow
    rw [Node.inlinePassages, legible_append]
    exact ⟨Element.legible_of_isBuilt e hindent hbelow.1 _,
      Node.legible_inlinePassages ns hindent (List.forall_mem_cons.1 hbuilt).2 hbelow.2 following⟩

theorem Node.legible_linePassages : (ns : List Node) → {indent : List Char} →
    (∀ c ∈ indent, isLayout c = true) → (∀ n ∈ ns, n.IsBuilt) →
    (∀ x ∈ Node.preorderAll ns, x.IsBuilt) →
    ∀ following, Legible (Node.linePassages ns indent) following
  | [], _, _, _, _, _ => trivial
  | .text value :: ns, indent, hindent, hbuilt, hbelow, following => by
    rw [Node.linePassages, legible_cons, legible_plain]
    exact ⟨isBlankText_lineBreak hindent,
      Node.legible_linePassages ns hindent (List.forall_mem_cons.1 hbuilt).2 hbelow following⟩
  | .expression source :: ns, indent, hindent, hbuilt, hbelow, following => by
    rw [Node.linePassages, legible_cons, legible_cons]
    exact ⟨isBlankText_lineBreak hindent,
      legible_of_isSimpleSource (hbuilt _ List.mem_cons_self) _,
      Node.legible_linePassages ns hindent (List.forall_mem_cons.1 hbuilt).2 hbelow following⟩
  | .element e :: ns, indent, hindent, hbuilt, hbelow, following => by
    rw [Node.preorderAll, List.forall_mem_append] at hbelow
    rw [Node.linePassages, legible_cons, legible_append]
    exact ⟨isBlankText_lineBreak hindent, Element.legible_of_isBuilt e hindent hbelow.1 _,
      Node.legible_linePassages ns hindent (List.forall_mem_cons.1 hbuilt).2 hbelow.2 following⟩
end

/-- A built tree that may stand as a root is printed as the source of one root element, which is
the tree but for texts that display nothing and is printed alike. -/
theorem Element.read_print {e : Element} (hroot : OpensRoot e.tag)
    (h : ∀ x ∈ e.preorder, x.IsBuilt) :
    ∃ e', Document.read (String.ofList (e.print [])) = .ok ⟨[.markup e']⟩ ∧
      e'.dropBlank = e.dropBlank ∧ e'.print [] = e.print [] := by
  have hlegible : Legible (e.passages []) [] :=
    Element.legible_of_isBuilt e (List.forall_mem_nil _) h []
  have hprintable : e.IsPrintable := fun x hx => ⟨(h x hx).written, (h x hx).holdsNoStyle⟩
  have hread := Element.reads e (p := .start) (fun _ => hroot) (List.forall_mem_nil _) hprintable
    hlegible
  rw [List.append_nil] at hread
  exact ⟨e.laidOut [], Document.read_of_reads hread rfl, Element.dropBlank_laidOut e [] [] hlegible,
    Element.print_laidOut e [] []⟩

/-- An element with a spread, a flag, a quoted value and an expression, around a text with a line
break, a fragment and a nested element. -/
def exampleTree : Element :=
  ⟨"Card.Body", [⟨"", .expression "...props"⟩, ⟨"open", .flag⟩, ⟨"title", .text "say \"hi\""⟩,
      ⟨"onClick", .expression "() => f(x)"⟩],
    [.text "a\n\t b ", .element ⟨"", [], []⟩, .expression "x + 1",
      .element ⟨"ul", [], [.element ⟨"li", [], []⟩, .expression "items"]⟩]⟩

theorem exampleTree_read_print : OpensRoot exampleTree.tag ∧
    (∀ x ∈ exampleTree.preorder, x.IsBuilt) ∧
    ∃ e', Document.read (String.ofList (exampleTree.print [])) = .ok ⟨[.markup e']⟩ ∧
      e'.dropBlank = exampleTree.dropBlank ∧ e'.print [] = exampleTree.print [] := by
  have hroot : OpensRoot exampleTree.tag := by decide
  have hbuilt : ∀ x ∈ exampleTree.preorder, x.IsBuilt := by decide
  exact ⟨hroot, hbuilt, Element.read_print hroot hbuilt⟩

end MarkupTidy
